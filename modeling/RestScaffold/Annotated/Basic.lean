import RestScaffold.Http.Rule

/-! # Annotations

What authors add to a contract for the sake of HTTP: behaviours of fields and rules of methods.
Annotations have no names; each stands at the place of the declaration that it belongs to. -/

namespace RestScaffold.Annotated

/-- The options of a field. -/
structure FieldOptions where
  /-- The behaviours of the field, as numbers. -/
  behaviors : List Int32 := []
deriving DecidableEq

/-- A field. -/
structure Field where
  options : Option FieldOptions := none
deriving DecidableEq

/-- A message. -/
structure Message where
  fields : List Field := []
  nested : List Message := []
deriving Inhabited

/-- The options of a method. -/
structure MethodOptions where
  rule : Option Http.Rule := none

/-- A method. -/
structure Method where
  options : Option MethodOptions := none

/-- A service. -/
structure Service where
  methods : List Method := []

/-- A file, which is found by its name. -/
structure File where
  name? : Option String := none
  messages : List Message := []
  services : List Service := []

/-- The annotations of a request. -/
structure Request where
  files : List File := []

/-- The number of the behaviour that makes a field required. -/
def requiredBehavior : Int32 := 2

/-- Is the field marked as required? -/
def Field.isRequired (f : Field) : Bool :=
  f.options.any (·.behaviors.contains requiredBehavior)

/-- The rule of a method, if it has one. -/
def Method.rule (m : Method) : Option Http.Rule :=
  m.options.bind (·.rule)

/-- The annotations of the file of the given name; of several the last counts. -/
def Request.file? (r : Request) (name : String) : Option File :=
  (r.files.filter (·.name? = some name)).getLast?

end RestScaffold.Annotated
