import RestScaffold.Text.LetterCase

/-! # HTTP rules

The binding of a method to HTTP, as the contract's author annotated it.

* `Verb`: the verbs with a field of their own, and any other by its name;
* `Rule`: verb and path, and which fields travel in the bodies;
* `Verb.mapping`: the annotation that maps a path to a handler. -/

namespace RestScaffold.Http

/-- How a resource is addressed. -/
inductive Verb where
  | get
  | put
  | post
  | delete
  | patch
  | custom (name : String)
deriving DecidableEq, Repr

/-- A verb with the path template that it applies to. -/
structure Pattern where
  verb : Verb
  path : String
deriving DecidableEq, Repr

/-- The binding of a method. -/
structure Rule where
  selector : String := ""
  pattern : Option Pattern := none
  /-- The request field in the body: empty for none, a star for the whole message. -/
  body : String := ""
  /-- The response field in the body: empty or a star for the whole message. -/
  responseBody : String := ""
  additionalBindings : List Rule := []
deriving Inhabited

/-- The name that stands for a whole message. -/
def wholeMessage : String := "*"

/-! ### Verbs -/

/-- The name of a verb as the contract spells it. -/
def Verb.name : Verb → String
  | .get => "GET"
  | .put => "PUT"
  | .post => "POST"
  | .delete => "DELETE"
  | .patch => "PATCH"
  | .custom name => name

/-- The names that a request mapping accepts. -/
def requestMethods : List String :=
  ["GET", "HEAD", "POST", "PUT", "PATCH", "DELETE", "OPTIONS", "TRACE"]

/-- The verbs with a mapping of their own are supported, and the others whose name in upper case
a request mapping accepts. -/
def Verb.isSupported : Verb → Bool
  | .custom name => requestMethods.contains (Text.upper name)
  | _ => true

/-- The mapping annotation for a path; verbs with a mapping of their own name it. -/
def Verb.mapping (path : String) : Verb → String
  | .get => "@GetMapping(\"" ++ path ++ "\")"
  | .put => "@PutMapping(\"" ++ path ++ "\")"
  | .post => "@PostMapping(\"" ++ path ++ "\")"
  | .delete => "@DeleteMapping(\"" ++ path ++ "\")"
  | .patch => "@PatchMapping(\"" ++ path ++ "\")"
  | .custom name =>
    "@RequestMapping(value = \"" ++ path ++ "\", method = RequestMethod." ++
      Text.upper name ++ ")"

/-! ### Rules -/

/-- The verb of a rule; without a pattern it is a post. -/
def Rule.verb (r : Rule) : Verb :=
  match r.pattern with
  | some p => p.verb
  | none => .post

/-- The path of a rule; without a pattern it is empty. -/
def Rule.path (r : Rule) : String :=
  match r.pattern with
  | some p => p.path
  | none => ""

end RestScaffold.Http
