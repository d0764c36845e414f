import RestScaffold.Fault
import RestScaffold.Naming
import RestScaffold.Text.Blank
import RestScaffold.Text.Lines

/-! # Options

The parameter of the generator is a list of settings, separated by commas.

* `Setting.parse`: the setting that one part stands for, or what is wrong with it;
* `Options.parse`: the defaults, changed by the settings in order. The first part that is no
  setting is the fault that is reported. -/

namespace RestScaffold

/-- Where generated classes go and how much is reported. -/
structure Options where
  /-- Replaces the base package of every listed file. -/
  basePackage : Option String := none
  /-- Package of beans and enum classes, below the base package. -/
  beanPackage : String := "dto"
  /-- Package of service interfaces, below the base package. -/
  servicePackage : String := "service"
  /-- Package of controllers, below the base package. -/
  controllerPackage : String := "controller"
  /-- Reports every generated file. -/
  verbose : Bool := false
deriving DecidableEq, Repr

/-- One change to the options. -/
inductive Setting where
  | basePackage (name : String)
  | beanPackage (name : String)
  | servicePackage (name : String)
  | controllerPackage (name : String)
  | verbose (on : Bool)
deriving DecidableEq, Repr

namespace Setting

/-- The keys whose value is a package, with the setting that each makes. -/
def packageKeys : List (String × (String → Setting)) :=
  [("package", .basePackage), ("dto_package", .beanPackage),
   ("service_package", .servicePackage), ("controller_package", .controllerPackage)]

/-- The setting of a key that stands without a value. -/
def ofKey (key : String) : Except ParameterProblem Setting :=
  if key = "verbose" then .ok (.verbose true)
  else if (packageKeys.lookup key).isSome then .error .missingValue
  else .error .unknownOption

/-- The setting of a key with a value. -/
def ofKeyValue (key value : String) : Except ParameterProblem Setting :=
  if key = "verbose" then
    if value = "true" then .ok (.verbose true)
    else if value = "false" then .ok (.verbose false)
    else .error .notBoolean
  else
    match packageKeys.lookup key with
    | some setting => if Naming.isPackageName value then .ok (setting value) else .error .notPackage
    | none => .error .unknownOption

/-- The setting that a trimmed part of the parameter stands for. -/
def parse (part : String) : Except Fault Setting :=
  let setting :=
    match Text.cutAtFirst '=' part with
    | some (key, value) => ofKeyValue (Text.trim key) (Text.trim value)
    | none => ofKey part
  setting.mapError (.invalidParameter part)

end Setting

namespace Options

/-- The options with one setting changed. -/
def apply (o : Options) : Setting → Options
  | .basePackage name => { o with basePackage := some name }
  | .beanPackage name => { o with beanPackage := name }
  | .servicePackage name => { o with servicePackage := name }
  | .controllerPackage name => { o with controllerPackage := name }
  | .verbose on => { o with verbose := on }

/-- The parts of a parameter: blanks around them do not count, and blank parts are left out. -/
def parts (parameter : String) : List String :=
  ((Text.splitAt ',' parameter).map Text.trim).filter (· ≠ "")

/-- The options that a parameter asks for; without one, the defaults. -/
def parse (parameter : Option String) : Except Fault Options := do
  let settings ← (parts (parameter.getD "")).mapM Setting.parse
  return settings.foldl apply {}

end Options

end RestScaffold
