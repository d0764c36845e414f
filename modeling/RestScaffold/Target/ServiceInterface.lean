import RestScaffold.Target.Member
import RestScaffold.Target.Skeleton
import RestScaffold.Options

/-! # Service interfaces

The interface that is generated for a service, and the names that it shares with its controller.

* `serviceName`, `controllerName`: the names of the two classes of a service;
* `servicePackage`, `controllerPackage`: the packages that they are in;
* `firstClash`: the first method whose name is taken, with the method that has it;
* `ServiceInterface.ofService`, `ServiceInterface.text`: the interface and its source. -/

namespace RestScaffold.Target

open Contract (File Service)

/-! ### Names and packages -/

/-- The text without `ending`, if it ends so. -/
def withoutEnding (ending s : String) : Option String :=
  if ending.toList.isSuffixOf s.toList then
    some (String.ofList (s.toList.take (s.toList.length - ending.toList.length)))
  else none

/-- The name of the interface: `Greeter` and `GreeterService` both give `GreeterService`. -/
def serviceName (s : Service) : String :=
  match withoutEnding "Service" s.name with
  | some _ => s.name
  | none => s.name ++ "Service"

/-- The name of the controller: `User` and `UserService` both give `UserController`. -/
def controllerName (s : Service) : String :=
  (withoutEnding "Service" s.name).getD s.name ++ "Controller"

/-- The package of a file's interfaces. -/
def servicePackage (options : Options) (file : File) : String :=
  Naming.qualify file.package options.servicePackage

/-- The package of a file's controllers. -/
def controllerPackage (options : Options) (file : File) : String :=
  Naming.qualify file.package options.controllerPackage

/-- The path by which an interface is imported. -/
def serviceImport (options : Options) (file : File) (s : Service) : String :=
  Naming.qualify (servicePackage options file) (serviceName s)

/-! ### The interface -/

/-- The interface of a service. -/
structure ServiceInterface where
  package : String
  name : String
  comment : String
  operations : List Operation
  /-- The classes of requests and responses, each once. -/
  imports : List String

/-- The first operation whose name an earlier one has, behind that earlier one. -/
def firstClash (earlier : List Operation) : List Operation → Option (Operation × Operation)
  | [] => none
  | o :: os =>
    match earlier.find? (·.name = o.name) with
    | some first => some (first, o)
    | none => firstClash (earlier ++ [o]) os

/-- The operations of a service. Names that differ in the contract may become one. -/
def operationsOf (s : Service) : Except Fault (List Operation) :=
  let operations := s.methods.map Operation.ofMethod
  match firstClash [] operations with
  | some (first, second) =>
    .error (.methodClash s.fullName first.fullName second.fullName second.name)
  | none => .ok operations

/-- The interface of a service. -/
def ServiceInterface.ofService (options : Options) (file : File) (s : Service) :
    Except Fault ServiceInterface := do
  let operations ← operationsOf s
  return {
    package := servicePackage options file
    name := serviceName s
    comment := s.comment
    operations := operations
    imports :=
      (s.methods.flatMap fun m => [m.input.ref.importPath, m.output.ref.importPath]).eraseDups }

/-! ### Source -/

/-- The declaration of an operation. -/
def Operation.script (o : Operation) : List Step :=
  [.doc o.comment,
   .push (o.response.name ++ " " ++ o.name ++ "(" ++ o.request.name ++ " request);")]

/-- The source of an interface around its methods. -/
def ServiceInterface.skeleton : String :=
  Text.joinLines
    ["<header>",
     "",
     "<comment>public interface <name> \x7b",
     "",
     "<methods>",
     "\x7d",
     ""]

/-- The section of the methods. -/
def ServiceInterface.methods (i : ServiceInterface) : String :=
  layout 1 (separated (i.operations.map Operation.script))

/-- The source of an interface. -/
def ServiceInterface.text (i : ServiceInterface) : String :=
  fill ServiceInterface.skeleton
    [("<header>", header i.package i.imports), ("<comment>", classComment i.comment),
     ("<name>", i.name), ("<methods>", i.methods)]

end RestScaffold.Target
