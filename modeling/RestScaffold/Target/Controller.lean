import RestScaffold.Target.Endpoint
import RestScaffold.Target.ServiceInterface

/-! # Controllers

The controller that is generated for a service: a handler for each method, which puts the
request together, calls the service and returns its reply.

* `SetterCall`: a call that hands a parameter to the request;
* `Endpoint.requestVariable`, `Endpoint.setterCalls`: how a handler gets its request;
* `Controller.ofService`, `Controller.text`: the controller and its source. -/

namespace RestScaffold.Target

open Contract (File Service Message)
open Naming (memberName)
open Text (upperFirst lowerFirst)

/-! ### Handlers -/

/-- The name of the handler's parameter. -/
def Parameter.argumentName (p : Parameter) : String :=
  memberName p.name

/-- The declaration of the handler's parameter. -/
def Parameter.declaration (p : Parameter) : String :=
  p.binding ++ " " ++ p.type.text ++ " " ++ p.argumentName

/-- A call that hands an argument to a setter. -/
structure SetterCall where
  target : String
  setter : String
  argument : String
deriving DecidableEq, Repr

/-- The statement of a setter call. -/
def SetterCall.statement (c : SetterCall) : String :=
  c.target ++ "." ++ c.setter ++ "(" ++ c.argument ++ ");"

/-- The call that hands a parameter to `target`. -/
def Parameter.setterCall (target : String) (p : Parameter) : SetterCall :=
  ⟨target, "set" ++ upperFirst p.argumentName, p.argumentName⟩

namespace Endpoint

/-- The variable that holds the request: the body's parameter if it is the whole request. -/
def requestVariable (e : Endpoint) : String :=
  match e.wholeBody, e.body with
  | true, some body => body.argumentName
  | _, _ => e.requestName

/-- The parameters that are handed to the request. A body that is the whole request is not. -/
def boundParameters (e : Endpoint) : List Parameter :=
  if e.wholeBody then e.pathParameters else e.parameters

/-- The calls that hand the parameters to the request. -/
def setterCalls (e : Endpoint) : List SetterCall :=
  e.boundParameters.map (Parameter.setterCall e.requestVariable)

/-- The statement that makes a new request, unless the body is one. -/
def newRequest (e : Endpoint) : List String :=
  if e.wholeBody then []
  else
    [e.operation.request.name ++ " " ++ e.requestName ++ " = new " ++
      e.operation.request.name ++ "();"]

/-- The getter that takes the reply out of the response, if it is one of its fields. -/
def replyGetter (e : Endpoint) : Option String :=
  if e.reply.isField then some ("get" ++ upperFirst (memberName e.reply.name)) else none

/-- The call of the service that the controller holds in the field `service`. -/
def serviceCall (service : String) (e : Endpoint) : String :=
  "this." ++ service ++ "." ++ e.operation.name ++ "(" ++ e.requestVariable ++ ")"

/-- The statement that returns the reply. -/
def returnStatement (service : String) (e : Endpoint) : String :=
  match e.replyGetter with
  | some getter => "return " ++ e.serviceCall service ++ "." ++ getter ++ "();"
  | none => "return " ++ e.serviceCall service ++ ";"

/-- The statements of a handler. -/
def statements (service : String) (e : Endpoint) : List String :=
  e.newRequest ++ e.setterCalls.map SetterCall.statement ++ [e.returnStatement service]

/-- The line that opens a handler. -/
def signature (e : Endpoint) : String :=
  "public " ++ e.reply.type.text ++ " " ++ e.operation.name ++ "(" ++
    ", ".intercalate (e.parameters.map Parameter.declaration) ++ ") \x7b"

/-- The handler of an endpoint. -/
def handlerScript (service : String) (e : Endpoint) : List Step :=
  [.doc e.operation.comment, .push e.mapping, .push e.signature] ++
    deeper ((e.statements service).map .push) ++ [.push "\x7d"]

end Endpoint

/-! ### The controller -/

/-- The controller of a service. -/
structure Controller where
  package : String
  name : String
  comment : String
  /-- The name of the service interface. -/
  serviceName : String
  endpoints : List Endpoint
  /-- The classes that the handlers name, each once. -/
  imports : List String

/-- The field that holds the service. -/
def Controller.serviceVariable (c : Controller) : String :=
  lowerFirst c.serviceName

/-- The class of a message, and the classes that its fields need. -/
def messageImports (package : String) (m : Message) : List String :=
  m.ref.importPath :: m.fields.flatMap fun f => (JavaType.ofField f).imports package

/-- The imports of a controller, each once. -/
def controllerImports (options : Options) (file : File) (s : Service) : List String :=
  let package := controllerPackage options file
  ([serviceImport options file s] ++
    (s.methods.flatMap fun m => messageImports package m.input ++ messageImports package m.output) ++
    ["org.springframework.web.bind.annotation.*"]).eraseDups

/-- The controller of a service. -/
def Controller.ofService (options : Options) (file : File) (s : Service) :
    Except Fault Controller := do
  let endpoints ← s.methods.mapM Endpoint.ofMethod
  return {
    package := controllerPackage options file
    name := controllerName s
    comment := s.comment
    serviceName := Target.serviceName s
    endpoints := endpoints
    imports := controllerImports options file s }

/-! ### Source -/

/-- The source of a controller around its handlers. -/
def Controller.skeleton : String :=
  Text.joinLines
    ["<header>",
     "",
     "<comment>@RestController",
     "public class <name> \x7b",
     "",
     "    private final <service> <variable>;",
     "",
     "    public <name>(<service> <variable>) \x7b",
     "        this.<variable> = <variable>;",
     "    \x7d",
     "",
     "<handlers>",
     "\x7d",
     ""]

/-- The section of the handlers. -/
def Controller.handlers (c : Controller) : String :=
  layout 1 (separated (c.endpoints.map (Endpoint.handlerScript c.serviceVariable)))

/-- The source of a controller. -/
def Controller.text (c : Controller) : String :=
  fill Controller.skeleton
    [("<header>", header c.package c.imports), ("<comment>", classComment c.comment),
     ("<handlers>", c.handlers), ("<name>", c.name), ("<service>", c.serviceName),
     ("<variable>", c.serviceVariable)]

end RestScaffold.Target
