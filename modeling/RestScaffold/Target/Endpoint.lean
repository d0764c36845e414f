import RestScaffold.Target.Member
import RestScaffold.PathTemplate
import RestScaffold.Text.Lines

/-! # Endpoints

A method's HTTP rule decides where each field of the request comes from.

* `Parameter`: a parameter of a handler, bound to the path, the query or the body;
* `pathParameters`, `queryParameters`, `bodyParameter`: the three ways a field is bound;
* `Endpoint.ofMethod`: all that a handler needs, or the first fault of the rule. -/

namespace RestScaffold.Target

open Contract (Message Method)
open Http (Rule Verb wholeMessage)
open PathTemplate (Variable)

/-! ### Parameters -/

/-- Where a parameter's value comes from. -/
inductive Origin where
  /-- A variable of the path. -/
  | path (name : String)
  /-- A parameter of the query. -/
  | query (name : String) (required : Bool)
  /-- The body. -/
  | body
deriving DecidableEq, Repr

/-- A parameter of a handler. -/
structure Parameter where
  origin : Origin
  type : JavaType
  name : String
deriving DecidableEq

/-- The annotation that binds the parameter. -/
def Parameter.binding (p : Parameter) : String :=
  match p.origin with
  | .path name => "@PathVariable(\"" ++ name ++ "\")"
  | .query name true => "@RequestParam(name = \"" ++ name ++ "\", required = true)"
  | .query name false => "@RequestParam(name = \"" ++ name ++ "\")"
  | .body => "@RequestBody"

/-- Must a request set the parameter? Paths and bodies are always there. -/
def Parameter.required (p : Parameter) : Bool :=
  match p.origin with
  | .query _ required => required
  | _ => true

/-- Does the parameter take the body? -/
def Parameter.isBody (p : Parameter) : Bool :=
  p.origin == .body

/-- A parameter for each variable of the path, typed by the field of its name. -/
def pathParameters (vars : List Variable) (m : Message) : Except Fault (List Parameter) :=
  vars.mapM fun v =>
    match m.field? v.name with
    | some f => .ok ⟨.path v.name, .ofField f, v.name⟩
    | none => .error (.unknownVariable m.file v.name m.name)

/-- Is the field left to the query, as neither the path nor the body takes it? -/
def inQuery (vars : List Variable) (body : String) (f : Contract.Field) : Bool :=
  !vars.any (·.name = f.name) && f.name ≠ body

/-- The query parameter of a field. -/
def queryParameter (f : Contract.Field) : Parameter :=
  let p := Property.ofField f
  ⟨.query f.name p.required, p.type, p.name⟩

/-- The fields left to the query, in order; none when the body takes the whole message. -/
def queryParameters (vars : List Variable) (m : Message) (rule : Rule) : List Parameter :=
  if rule.body = wholeMessage then []
  else (m.fields.filter (inQuery vars rule.body)).map queryParameter

/-- The parameter that takes the body: the whole message or a field that is a message. -/
def bodyParameter (m : Message) (rule : Rule) : Except Fault (Option Parameter) :=
  if rule.body = "" then .ok none
  else if rule.body = wholeMessage then
    .ok (some ⟨.body, .declared m.ref, Text.lowerFirst m.name⟩)
  else
    match m.field? rule.body with
    | none => .error (.unknownBody rule.body m.name)
    | some f =>
      if f.kind.isMessage then .ok (some ⟨.body, .ofField f, rule.body⟩)
      else .error (.scalarBody rule.body m.name)

/-! ### Replies -/

/-- What a handler returns. -/
structure Reply where
  type : JavaType
  name : String
  /-- One field of the response instead of the whole message. -/
  isField : Bool
deriving DecidableEq

/-- The reply that a rule asks for: the whole message or one of its fields. -/
def replyOf (m : Message) (rule : Rule) : Except Fault Reply :=
  if rule.responseBody = "" ∨ rule.responseBody = wholeMessage then
    .ok ⟨.declared m.ref, Text.lowerFirst m.name, false⟩
  else
    match m.field? rule.responseBody with
    | none => .error (.unknownResponseBody rule.responseBody m.name)
    | some f => .ok ⟨.ofField f, rule.responseBody, true⟩

/-! ### Endpoints -/

/-- The path of a method without a rule: its service and its name. -/
def defaultPath (fullName : String) : String :=
  match Text.cutAtLast '.' fullName with
  | some (service, name) => "/" ++ service ++ "/" ++ name
  | none => "/" ++ fullName

/-- The rule of a method without one: the whole request is posted to its default path. -/
def defaultRule (m : Method) : Rule :=
  { pattern := some ⟨.post, defaultPath m.fullName⟩, body := wholeMessage }

/-- The rule that binds a method. -/
def effectiveRule (m : Method) : Rule :=
  m.rule.getD (defaultRule m)

/-- A method bound to HTTP. -/
structure Endpoint where
  operation : Operation
  verb : Verb
  path : String
  /-- The name of the variable that holds the request. -/
  requestName : String
  pathParameters : List Parameter
  queryParameters : List Parameter
  body : Option Parameter
  reply : Reply
  /-- The body is the whole request. -/
  wholeBody : Bool

/-- All parameters: path, then query, then body. -/
def Endpoint.parameters (e : Endpoint) : List Parameter :=
  e.pathParameters ++ e.queryParameters ++ e.body.toList

/-- Refuses a verb that no mapping supports. -/
def checkVerb (verb : Verb) (method : String) : Except Fault Unit :=
  if verb.isSupported then .ok () else .error (.unsupportedVerb verb.name method)

/-- The endpoint of a method. Verb, path, path variables, body and reply are looked at in this
order, and the first fault counts. -/
def Endpoint.ofMethod (m : Method) : Except Fault Endpoint := do
  let rule := effectiveRule m
  checkVerb rule.verb m.fullName
  let vars ← PathTemplate.variablesOf rule.path
  let path ← Target.pathParameters vars m.input
  let body ← bodyParameter m.input rule
  let reply ← replyOf m.output rule
  return {
    operation := .ofMethod m
    verb := rule.verb
    path := rule.path
    requestName := Text.lowerFirst m.input.name
    pathParameters := path
    queryParameters := Target.queryParameters vars m.input rule
    body := body
    reply := reply
    wholeBody := rule.body = wholeMessage }

/-- The annotation that maps the endpoint's path to its handler. -/
def Endpoint.mapping (e : Endpoint) : String :=
  e.verb.mapping (PathTemplate.mapping e.path)

end RestScaffold.Target
