import RestScaffold.Proofs.Scripts

/-! # Methods and handlers as they are written

The sources of an interface and of a controller, with the methods of the one and the handlers of the
other as texts.

* `Operation.block`: a method of an interface;
* `Handler`, `Handler.block`: a handler by its parts, and the texts that it is written with;
* `Endpoint.handler`: the handler of an endpoint;
* `ServiceInterface.methods_eq`, `Controller.handlers_eq`: what stands between the braces;
* `handler_infix_text`: a controller has the lines of each of its handlers. -/

namespace RestScaffold.Target

open Text (splitAt)

/-! ### Methods -/

/-- A method of an interface: its comment and its declaration. -/
def Operation.block (o : Operation) : List (Nat × String) :=
  (docLines o.comment ++
    [o.response.name ++ " " ++ o.name ++ "(" ++ o.request.name ++ " request);"]).map (1, ·)

theorem Operation.isLevel_script (o : Operation) : IsLevel o.script :=
  (isLevel_doc _).append (isLevel_push _)

theorem linesAt_operationScript (o : Operation) : linesAt 1 o.script = linesOf o.block := by
  simp [Operation.script, Operation.block, linesOf, List.flatMap_map]

theorem ServiceInterface.methods_eq (i : ServiceInterface) :
    i.methods = rowOf (i.operations.map Operation.block) := by
  have hlevel : ∀ script ∈ i.operations.map Operation.script, IsLevel script :=
    List.forall_mem_map.mpr fun o _ => o.isLevel_script
  rw [ServiceInterface.methods, layout_separated 1 hlevel, rowOf, List.map_map, List.map_map]
  simp only [Function.comp_def, linesAt_operationScript]

/-! ### Handlers -/

/-- A variable with the type that stands in front of its name where it is declared. -/
structure LocalVariable where
  type : JavaType
  name : String
deriving DecidableEq

def LocalVariable.text (v : LocalVariable) : String :=
  v.type.text ++ " " ++ v.name

/-- A handler of a controller by its parts. -/
structure Handler where
  comment : String
  mapping : String
  /-- The type that it returns. -/
  type : JavaType
  name : String
  /-- The arguments, each behind the annotation that binds it. -/
  arguments : List (String × LocalVariable)
  /-- The variable that is declared with a new object, if there is one. -/
  created : Option LocalVariable
  setters : List SetterCall
  /-- The method that is called on the service, and the variable that is handed to it. -/
  operation : String
  argument : String
  /-- The getter that is called on what the method gives, if one is. -/
  getter : Option String

namespace Handler

def signature (h : Handler) : String :=
  "public " ++ h.type.text ++ " " ++ h.name ++ "(" ++
    ", ".intercalate (h.arguments.map fun a => a.1 ++ " " ++ a.2.text) ++ ") \x7b"

/-- The statement that calls the method on the service in the field `service`. -/
def result (service : String) (h : Handler) : String :=
  let call := "this." ++ service ++ "." ++ h.operation ++ "(" ++ h.argument ++ ")"
  match h.getter with
  | none => "return " ++ call ++ ";"
  | some getter => "return " ++ call ++ "." ++ getter ++ "();"

def statements (service : String) (h : Handler) : List String :=
  (h.created.map fun v => v.text ++ " = new " ++ v.type.text ++ "();").toList ++
    h.setters.map (fun c => c.target ++ "." ++ c.setter ++ "(" ++ c.argument ++ ");") ++
    [h.result service]

/-- The texts that a handler is written with. -/
def block (service : String) (h : Handler) : List (Nat × String) :=
  (docLines h.comment ++ [h.mapping, h.signature]).map (1, ·) ++
    (h.statements service).map (2, ·) ++ [(1, "\x7d")]

/-- The variables that a handler declares. -/
def locals (h : Handler) : List LocalVariable :=
  h.arguments.map (·.2) ++ h.created.toList

end Handler

/-- The handler of an endpoint. -/
def Endpoint.handler (e : Endpoint) : Handler where
  comment := e.operation.comment
  mapping := e.mapping
  type := e.reply.type
  name := e.operation.name
  arguments := e.parameters.map fun p => (p.binding, ⟨p.type, Naming.memberName p.name⟩)
  created := if e.wholeBody then none else some ⟨.declared e.operation.request, e.requestName⟩
  setters := e.setterCalls
  operation := e.operation.name
  argument := e.requestVariable
  getter := e.replyGetter

section

variable (service : String) (e : Endpoint)

theorem Endpoint.signature_eq : e.signature = e.handler.signature := by
  have hdeclaration : Parameter.declaration = fun p => p.binding ++ " " ++
      LocalVariable.text ⟨p.type, Naming.memberName p.name⟩ := by
    funext p
    simp [Parameter.declaration, Parameter.argumentName, LocalVariable.text, String.append_assoc]
  simp [Endpoint.signature, Handler.signature, handler, hdeclaration, Function.comp_def]

theorem Endpoint.statements_eq : e.statements service = e.handler.statements service := by
  have hnew : e.newRequest = (e.handler.created.map fun v =>
      v.text ++ " = new " ++ v.type.text ++ "();").toList := by
    unfold newRequest handler
    split <;> rfl
  have hresult : e.returnStatement service = e.handler.result service := by
    unfold returnStatement Handler.result
    cases h : e.replyGetter <;> simp [handler, h, serviceCall]
  rw [statements, hnew, hresult]
  rfl

theorem Endpoint.isLevel_handlerHead :
    IsLevel [.doc e.operation.comment, .push e.mapping, .push e.signature] :=
  ((isLevel_doc _).append (isLevel_push _)).append (isLevel_push _)

theorem Endpoint.isLevel_handlerScript : IsLevel (e.handlerScript service) :=
  (e.isLevel_handlerHead.append (isLevel_map_push _).deeper).append (isLevel_push _)

theorem linesAt_handlerScript :
    linesAt 1 (e.handlerScript service) = linesOf (e.handler.block service) := by
  have hhead := e.isLevel_handlerHead
  have hbody := (isLevel_map_push (e.statements service)).deeper
  rw [Endpoint.handlerScript, (hhead.append hbody).linesAt_append, hhead.linesAt_append,
    linesAt_deeper, linesAt_map_push, e.signature_eq, e.statements_eq]
  simp [Handler.block, Endpoint.handler, linesOf, List.flatMap_map]

end

theorem Controller.isLevel_of_mem_scripts (c : Controller) :
    ∀ script ∈ c.endpoints.map (Endpoint.handlerScript c.serviceVariable), IsLevel script :=
  List.forall_mem_map.mpr fun e _ => e.isLevel_handlerScript c.serviceVariable

theorem Controller.handlers_eq (c : Controller) :
    c.handlers = rowOf (c.endpoints.map fun e => e.handler.block c.serviceVariable) := by
  rw [Controller.handlers, layout_separated 1 c.isLevel_of_mem_scripts, rowOf, List.map_map,
    List.map_map]
  simp only [Function.comp_def, linesAt_handlerScript]

/-! ### Sources -/

theorem Artifact.text_serviceInterface (i : ServiceInterface) :
    (Artifact.serviceInterface i).text = Text.trim (Text.joinLines
      (interfaceLines (header i.package i.imports) (classComment i.comment) i.name
        (rowOf (i.operations.map Operation.block)))) := by
  rw [← i.methods_eq, ← i.text_eq]
  rfl

theorem Artifact.text_controller (c : Controller) :
    (Artifact.controller c).text = Text.trim (Text.joinLines
      (controllerLines (header c.package c.imports) (classComment c.comment) c.name c.serviceName
        c.serviceVariable (rowOf (c.endpoints.map fun e => e.handler.block c.serviceVariable)))) := by
  rw [← c.handlers_eq, ← c.text_eq]
  rfl

/-- The section of the handlers stands in front of the last brace. -/
theorem exists_controller_text_eq (c : Controller) : ∃ before,
    (Artifact.controller c).text = before ++ "\n" ++ c.handlers ++ "\n" ++ "\x7d" := by
  obtain ⟨front, hfront⟩ : ∃ front, front = (controllerLines (header c.package c.imports)
      (classComment c.comment) c.name c.serviceName c.serviceVariable c.handlers).drop 4 := ⟨_, rfl⟩
  obtain ⟨mid, hmid⟩ : ∃ mid : String, (Text.joinLines front).toList =
      (mid ++ "\n" ++ c.handlers ++ "\n").toList ++ '}' :: ['\n'] := by
    refine ⟨Text.joinLines (front.take 7), ?_⟩
    simp [hfront, controllerLines, Text.joinLines]
  have htext := Artifact.text_eq_of_source (a := .controller c)
    (congrArg Text.trim (Artifact.controller_text_eq c)) (d := '}') rfl (hfront ▸ hmid)
  have hend : ['\n'].rdropWhile Text.isBlank = [] := by decide
  obtain ⟨head, hhead⟩ : ∃ head : String, head.toList =
      ((Artifact.controller c).head.toList ++ ['\n', '\n']).dropWhile Text.isBlank ++
        ((Artifact.controller c).kind.opening (Artifact.controller c).comment
          (Artifact.controller c).name).toList :=
    ⟨String.ofList _, String.toList_ofList⟩
  refine ⟨head ++ "\n" ++ mid, ?_⟩
  rw [← String.toList_inj, htext, hend, ← hhead]
  simp

theorem handler_infix_text {c : Controller} {e : Endpoint} (he : e ∈ c.endpoints) :
    linesOf (e.handler.block c.serviceVariable) <:+:
      splitAt '\n' (Artifact.controller c).text := by
  obtain ⟨before, htext⟩ := exists_controller_text_eq c
  have hscript : e.handlerScript c.serviceVariable ∈
      c.endpoints.map (Endpoint.handlerScript c.serviceVariable) := List.mem_map_of_mem he
  have hlines : linesOf (e.handler.block c.serviceVariable) <:+:
      linesAt 1 (separated (c.endpoints.map (Endpoint.handlerScript c.serviceVariable))) := by
    rw [linesAt_separated 1 c.isLevel_of_mem_scripts, ← linesAt_handlerScript]
    exact infix_intercalate (List.mem_map_of_mem hscript)
  have hne : linesOf (e.handler.block c.serviceVariable) ≠ [] := by
    simp [linesOf, Handler.block, indented_ne_nil]
  have hsplit : splitAt '\n' c.handlers = linesAt 1 (separated
      (c.endpoints.map (Endpoint.handlerScript c.serviceVariable))) :=
    splitAt_layout fun hnil => hne (List.infix_nil.mp (hnil ▸ hlines))
  rw [htext, Text.splitAt_append_lf, Text.splitAt_append_lf, hsplit]
  exact hlines.trans ((List.suffix_append _ _).isInfix.trans (List.prefix_append _ _).isInfix)

end RestScaffold.Target
