import RestScaffold.Proofs.Bindings
import RestScaffold.Proofs.ClassNames
import RestScaffold.Proofs.PathVariables

/-! # Checks of a binding

A method is bound to HTTP if its rule passes five kinds of checks. They are made in one order, and
the first that fails is reported.

* `BoundBy`: the rule that a method is bound by, its own or the one of a method without a rule;
* `Check`, `Check.Holds`, `Check.fault`: what a rule must meet, and what is reported if it does not;
* `checks`: the checks of a rule in their order, with one for each variable of its path;
* `stopsAtFirst_ofMethod`: the checks are made in that order, each of them;
* `first_failed_check_is_reported`: when a method is bound, and which fault there is if it is not. -/

namespace RestScaffold.Target

open Contract (Message Method Field)
open Http (Rule Verb Pattern requestMethods wholeMessage)
open PathTemplate (Variable IsVariables variablesOf)

/-! ### Rules -/

/-- The rule that a method is bound by. The whole request of a method without a rule is posted to
the path of its service and its name, which are what stands before and behind the last dot of its
full name. -/
inductive BoundBy (m : Method) : Rule → Prop where
  | own {rule : Rule} (h : m.rule = some rule) : BoundBy m rule
  | ofService {service name : String} (h : m.rule = none)
      (hname : m.fullName = service ++ "." ++ name) (hdot : '.' ∉ name.toList) :
      BoundBy m { pattern := some ⟨.post, "/" ++ service ++ "/" ++ name⟩, body := "*" }
  | ofName (h : m.rule = none) (hdot : '.' ∉ m.fullName.toList) :
      BoundBy m { pattern := some ⟨.post, "/" ++ m.fullName⟩, body := "*" }

theorem boundBy_effectiveRule (m : Method) : BoundBy m (effectiveRule m) := by
  cases hrule : m.rule with
  | some rule =>
      rw [effectiveRule, hrule]
      exact .own hrule
  | none =>
      rw [effectiveRule, hrule, Option.getD_none, defaultRule, defaultPath]
      by_cases hdot : '.' ∈ m.fullName.toList
      · obtain ⟨dot, before, after, hcut, rfl, hafter⟩ :=
          exists_isLast (p := (· = '.')) ⟨'.', hdot, rfl⟩
        rw [← String.toList_ofList (l := before), ← String.toList_ofList (l := after)] at hcut
        have hname : m.fullName = String.ofList before ++ "." ++ String.ofList after := by
          rw [← String.toList_inj, hcut]
          simp
        have hnone : '.' ∉ (String.ofList after).toList := by
          rw [String.toList_ofList]
          exact fun h => hafter '.' h rfl
        rw [Text.cutAtLast_eq_some hcut hnone]
        exact .ofService hrule hname hnone
      · rw [Text.cutAtLast_eq_none hdot]
        exact .ofName hrule hdot

theorem boundBy_iff {m : Method} {rule : Rule} : BoundBy m rule ↔ rule = effectiveRule m := by
  constructor
  · intro h
    cases h with
    | own h => rw [effectiveRule, h, Option.getD_some]
    | @ofService service name h hname hdot =>
        have hcut : m.fullName.toList = service.toList ++ '.' :: name.toList := by
          simp [hname]
        rw [effectiveRule, h, Option.getD_none, defaultRule, defaultPath,
          Text.cutAtLast_eq_some hcut hdot, wholeMessage]
    | ofName h hdot =>
        rw [effectiveRule, h, Option.getD_none, defaultRule, defaultPath,
          Text.cutAtLast_eq_none hdot, wholeMessage]
  · rintro rfl
    exact boundBy_effectiveRule m

/-! ### Checks -/

/-- What a rule is checked for. -/
inductive Check where
  /-- There is a request method for the verb. -/
  | verb
  /-- The path does not end in a slash. -/
  | slash
  /-- A variable of the path is a field of the request. -/
  | variable (name : String)
  /-- The body can be read into the request. -/
  | body
  /-- The reply can be taken from the response. -/
  | reply
deriving DecidableEq

/-- The checks of a rule in their order, with one for each variable in order of first appearance. -/
def checks (vars : List Variable) : List Check :=
  .verb :: .slash :: vars.map (.variable ·.name) ++ [.body, .reply]

/-- The field that a name stands for, the first that bears it. -/
def Names (m : Message) (name : String) (f : Field) : Prop :=
  IsFirst (·.name = name) m.fields f

/-- The rule of a method passes the check. -/
def Check.Holds (m : Method) (rule : Rule) : Check → Prop
  | .verb => ∀ kind, rule.verb = .custom kind → Text.upper kind ∈ requestMethods
  | .slash => rule.path.toList.getLast? ≠ some '/'
  | .variable name => ∃ f ∈ m.input.fields, f.name = name
  | .body => rule.body = "" ∨ rule.body = "*" ∨
      ∃ f, Names m.input rule.body f ∧ f.kind.isMessage = true
  | .reply => rule.responseBody = "" ∨ rule.responseBody = "*" ∨
      ∃ f ∈ m.output.fields, f.name = rule.responseBody

/-- What is reported if the rule does not pass the check. -/
def Check.fault (m : Method) (rule : Rule) : Check → Fault
  | .verb => .unsupportedVerb rule.verb.name m.fullName
  | .slash => .trailingSlash rule.path
  | .variable name => .unknownVariable m.input.file name m.input.name
  | .body =>
    if rule.body ∈ m.input.fields.map (·.name) then .scalarBody rule.body m.input.name
    else .unknownBody rule.body m.input.name
  | .reply => .unknownResponseBody rule.responseBody m.output.name

theorem names_iff {m : Message} {name : String} {f : Field} :
    Names m name f ↔ m.field? name = some f := by
  rw [Names, Message.field?, ← isFirst_iff_find?]
  simp

theorem names_iff_of_nodup {m : Message} (h : (m.fields.map (·.name)).Nodup) {name : String}
    {f : Field} : Names m name f ↔ f ∈ m.fields ∧ f.name = name := by
  constructor
  · rintro ⟨before, after, hfields, -, hname⟩
    exact ⟨by simp [hfields], hname⟩
  · rintro ⟨hf, rfl⟩
    obtain ⟨before, after, hfields⟩ := List.append_of_mem hf
    refine ⟨before, after, hfields, fun g hg hname => ?_, rfl⟩
    rw [hfields, List.map_append, List.nodup_append, List.map_cons] at h
    exact h.2.2 _ (List.mem_map_of_mem hg) _ List.mem_cons_self hname

theorem field?_eq_none_iff {m : Message} {name : String} :
    m.field? name = none ↔ ¬ ∃ f ∈ m.fields, f.name = name := by
  simp [Message.field?]

/-! ### The order of the checks -/

section

variable {m : Method} {rule : Rule}

/-- A step that makes one check. -/
def Makes (m : Method) (rule : Rule) (c : Check) {α : Type} (x : Except Fault α) : Prop :=
  (c.Holds m rule → ∃ a, x = .ok a) ∧ (¬ c.Holds m rule → x = .error (c.fault m rule))

theorem makes_checkVerb : Makes m rule .verb (checkVerb rule.verb m.fullName) := by
  have hholds : Check.verb.Holds m rule ↔ rule.verb.isSupported = true := by
    unfold Check.Holds
    cases hverb : rule.verb with
    | custom kind => simp [Verb.isSupported]
    | _ => simp [Verb.isSupported]
  rw [Makes, hholds, checkVerb]
  exact ⟨fun h => ⟨(), if_pos h⟩, fun h => if_neg h⟩

theorem makes_variablesOf : Makes m rule .slash (variablesOf rule.path) := by
  unfold variablesOf
  exact ⟨fun h => ⟨_, if_neg h⟩, fun h => if_pos (not_not.mp h)⟩

theorem makes_bodyParameter : Makes m rule .body (bodyParameter m.input rule) := by
  unfold bodyParameter
  by_cases hnone : rule.body = ""
  · exact ⟨fun _ => ⟨none, if_pos hnone⟩, fun h => absurd (.inl hnone) h⟩
  · by_cases hwhole : rule.body = wholeMessage
    · rw [if_neg hnone, if_pos hwhole]
      exact ⟨fun _ => ⟨_, rfl⟩, fun h => absurd (.inr (.inl hwhole)) h⟩
    · have hholds : Check.body.Holds m rule ↔
          ∃ f, m.input.field? rule.body = some f ∧ f.kind.isMessage = true := by
        unfold Check.Holds
        simp only [names_iff]
        exact ⟨fun h => (h.resolve_left hnone).resolve_left hwhole, fun h => .inr (.inr h)⟩
      have hmem : rule.body ∈ m.input.fields.map (·.name) ↔ m.input.field? rule.body ≠ none := by
        rw [ne_eq, field?_eq_none_iff, not_not, List.mem_map]
      rw [Makes, hholds, if_neg hnone, if_neg hwhole, Check.fault]
      cases hfield : m.input.field? rule.body with
      | none => simp [hmem, hfield]
      | some f => cases hkind : f.kind.isMessage <;> simp [hmem, hfield, hkind]

theorem makes_replyOf : Makes m rule .reply (replyOf m.output rule) := by
  unfold replyOf
  by_cases hwhole : rule.responseBody = "" ∨ rule.responseBody = wholeMessage
  · rw [if_pos hwhole]
    exact ⟨fun _ => ⟨_, rfl⟩, fun h => absurd (or_assoc.mp (.inl hwhole)) h⟩
  · have hholds : Check.reply.Holds m rule ↔ m.output.field? rule.responseBody ≠ none := by
      rw [ne_eq, field?_eq_none_iff, not_not]
      exact ⟨fun h => (or_assoc.mpr h).resolve_left hwhole, fun h => .inr (.inr h)⟩
    rw [Makes, hholds, if_neg hwhole]
    cases hfield : m.output.field? rule.responseBody with
    | none => simp [Check.fault]
    | some f => simp

theorem makes_fieldOfVariable (v : Variable) : Makes m rule (.variable v.name)
    (match m.input.field? v.name with
      | some f => Except.ok (Parameter.mk (.path v.name) (.ofField f) v.name)
      | none => .error (.unknownVariable m.input.file v.name m.input.name)) := by
  have hholds : (Check.variable v.name).Holds m rule ↔ m.input.field? v.name ≠ none := by
    rw [ne_eq, field?_eq_none_iff, not_not, Check.Holds]
  rw [Makes, hholds]
  cases hfield : m.input.field? v.name with
  | none => simp [Check.fault]
  | some f => simp

open scoped Classical in
theorem Makes.stopsAtFirst {c : Check} {α : Type} {x : Except Fault α} (h : Makes m rule c x) :
    StopsAtFirst (fun c => decide (¬ c.Holds m rule)) (Check.fault m rule) [c] x := by
  by_cases hc : c.Holds m rule
  · obtain ⟨a, rfl⟩ := h.1 hc
    exact stopsAtFirst_of_not_bad (by simpa using hc) a
  · rw [h.2 hc]
    exact stopsAtFirst_of_bad (by simpa using hc)

end

open scoped Classical in
/-- An endpoint is made by the checks in their order, and none of them is left out. -/
theorem stopsAtFirst_ofMethod (m : Method) {vars : List Variable}
    (h : IsVariables (effectiveRule m).path vars) :
    StopsAtFirst (fun c => decide (¬ c.Holds m (effectiveRule m)))
      (Check.fault m (effectiveRule m)) (checks vars) (Endpoint.ofMethod m) := by
  unfold Endpoint.ofMethod
  rw [checks, List.cons_append, List.cons_append, ← List.singleton_append,
    ← List.singleton_append (x := Check.slash), ← List.append_nil [Check.body, Check.reply],
    List.cons_append]
  refine makes_checkVerb.stopsAtFirst.bind fun _ _ => ?_
  refine makes_variablesOf.stopsAtFirst.bind fun vars' hvars => ?_
  obtain rfl : vars = vars' := by
    rw [(PathTemplate.variablesOf_eq_ok_iff.mp hvars).2, PathTemplate.isVariables_iff.mp h]
  rw [List.map_eq_flatMap]
  refine StopsAtFirst.bind (StopsAtFirst.mapM fun v _ => (makes_fieldOfVariable v).stopsAtFirst)
    fun path _ => ?_
  refine makes_bodyParameter.stopsAtFirst.bind fun body _ => ?_
  refine makes_replyOf.stopsAtFirst.bind fun reply _ => ?_
  exact stopsAtFirst_ok _ _ _

/-! ### The fault that is reported -/

/-- The method is bound if all checks hold. If not, the fault is that of the first that does not. -/
structure Checked (m : Method) (rule : Rule) (vars : List Variable) : Prop where
  succeeds : (∃ e, Endpoint.ofMethod m = .ok e) ↔ ∀ c ∈ checks vars, c.Holds m rule
  reports : ∀ fault, Endpoint.ofMethod m = .error fault ↔
    ∃ c, IsFirst (fun c => ¬ c.Holds m rule) (checks vars) c ∧ fault = c.fault m rule
  distinct : (m.input.fields.map (·.name)).Nodup →
    ∀ f, Names m.input rule.body f ↔ f ∈ m.input.fields ∧ f.name = rule.body

theorem checked {m : Method} {vars : List Variable}
    (h : IsVariables (effectiveRule m).path vars) : Checked m (effectiveRule m) vars where
  succeeds := by
    classical
    rw [(stopsAtFirst_ofMethod m h).succeeds_iff]
    simp
  reports := fun fault => by
    classical
    rw [(stopsAtFirst_ofMethod m h).eq_error_iff]
    simp
  distinct := fun h _ => names_iff_of_nodup h

/-- **The first failed check is reported.** One rule binds a method, and its path has one list of
variables. The method has an endpoint if and only if the rule passes all of its checks, and
otherwise the fault is that of the first check that it does not pass. -/
theorem first_failed_check_is_reported (m : Method) :
    ∃ rule vars, (∀ other, BoundBy m other ↔ other = rule) ∧
      (∀ other, IsVariables rule.path other ↔ other = vars) ∧ Checked m rule vars := by
  have hvars : ∀ other, IsVariables (effectiveRule m).path other ↔ other = _ :=
    fun other => PathTemplate.isVariables_iff.trans eq_comm
  exact ⟨effectiveRule m, _, fun _ => boundBy_iff, hvars, checked ((hvars _).mpr rfl)⟩

end RestScaffold.Target
