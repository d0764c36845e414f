import RestScaffold.Generator
import RestScaffold.Proofs.CamelCase
import RestScaffold.Proofs.PathMapping
import RestScaffold.Proofs.ServicePair
import RestScaffold.Proofs.Sequencing

/-! # Line breaks in faults

The message of a fault names values as they are, so that it has the line breaks that they have.

* `IsLineBreak`, `SingleLine`: the characters that end a line, and texts without them;
* `BreaksFrom`: a text whose line breaks have a property, such as where they come from;
* `Fault.values`, `singleLine_message_iff`: the values that the message of a fault names;
* `FaultsFrom`: a computation in the values of whose faults all line breaks have the property;
* `faultsFrom_parse`: the faults of a parameter;
* `MethodFrom`, `faultsFrom_ofMethod`: the faults of endpoints;
* `FileFrom`, `faultsFrom_artifactsOf`: the faults of the artifacts of a file. -/

namespace RestScaffold

/-! ### Texts -/

/-- The characters that end a line: line feed and carriage return. -/
def IsLineBreak (c : Char) : Prop :=
  c = '\n' ∨ c = '\r'

instance : DecidablePred IsLineBreak :=
  fun c => inferInstanceAs (Decidable (c = '\n' ∨ c = '\r'))

/-- The text has no line breaks. -/
def SingleLine (s : String) : Prop :=
  ∀ c ∈ s.toList, ¬ IsLineBreak c

instance : DecidablePred SingleLine :=
  fun s => List.decidableBAll (fun c => ¬ IsLineBreak c) s.toList

/-- All line breaks of the text have the property. -/
def BreaksFrom (p : Char → Prop) (s : String) : Prop :=
  ∀ c ∈ s.toList, IsLineBreak c → p c

section

variable {p : Char → Prop} {s t : String}

theorem SingleLine.breaksFrom (h : SingleLine s) (p : Char → Prop) : BreaksFrom p s :=
  fun c hc hbreak => absurd hbreak (h c hc)

theorem breaksFrom_append : BreaksFrom p (s ++ t) ↔ BreaksFrom p s ∧ BreaksFrom p t := by
  unfold BreaksFrom
  rw [String.toList_append, List.forall_mem_append]

theorem BreaksFrom.of_subset (h : BreaksFrom p t) (hs : s.toList ⊆ t.toList) : BreaksFrom p s :=
  fun c hc => h c (hs hc)

theorem BreaksFrom.qualify (hs : BreaksFrom p s) (ht : BreaksFrom p t) :
    BreaksFrom p (Naming.qualify s t) := by
  unfold Naming.qualify
  split
  · exact ht
  · have hdot : BreaksFrom p "." := SingleLine.breaksFrom (by decide +kernel) p
    exact breaksFrom_append.mpr ⟨breaksFrom_append.mpr ⟨hs, hdot⟩, ht⟩

theorem singleLine_of_isAlphanum (h : ∀ c ∈ s.toList, c.isAlphanum) : SingleLine s := by
  rintro c hc (rfl | rfl)
  · exact absurd (h _ hc) (by decide)
  · exact absurd (h _ hc) (by decide)

end

/-! ### Faults -/

/-- The values that the message of a fault names. -/
def Fault.values : Fault → List String
  | .trailingSlash path => [path]
  | .unknownVariable file name message => [file, name, message]
  | .unknownBody field message => [field, message]
  | .scalarBody field message => [field, message]
  | .unknownResponseBody field message => [field, message]
  | .unresolvedType name referrer => [name, referrer]
  | .invalidParameter part _ => [part]
  | .unsupportedVerb verb method => [verb, method]
  | .methodClash service first second name => [service, first, second, name]
  | .outputClash path first second => [path, first, second]

theorem singleLine_reason : ∀ problem : ParameterProblem, SingleLine problem.reason
  | .notPackage => by decide +kernel
  | .notBoolean => by decide +kernel
  | .missingValue => by decide +kernel
  | .unknownOption => by decide +kernel

/-- The line breaks in the message of a fault are those of the values that it names. -/
theorem breaksFrom_message_iff {p : Char → Prop} (fault : Fault) :
    BreaksFrom p fault.message ↔ ∀ v ∈ fault.values, BreaksFrom p v := by
  -- What stands between the values has no line breaks.
  have htext : ∀ {s : String}, SingleLine s → (BreaksFrom p s ↔ True) :=
    fun h => iff_of_true (h.breaksFrom p) trivial
  delta Fault.message Fault.values
  cases fault with
  | invalidParameter part problem =>
      have hreason := (singleLine_reason problem).breaksFrom p
      simp (disch := decide +kernel) [breaksFrom_append, htext, hreason]
  | _ => simp (disch := decide +kernel) [breaksFrom_append, htext, and_assoc, and_comm]

/-- The message of a fault has one line exactly when the values that it names do. -/
theorem singleLine_message_iff (fault : Fault) :
    SingleLine fault.message ↔ ∀ v ∈ fault.values, SingleLine v :=
  breaksFrom_message_iff fault

/-! ### Computations -/

/-- In the values of every fault of the computation all line breaks have the property. -/
def FaultsFrom {α : Type} (p : Char → Prop) (x : Except Fault α) : Prop :=
  ∀ fault, x = .error fault → ∀ v ∈ fault.values, BreaksFrom p v

section

variable {α β : Type} {p : Char → Prop}

theorem faultsFrom_ok (a : α) : FaultsFrom p (.ok a) :=
  fun _ h => absurd h (by simp)

theorem faultsFrom_error {fault : Fault} (h : ∀ v ∈ fault.values, BreaksFrom p v) :
    FaultsFrom p (.error fault : Except Fault α) := by
  rintro fault' h'
  obtain rfl := Except.error.inj h'
  exact h

theorem FaultsFrom.bind {x : Except Fault α} {f : α → Except Fault β} (hx : FaultsFrom p x)
    (hf : ∀ a, x = .ok a → FaultsFrom p (f a)) : FaultsFrom p (x >>= f) := by
  intro fault h
  rcases bind_eq_error_iff.mp h with h | ⟨a, ha, h⟩
  · exact hx fault h
  · exact hf a ha fault h

theorem FaultsFrom.mapM {f : α → Except Fault β} : ∀ {as : List α},
    (∀ a ∈ as, FaultsFrom p (f a)) → FaultsFrom p (as.mapM f)
  | [], _ => faultsFrom_ok []
  | a :: as, h => by
      rw [List.mapM_cons]
      refine (h a List.mem_cons_self).bind fun b _ => ?_
      have htail : FaultsFrom p (as.mapM f) :=
        FaultsFrom.mapM fun a' ha' => h a' (List.mem_cons_of_mem a ha')
      exact htail.bind fun bs _ => faultsFrom_ok (b :: bs)

/-- A fold whose steps keep an invariant fails only as they do. -/
theorem FaultsFrom.foldlM {f : β → α → Except Fault β} (inv : β → Prop) :
    ∀ {as : List α} {b : β}, inv b → (∀ c, inv c → ∀ a ∈ as, FaultsFrom p (f c a)) →
      (∀ c, inv c → ∀ a ∈ as, ∀ d, f c a = .ok d → inv d) → FaultsFrom p (as.foldlM f b)
  | [], b, _, _, _ => faultsFrom_ok b
  | a :: as, b, hb, hfaults, hkeeps => by
      rw [List.foldlM_cons]
      refine (hfaults b hb a List.mem_cons_self).bind fun c hc => ?_
      exact FaultsFrom.foldlM inv (hkeeps b hb a List.mem_cons_self c hc)
        (fun d hd a' ha' => hfaults d hd a' (List.mem_cons_of_mem a ha'))
        (fun d hd a' ha' => hkeeps d hd a' (List.mem_cons_of_mem a ha'))

end

/-! ### Parts of texts -/

theorem subset_of_mem_splitAt {sep : Char} {s piece : String} (h : piece ∈ Text.splitAt sep s) :
    piece.toList ⊆ s.toList := by
  obtain ⟨cs, hcs, rfl⟩ := List.mem_map.mp h
  rw [String.toList_ofList]
  exact subset_of_mem_splitOn hcs

theorem subset_of_cutAtLast {sep : Char} {s before after : String}
    (h : Text.cutAtLast sep s = some (before, after)) :
    before.toList ⊆ s.toList ∧ after.toList ⊆ s.toList := by
  unfold Text.cutAtLast at h
  rw [List.span_eq_takeWhile_dropWhile] at h
  cases hrest : s.toList.reverse.dropWhile (· != sep) with
  | nil => simp [hrest] at h
  | cons c rest =>
      rw [hrest] at h
      obtain ⟨rfl, rfl⟩ := Prod.mk.inj (Option.some.inj h)
      have hback : ∀ d ∈ rest, d ∈ s.toList := by
        intro d hd
        have hmem : d ∈ s.toList.reverse.dropWhile (· != sep) := hrest ▸ List.mem_cons_of_mem c hd
        exact List.mem_reverse.mp ((List.dropWhile_sublist _).subset hmem)
      constructor
      · intro d hd
        rw [String.toList_ofList, List.mem_reverse] at hd
        exact hback d hd
      · intro d hd
        rw [String.toList_ofList, List.mem_reverse] at hd
        exact List.mem_reverse.mp ((List.takeWhile_sublist _).subset hd)

/-! ### Parameters -/

theorem faultsFrom_parse {p : Char → Prop} {parameter : Option String}
    (h : ∀ s, parameter = some s → BreaksFrom p s) : FaultsFrom p (Options.parse parameter) := by
  have htext : BreaksFrom p (parameter.getD "") := by
    cases parameter with
    | none => exact SingleLine.breaksFrom (by decide +kernel) p
    | some s => exact h s rfl
  unfold Options.parse
  refine FaultsFrom.bind (FaultsFrom.mapM fun part hpart => ?_) fun settings _ => faultsFrom_ok _
  obtain ⟨piece, hpiece, rfl⟩ := List.mem_map.mp (List.mem_filter.mp hpart).1
  have hsubset : (Text.trim piece).toList ⊆ (parameter.getD "").toList :=
    List.Subset.trans (Text.trim_subset piece) (subset_of_mem_splitAt hpiece)
  intro fault hfault
  rw [Setting.parse, mapError_eq_error_iff] at hfault
  obtain ⟨problem, -, rfl⟩ := hfault
  simpa [Fault.values] using htext.of_subset hsubset

/-! ### Contracts -/

namespace Target

open Contract (File Service Message Enumeration Method)
open Http (Rule Verb wholeMessage)

variable {p : Char → Prop}

/-- All line breaks in the names of a message have the property. -/
structure MessageFrom (p : Char → Prop) (m : Message) : Prop where
  name : BreaksFrom p m.name
  fullName : BreaksFrom p m.fullName
  file : BreaksFrom p m.file
  package : BreaksFrom p m.package

/-- All line breaks in a rule that a fault can name have the property. -/
structure RuleFrom (p : Char → Prop) (rule : Rule) : Prop where
  path : BreaksFrom p rule.path
  verb : BreaksFrom p rule.verb.name
  body : BreaksFrom p rule.body
  responseBody : BreaksFrom p rule.responseBody

/-- The same for a method. -/
structure MethodFrom (p : Char → Prop) (m : Method) : Prop where
  fullName : BreaksFrom p m.fullName
  input : MessageFrom p m.input
  output : MessageFrom p m.output
  rule : ∀ rule, m.rule = some rule → RuleFrom p rule

/-- The same for a service. -/
structure ServiceFrom (p : Char → Prop) (s : Service) : Prop where
  name : BreaksFrom p s.name
  fullName : BreaksFrom p s.fullName
  methods : ∀ m ∈ s.methods, MethodFrom p m

/-- The same for an enumeration. -/
structure EnumerationFrom (p : Char → Prop) (e : Enumeration) : Prop where
  name : BreaksFrom p e.name
  fullName : BreaksFrom p e.fullName
  package : BreaksFrom p e.package

/-- The same for a file. -/
structure FileFrom (p : Char → Prop) (file : File) : Prop where
  package : BreaksFrom p file.package
  messages : ∀ m ∈ file.messages, MessageFrom p m
  enumerations : ∀ e ∈ file.enumerations, EnumerationFrom p e
  services : ∀ s ∈ file.services, ServiceFrom p s

theorem breaksFrom_defaultPath {fullName : String} (h : BreaksFrom p fullName) :
    BreaksFrom p (defaultPath fullName) := by
  have hslash : BreaksFrom p "/" := SingleLine.breaksFrom (by decide +kernel) p
  unfold defaultPath
  split
  · rename_i service name hcut
    obtain ⟨hservice, hname⟩ := subset_of_cutAtLast hcut
    simp only [breaksFrom_append]
    exact ⟨⟨⟨hslash, h.of_subset hservice⟩, hslash⟩, h.of_subset hname⟩
  · exact breaksFrom_append.mpr ⟨hslash, h⟩

theorem MethodFrom.effectiveRule {m : Method} (h : MethodFrom p m) :
    RuleFrom p (effectiveRule m) := by
  unfold Target.effectiveRule
  cases hr : m.rule with
  | some rule => exact h.rule rule hr
  | none =>
      have hverb : SingleLine "POST" := by decide +kernel
      have hbody : SingleLine wholeMessage := by decide +kernel
      have hresponse : SingleLine "" := by decide +kernel
      exact ⟨breaksFrom_defaultPath h.fullName, hverb.breaksFrom p, hbody.breaksFrom p,
        hresponse.breaksFrom p⟩

theorem breaksFrom_of_mem_variablesOf {path : String} (h : BreaksFrom p path)
    {vars : List PathTemplate.Variable} (hvars : PathTemplate.variablesOf path = .ok vars)
    {v : PathTemplate.Variable} (hv : v ∈ vars) : BreaksFrom p v.name := by
  have hname : v.name ∈ PathTemplate.groupNames path := by
    rw [← List.mem_eraseDups, ← PathTemplate.names_variablesOf hvars]
    exact List.mem_map_of_mem hv
  obtain ⟨content, hcontent, heq⟩ := List.mem_map.mp hname
  refine h.of_subset fun c hc => ?_
  have hmem : c ∈ content := by
    rw [← heq, PathTemplate.groupName, String.toList_ofList] at hc
    exact (List.takeWhile_sublist _).subset ((Text.trimEnds_sublist _ _).subset hc)
  obtain ⟨segment, hsegment, hgroup⟩ := List.mem_filterMap.mp hcontent
  rw [← (PathTemplate.reads_segments path.toList).text_eq]
  cases segment with
  | plain d => exact absurd hgroup (by simp)
  | group content' =>
      obtain rfl : content' = content := Option.some.inj hgroup
      exact List.mem_flatMap.mpr ⟨_, hsegment, by simp [PathTemplate.Segment.text, hmem]⟩

/-! ### Endpoints -/

theorem faultsFrom_checkVerb {verb : Verb} {method : String} (hv : BreaksFrom p verb.name)
    (hm : BreaksFrom p method) : FaultsFrom p (checkVerb verb method) := by
  unfold checkVerb
  split
  · exact faultsFrom_ok ()
  · exact faultsFrom_error (by simp [Fault.values, hv, hm])

theorem faultsFrom_variablesOf {path : String} (h : BreaksFrom p path) :
    FaultsFrom p (PathTemplate.variablesOf path) := by
  unfold PathTemplate.variablesOf
  split
  · exact faultsFrom_error (by simpa [Fault.values] using h)
  · exact faultsFrom_ok _

theorem faultsFrom_pathParameters {vars : List PathTemplate.Variable} {m : Message}
    (hm : MessageFrom p m) (hv : ∀ v ∈ vars, BreaksFrom p v.name) :
    FaultsFrom p (pathParameters vars m) := by
  unfold pathParameters
  refine FaultsFrom.mapM fun v hmem => ?_
  split
  · exact faultsFrom_ok _
  · exact faultsFrom_error (by simp [Fault.values, hm.file, hv v hmem, hm.name])

theorem faultsFrom_bodyParameter {m : Message} {rule : Rule} (hm : MessageFrom p m)
    (hr : RuleFrom p rule) : FaultsFrom p (bodyParameter m rule) := by
  unfold bodyParameter
  split
  · exact faultsFrom_ok _
  · split
    · exact faultsFrom_ok _
    · split
      · exact faultsFrom_error (by simp [Fault.values, hr.body, hm.name])
      · split
        · exact faultsFrom_ok _
        · exact faultsFrom_error (by simp [Fault.values, hr.body, hm.name])

theorem faultsFrom_replyOf {m : Message} {rule : Rule} (hm : MessageFrom p m)
    (hr : RuleFrom p rule) : FaultsFrom p (replyOf m rule) := by
  unfold replyOf
  split
  · exact faultsFrom_ok _
  · split
    · exact faultsFrom_error (by simp [Fault.values, hr.responseBody, hm.name])
    · exact faultsFrom_ok _

theorem faultsFrom_ofMethod {m : Method} (h : MethodFrom p m) :
    FaultsFrom p (Endpoint.ofMethod m) := by
  have hr := h.effectiveRule
  unfold Endpoint.ofMethod
  refine (faultsFrom_checkVerb hr.verb h.fullName).bind fun _ _ => ?_
  refine (faultsFrom_variablesOf hr.path).bind fun vars hvars => ?_
  refine (faultsFrom_pathParameters h.input fun v hv =>
    breaksFrom_of_mem_variablesOf hr.path hvars hv).bind fun _ _ => ?_
  refine (faultsFrom_bodyParameter h.input hr).bind fun _ _ => ?_
  exact (faultsFrom_replyOf h.output hr).bind fun _ _ => faultsFrom_ok _

/-! ### Artifacts -/

theorem singleLine_methodName (m : Method) : SingleLine (methodName m) := by
  rw [methodName, Naming.typeName_eq_upperFirst_memberName,
    Naming.lowerFirst_upperFirst_memberName]
  exact singleLine_of_isAlphanum (Naming.isAlphanum_of_mem_memberName _)

theorem faultsFrom_operationsOf {s : Service} (h : ServiceFrom p s) :
    FaultsFrom p (operationsOf s) := by
  intro fault hfault
  obtain ⟨first, second, ⟨before, after, hsplit, -, hfirst, -⟩, rfl⟩ :=
    exists_firstRepeat_of_operationsOf hfault
  have hsecond : second ∈ s.methods := by
    rw [hsplit]
    exact List.mem_append_right before List.mem_cons_self
  have hearlier : first ∈ s.methods := by
    rw [hsplit]
    exact List.mem_append_left _ hfirst
  simp [Fault.values, h.fullName, (h.methods first hearlier).fullName,
    (h.methods second hsecond).fullName, (singleLine_methodName second).breaksFrom p]

theorem faultsFrom_artifactsOf {options : Options} {file : File} (h : FileFrom p file) :
    FaultsFrom p (artifactsOf options file) := by
  refine FaultsFrom.bind (FaultsFrom.mapM fun s hs => ?_) fun _ _ => faultsFrom_ok _
  have hservice := h.services s hs
  refine FaultsFrom.bind ?_ fun _ _ => FaultsFrom.bind ?_ fun _ _ => faultsFrom_ok _
  · exact (faultsFrom_operationsOf hservice).bind fun _ _ => faultsFrom_ok _
  · exact (FaultsFrom.mapM fun m hm => faultsFrom_ofMethod (hservice.methods m hm)).bind
      fun _ _ => faultsFrom_ok _

end Target

end RestScaffold
