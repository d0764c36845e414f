import RestScaffold.Proofs.Bindings
import RestScaffold.Proofs.Literals

/-! # Mapping annotations

An endpoint is mapped by an annotation that has the path between quotes. The path stands there as it
is, while constants of enum classes are written as literals with escapes.

* `Carries`, `CarriesPath`: what the first literal of an annotation reads as, and what follows it;
* `Endpoint.mappingRead_of_ofMethod`: the annotation carries the path of an endpoint if and only if
  the path needs no escape;
* `not_forall_carriesPath`: there are endpoints whose path is not carried. -/

namespace RestScaffold.Target

open Contract (Method)
open Http (Verb requestMethods)

/-! ### Annotations -/

/-- The first literal of the annotation reads as the text, and the rest follows. -/
def Carries (source text rest : List Char) : Prop :=
  ∃ front argument, source = front ++ '"' :: argument ∧ '"' ∉ front ∧
    readLiteral argument = some (text, rest)

/-- What follows the path in an annotation: the parenthesis that closes it, with the request method
before it if the verb has no mapping of its own. -/
def Follows (rest : List Char) : Verb → Prop
  | .custom _ => ∃ name ∈ requestMethods, rest = (", method = RequestMethod." ++ name ++ ")").toList
  | _ => rest = [')']

/-- The annotation of the endpoint carries the path that it is mapped to. -/
def CarriesPath (e : Endpoint) : Prop :=
  ∃ rest, Carries e.mapping.toList (PathTemplate.mapping e.path).toList rest ∧ Follows rest e.verb

theorem carries_append_iff {front argument text rest : List Char} (h : '"' ∉ front) :
    Carries (front ++ '"' :: argument) text rest ↔ readLiteral argument = some (text, rest) := by
  constructor
  · rintro ⟨front', argument', hcut, hfront', hread⟩
    obtain ⟨-, rfl⟩ := cut_unique hcut h hfront'
    exact hread
  · exact fun hread => ⟨front, argument, rfl, h, hread⟩

/-- The annotation for any path has this before and behind the path, which stands in quotes. -/
structure Surrounds (verb : Verb) (front rest : List Char) : Prop where
  text : ∀ path : String, (verb.mapping path).toList = front ++ '"' :: (path.toList ++ '"' :: rest)
  front_unquoted : '"' ∉ front
  rest_unquoted : '"' ∉ rest
  follows : Follows rest verb

theorem surrounds_of_eq {verb : Verb} {opening closing : String} {front rest : List Char}
    (htext : ∀ path, verb.mapping path = opening ++ path ++ closing)
    (hopening : opening.toList = front ++ ['"']) (hclosing : closing.toList = '"' :: rest)
    (hfront : '"' ∉ front) (hrest : '"' ∉ rest) (hfollows : Follows rest verb) :
    Surrounds verb front rest where
  text := fun path => by
    rw [htext, String.toList_append, String.toList_append, hopening, hclosing]
    simp
  front_unquoted := hfront
  rest_unquoted := hrest
  follows := hfollows

theorem mapping_custom (kind path : String) : (Verb.custom kind).mapping path =
    "@RequestMapping(value = \"" ++ path ++
      ("\", method = RequestMethod." ++ Text.upper kind ++ ")") := by
  unfold Verb.mapping
  dsimp only
  simp only [String.append_assoc]

theorem unquoted_of_mem_requestMethods {name : String} (h : name ∈ requestMethods) :
    '"' ∉ name.toList := by
  revert name
  decide

theorem exists_surrounds {verb : Verb} (h : verb.isSupported = true) :
    ∃ front rest, Surrounds verb front rest := by
  cases verb with
  | get =>
      exact ⟨"@GetMapping(".toList, [')'],
        surrounds_of_eq (fun _ => rfl) (by decide) (by decide) (by decide) (by decide) rfl⟩
  | put =>
      exact ⟨"@PutMapping(".toList, [')'],
        surrounds_of_eq (fun _ => rfl) (by decide) (by decide) (by decide) (by decide) rfl⟩
  | post =>
      exact ⟨"@PostMapping(".toList, [')'],
        surrounds_of_eq (fun _ => rfl) (by decide) (by decide) (by decide) (by decide) rfl⟩
  | delete =>
      exact ⟨"@DeleteMapping(".toList, [')'],
        surrounds_of_eq (fun _ => rfl) (by decide) (by decide) (by decide) (by decide) rfl⟩
  | patch =>
      exact ⟨"@PatchMapping(".toList, [')'],
        surrounds_of_eq (fun _ => rfl) (by decide) (by decide) (by decide) (by decide) rfl⟩
  | custom kind =>
      have hname : Text.upper kind ∈ requestMethods := by simpa [Verb.isSupported] using h
      have hrest : '"' ∉ (", method = RequestMethod." ++ Text.upper kind ++ ")").toList := by
        have hunquoted := unquoted_of_mem_requestMethods hname
        simp [hunquoted]
      exact ⟨"@RequestMapping(value = ".toList,
        (", method = RequestMethod." ++ Text.upper kind ++ ")").toList,
        surrounds_of_eq (mapping_custom kind) (by decide) (by simp) (by decide) hrest ⟨_, hname, rfl⟩⟩

/-! ### Endpoints -/

/-- What the annotation of an endpoint reads as. -/
structure MappingRead (e : Endpoint) : Prop where
  carried : CarriesPath e ↔ ∀ c ∈ (PathTemplate.mapping e.path).toList, StandsForItself c
  /-- The path stands between two quotes. With the literal of the path in this place, the
  annotation would carry every path. -/
  quoted : ∃ front rest,
    e.mapping.toList = front ++ '"' :: ((PathTemplate.mapping e.path).toList ++ '"' :: rest) ∧
      Follows rest e.verb ∧
      Carries (front ++ (quote (PathTemplate.mapping e.path)).toList ++ rest)
        (PathTemplate.mapping e.path).toList rest

theorem Surrounds.carries_iff {verb : Verb} {front rest : List Char} (h : Surrounds verb front rest)
    (path : String) {rest' : List Char} : Carries (verb.mapping path).toList path.toList rest' ↔
      rest' = rest ∧ ∀ c ∈ path.toList, StandsForItself c := by
  rw [h.text, carries_append_iff h.front_unquoted, readLiteral_verbatim_iff h.rest_unquoted]

theorem Surrounds.mappingRead {e : Endpoint} {front rest : List Char}
    (h : Surrounds e.verb front rest) : MappingRead e where
  carried := by
    unfold CarriesPath Endpoint.mapping
    simp only [h.carries_iff]
    constructor
    · rintro ⟨_, ⟨-, hpath⟩, -⟩
      exact hpath
    · exact fun hpath => ⟨rest, ⟨rfl, hpath⟩, h.follows⟩
  quoted := by
    obtain ⟨argument, hargument, hread⟩ := readLiteral_quote (PathTemplate.mapping e.path) rest
    refine ⟨front, rest, h.text _, h.follows, front, argument, ?_, h.front_unquoted, hread⟩
    rw [List.append_assoc, hargument]

section

variable {m : Method} {e : Endpoint}

theorem Endpoint.verb_isSupported (h : Endpoint.ofMethod m = .ok e) :
    e.verb.isSupported = true := by
  obtain ⟨hverb, vars, path, body, reply, -, -, -, -, rfl⟩ := ofMethod_eq_ok_iff.mp h
  exact hverb

theorem Endpoint.path_eq (h : Endpoint.ofMethod m = .ok e) : e.path = (effectiveRule m).path := by
  obtain ⟨-, vars, path, body, reply, -, -, -, -, rfl⟩ := ofMethod_eq_ok_iff.mp h
  rfl

/-- **Paths that need no escape are carried.** The annotation of an endpoint carries the path that
it is mapped to if and only if the path has no quote, no backslash and no line break. -/
theorem Endpoint.mappingRead_of_ofMethod (h : Endpoint.ofMethod m = .ok e) : MappingRead e := by
  obtain ⟨front, rest, hsurrounds⟩ := exists_surrounds (verb_isSupported h)
  exact hsurrounds.mappingRead

end

/-- A method with a request method of its own. -/
def optionsMethod : Method where
  name := "Probe"
  fullName := "shelves.Shelves.Probe"
  input := {
    name := "ProbeRequest"
    fullName := "shelves.ProbeRequest"
    file := "shelves.proto"
    package := "shelves.dto"
    fields := [⟨"shelf", .scalar .string, .single, false, ""⟩] }
  output := {
    name := "Shelf"
    fullName := "shelves.Shelf"
    file := "shelves.proto"
    package := "shelves.dto" }
  rule := some { pattern := some ⟨.custom "options", "/v1/\x7bshelf=a\"b\\c\x7d:probe"⟩ }

/-- The pattern of the group is dropped, and with it what needs an escape. -/
theorem mappingRead_optionsMethod : ∃ e, Endpoint.ofMethod optionsMethod = .ok e ∧ MappingRead e ∧
    CarriesPath e := by
  obtain ⟨e, he⟩ := exists_ok_of_isOk (x := Endpoint.ofMethod optionsMethod) (by decide +kernel)
  have hread := Endpoint.mappingRead_of_ofMethod he
  have hmapped : PathTemplate.mapping e.path = "/v1/{shelf}:probe" := by
    rw [Endpoint.path_eq he]
    decide +kernel
  have hplain : "/v1/{shelf}:probe".toList.all (fun c => decide (StandsForItself c)) = true := by
    decide
  refine ⟨e, he, hread, hread.carried.mpr fun c hc => ?_⟩
  rw [hmapped] at hc
  exact of_decide_eq_true (List.all_eq_true.mp hplain c hc)

/-- A method whose path has quotes. -/
def quotedMethod : Method where
  name := "ListAll"
  fullName := "shelves.Shelves.ListAll"
  input := {
    name := "ListRequest"
    fullName := "shelves.ListRequest"
    file := "shelves.proto"
    package := "shelves.dto" }
  output := {
    name := "Shelf"
    fullName := "shelves.Shelf"
    file := "shelves.proto"
    package := "shelves.dto" }
  rule := some { pattern := some ⟨.get, "/v1/\"all\""⟩ }

/-- Not every annotation carries the path of its endpoint. -/
theorem not_forall_carriesPath :
    ¬ ∀ (m : Method) (e : Endpoint), Endpoint.ofMethod m = .ok e → CarriesPath e := by
  intro hall
  obtain ⟨e, he⟩ := exists_ok_of_isOk (x := Endpoint.ofMethod quotedMethod) (by decide +kernel)
  obtain ⟨front, rest, hsurrounds⟩ := exists_surrounds (Endpoint.verb_isSupported he)
  have hcarried := hsurrounds.mappingRead.carried.mp (hall quotedMethod e he)
  have hmapped : PathTemplate.mapping e.path = "/v1/\"all\"" := by
    rw [Endpoint.path_eq he]
    decide +kernel
  rw [hmapped] at hcarried
  exact absurd (hcarried '"' (by decide)) (by decide)

end RestScaffold.Target
