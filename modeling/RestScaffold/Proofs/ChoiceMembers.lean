import RestScaffold.Proofs.BeanLines
import RestScaffold.Proofs.WalkedMessages

/-! # Members of choices

A choice of a message has the fields that name it by its place, and a choice without such fields
is left out.

* `placesOf`, `Ascending`: the places of the elements of a list that have a property;
* `ByIndex.forall₂_placesOf`: lists that go in step still do when both are filtered;
* `MemberOf`: a field names the place of a choice;
* `ChoicesOf`, `choicesOf_contractChoices`: the choices of a message and those that are declared;
* `TestsDeclared`, `testsDeclared_ofMessage`: the getter of the case in the rendered bean;
* `HasChoices`, `hasChoices_of_contractFiles`: the choices of all messages of a run. -/

namespace RestScaffold

/-! ### Places -/

section

variable {α β : Type}

/-- The places of the elements with a property, which may depend on the place. -/
def placesOf (q : Nat → α → Bool) (as : List α) : List Nat :=
  (as.zipIdx.filter fun p => q p.2 p.1).map (·.2)

/-- The numbers with a property, each once and in ascending order. -/
structure Ascending (p : Nat → Prop) (ns : List Nat) : Prop where
  sorted : ns.Pairwise (· < ·)
  all : ∀ n, n ∈ ns ↔ p n

theorem ascending_placesOf (q : Nat → α → Bool) (as : List α) :
    Ascending (fun i => ∃ a, as[i]? = some a ∧ q i a = true) (placesOf q as) where
  sorted := by
    have hall : (as.zipIdx.map (·.2)).Pairwise (· < ·) := by
      rw [List.zipIdx_map_snd]
      exact List.pairwise_lt_range' 1
    exact hall.sublist (List.filter_sublist.map _)
  all := by
    intro i
    simp only [placesOf, List.mem_map, List.mem_filter, List.mem_zipIdx_iff_getElem?]
    constructor
    · rintro ⟨⟨a, j⟩, ⟨ha, hq⟩, rfl⟩
      exact ⟨a, ha, hq⟩
    · rintro ⟨a, ha, hq⟩
      exact ⟨(a, i), ⟨ha, hq⟩, rfl⟩

theorem ByIndex.forall₂_placesOf {R : Nat → α → β → Prop} {q : Nat → α → Bool} {g : β → Bool}
    (hg : ∀ i a b, R i a b → q i a = g b) {as : List α} {bs : List β} (h : ByIndex R as bs) :
    List.Forall₂ (fun i b => ∃ a, as[i]? = some a ∧ R i a b) (placesOf q as) (bs.filter g) := by
  have hkept : List.Forall₂ (fun p b => R p.2 p.1 b) (as.zipIdx.filter fun p => q p.2 p.1)
      (bs.filter g) :=
    List.rel_filter (fun p b hr => by simp [hg p.2 p.1 b hr]) h
  have hplaces : ∀ p ∈ as.zipIdx.filter fun p => q p.2 p.1, as[p.2]? = some p.1 :=
    fun p hp => List.mem_zipIdx_iff_getElem?.mp (List.mem_filter.mp hp).1
  rw [placesOf, List.forall₂_map_left_iff]
  refine ((List.forall₂_and_left _ _).mpr ⟨hplaces, hkept⟩).imp ?_
  intro p b hp
  exact ⟨p.1, hp.1, hp.2⟩

theorem byIndex_zip {as : List α} {bs : List β} (h : as.length = bs.length) :
    ByIndex (fun i a p => p.1 = a ∧ bs[i]? = some p.2) as (as.zip bs) := by
  refine List.forall₂_iff_get.mpr ⟨by simp [h], fun i hi hi' => ?_⟩
  simp

end

namespace Contract

open Target (Artifact Bean CaseEnum Property JavaType indentation indented)
open Text (splitAt)

/-! ### Members by index -/

/-- The field names the choice at the place, and not just to record that it may be absent. -/
def MemberOf (i : Nat) (f : Descriptor.Field) : Prop :=
  f.choiceIndex = some (Int32.ofNat i) ∧ f.optional = false

theorem inChoice_eq_true_iff {i : Nat} {f : Descriptor.Field} :
    inChoice i f = true ↔ MemberOf i f := by
  simp [inChoice, MemberOf]

/-- The choices of a message. `places` has the places of the declared ones that they are made of,
each with the places of its members. -/
structure ChoicesOf (declared : Descriptor.Message) (m : Message)
    (places : List (Nat × List Nat)) : Prop where
  /-- The declared choices with members, in order. -/
  positions : Ascending (fun i => i < declared.choices.length ∧
    ∃ f ∈ declared.fields, MemberOf i f) (places.map (·.1))
  /-- The members of each, in order. -/
  members : ∀ p ∈ places,
    Ascending (fun j => ∃ f, declared.fields[j]? = some f ∧ MemberOf p.1 f) p.2
  /-- Each choice has the name that is declared, and the fields of the message at those places. -/
  choices : List.Forall₂ (fun p c => declared.choices[p.1]? = some c.name ∧
    List.Forall₂ (fun j field => m.fields[j]? = some field) p.2 c.fields) places m.choices

/-- The places of the members of a choice. -/
def memberPlaces (declared : Descriptor.Message) (i : Nat) : List Nat :=
  placesOf (fun _ => inChoice i) declared.fields

/-- The places of the choices of a message that have members, with those of the members. -/
def choicePlaces (declared : Descriptor.Message) : List (Nat × List Nat) :=
  (placesOf (fun i _ => memberPlaces declared i ≠ []) declared.choices).map fun i =>
    (i, memberPlaces declared i)

theorem ascending_memberPlaces (declared : Descriptor.Message) (i : Nat) :
    Ascending (fun j => ∃ f, declared.fields[j]? = some f ∧ MemberOf i f)
      (memberPlaces declared i) := by
  have hplaces := ascending_placesOf (fun _ => inChoice i) declared.fields
  simp only [inChoice_eq_true_iff] at hplaces
  exact hplaces

theorem memberPlaces_ne_nil_iff {declared : Descriptor.Message} {i : Nat} :
    memberPlaces declared i ≠ [] ↔ ∃ f ∈ declared.fields, MemberOf i f := by
  rw [← List.length_pos_iff, List.length_pos_iff_exists_mem]
  simp only [(ascending_memberPlaces declared i).all, List.mem_iff_getElem?]
  exact ⟨fun ⟨j, f, hf, hm⟩ => ⟨f, ⟨j, hf⟩, hm⟩, fun ⟨f, ⟨j, hf⟩, hm⟩ => ⟨j, f, hf, hm⟩⟩

theorem forall₂_memberPlaces {declared : Descriptor.Message} {fields : List Field}
    (h : declared.fields.length = fields.length) (i : Nat) :
    List.Forall₂ (fun j field => fields[j]? = some field) (memberPlaces declared i)
      (((declared.fields.zip fields).filter fun p => inChoice i p.1).map (·.2)) := by
  rw [List.forall₂_map_right_iff]
  refine ((byIndex_zip h).forall₂_placesOf fun j f p hp => by rw [hp.1]).imp ?_
  rintro j p ⟨f, hf, -, hfield⟩
  exact hfield

/-- The choices of a message are those that it declares with members. -/
theorem choicesOf_contractChoices {declared : Descriptor.Message} {m : Message}
    (h : declared.fields.length = m.fields.length)
    (hchoices : m.choices = contractChoices declared m.fields) :
    ChoicesOf declared m (choicePlaces declared) where
  positions := by
    have hplaces := ascending_placesOf (fun i _ => memberPlaces declared i ≠ []) declared.choices
    simp only [decide_eq_true_eq, memberPlaces_ne_nil_iff] at hplaces
    have hfirst : (choicePlaces declared).map (·.1) =
        placesOf (fun i _ => memberPlaces declared i ≠ []) declared.choices := by
      simp [choicePlaces, Function.comp_def]
    refine ⟨hfirst ▸ hplaces.sorted, fun i => ?_⟩
    rw [hfirst, hplaces.all, exists_and_right, ← Option.isSome_iff_exists]
    simp
  members := by
    intro p hp
    obtain ⟨i, -, rfl⟩ := List.mem_map.mp hp
    exact ascending_memberPlaces declared i
  choices := by
    rw [hchoices, contractChoices, choicePlaces, List.forall₂_map_left_iff]
    have hall := byIndex_mapIdx (R := fun i name c => c = (⟨name, ((declared.fields.zip
        m.fields).filter fun p => inChoice i p.1).map (·.2)⟩ : Choice))
      (fun i name => rfl) declared.choices
    refine (hall.forall₂_placesOf ?_).imp ?_
    · rintro i name c rfl
      have hlength := (forall₂_memberPlaces h i).length_eq
      rw [decide_eq_decide, ← List.length_pos_iff, ← List.length_pos_iff, hlength]
    · rintro i c ⟨name, hname, rfl⟩
      exact ⟨hname, forall₂_memberPlaces h i⟩

/-! ### What follows for the members -/

/-- The places of choices are numbers of 32 bits, as fields name them. -/
def Indexable (declared : Descriptor.Message) : Prop :=
  declared.choices.length ≤ 2 ^ 31

instance : DecidablePred Indexable :=
  fun declared => inferInstanceAs (Decidable (declared.choices.length ≤ 2 ^ 31))

/-- The field gives the place of a choice that is declared, and belongs to it. -/
def InRange (declared : Descriptor.Message) (f : Descriptor.Field) : Prop :=
  f.optional = false ∧ ∃ i < declared.choices.length, f.choiceIndex.map (·.toInt) = some (i : Int)

/-- The choices of a message share no members, and these are fields that give the place of a
choice. -/
structure ChoicesApart (declared : Descriptor.Message) (places : List (Nat × List Nat)) :
    Prop where
  once : (places.flatMap (·.2)).Nodup
  inRange : ∀ p ∈ places, ∀ j ∈ p.2, ∃ f, declared.fields[j]? = some f ∧ InRange declared f

section

variable {declared : Descriptor.Message} {m : Message} {places : List (Nat × List Nat)}

theorem MemberOf.toInt_eq {i : Nat} {f : Descriptor.Field} (h : MemberOf i f) (hi : i < 2 ^ 31) :
    f.choiceIndex.map (·.toInt) = some (i : Int) := by
  rw [h.1, Option.map_some, Int32.toInt_ofNat_of_lt hi]

theorem MemberOf.unique {i j : Nat} {f : Descriptor.Field} (hi : MemberOf i f) (hj : MemberOf j f)
    (hil : i < 2 ^ 31) (hjl : j < 2 ^ 31) : i = j := by
  have hint := (hi.toInt_eq hil).symm.trans (hj.toInt_eq hjl)
  exact Int.ofNat_inj.mp (Option.some.inj hint)

theorem ChoicesOf.lt_of_mem (h : ChoicesOf declared m places) {p : Nat × List Nat}
    (hp : p ∈ places) : p.1 < declared.choices.length :=
  ((h.positions.all p.1).mp (List.mem_map_of_mem hp)).1

theorem ChoicesOf.apart (h : ChoicesOf declared m places) (hi : Indexable declared) :
    ChoicesApart declared places where
  once := by
    refine List.nodup_flatMap.mpr ⟨fun p hp => (h.members p hp).sorted.imp Nat.ne_of_lt, ?_⟩
    refine (List.pairwise_map.mp h.positions.sorted).imp_of_mem ?_
    intro p p' hp hp' hlt j hj hj'
    obtain ⟨f, hf, hmember⟩ := ((h.members p hp).all j).mp hj
    obtain ⟨f', hf', hmember'⟩ := ((h.members p' hp').all j).mp hj'
    obtain rfl := Option.some.inj (hf.symm.trans hf')
    have hsame := hmember.unique hmember' ((h.lt_of_mem hp).trans_le hi)
      ((h.lt_of_mem hp').trans_le hi)
    omega
  inRange := by
    intro p hp j hj
    obtain ⟨f, hf, hmember⟩ := ((h.members p hp).all j).mp hj
    have hlt := h.lt_of_mem hp
    exact ⟨f, hf, hmember.2, p.1, hlt, hmember.toInt_eq (hlt.trans_le hi)⟩

end

/-! ### The getter of the case -/

/-- The rendered bean of a message has an enum with a case for each field of the choice, and a
getter that tests a private field for each case, in the order of the cases. -/
structure TestsDeclared (m : Message) (c : Choice) : Prop where
  cases : (CaseEnum.ofChoice c).cases.length = c.fields.length
  enum : [indentation 1 ++ ("public enum " ++ (CaseEnum.ofChoice c).enumName ++ " \x7b")] ++
      ((CaseEnum.ofChoice c).cases.flatMap fun case => indented 2 (case ++ ",")) ++
        [indentation 2 ++ "UNSPECIFIED", indentation 1 ++ "\x7d"] <:+:
    splitAt '\n' (Artifact.bean (.ofMessage m)).text
  getter : [indentation 1 ++ ("public " ++ (CaseEnum.ofChoice c).enumName ++ " " ++
        (CaseEnum.ofChoice c).getter ++ "() \x7b")] ++
      ((c.fields.zip (CaseEnum.ofChoice c).cases).flatMap fun p =>
        (CaseEnum.ofChoice c).testLines p.1 p.2) ++
        [indentation 2 ++ ("return " ++ (CaseEnum.ofChoice c).enumName ++ ".UNSPECIFIED;"),
         indentation 1 ++ "\x7d"] <:+:
    splitAt '\n' (Artifact.bean (.ofMessage m)).text
  /-- The private field that is tested is declared. -/
  declared : ∀ f ∈ c.fields, indented 1 ("private " ++ (JavaType.ofField f).text ++ " " ++
      Naming.memberName f.name ++ ";") <:+:
    splitAt '\n' (Artifact.bean (.ofMessage m)).text

theorem infix_text_of_mem_fields {m : Message} {f : Field} (hf : f ∈ m.fields) :
    indented 1 ("private " ++ (JavaType.ofField f).text ++ " " ++ Naming.memberName f.name ++
      ";") <:+: splitAt '\n' (Artifact.bean (.ofMessage m)).text := by
  have hmem : Target.fieldBlock f.comment f.required (JavaType.ofField f).text
      (Naming.memberName f.name) ∈ (Bean.ofMessage m).blocks := by
    refine List.mem_append_left _ (List.mem_append_left _ ?_)
    exact List.mem_map.mpr ⟨.ofField f, List.mem_map_of_mem hf, rfl⟩
  have hlast : (1, "private " ++ (JavaType.ofField f).text ++ " " ++ Naming.memberName f.name ++
      ";") ∈ Target.fieldBlock f.comment f.required (JavaType.ofField f).text
        (Naming.memberName f.name) :=
    List.mem_map_of_mem (List.mem_append_right _ (List.mem_singleton_self _))
  have hlines := Target.infix_linesOf hlast
  exact hlines.trans (Target.linesOf_infix_text hmem)

theorem mem_blocks_of_mem_choices {m : Message} {c : Choice} (hc : c ∈ m.choices)
    {block : List (Nat × String)}
    (h : block ∈ [Target.enumBlock (CaseEnum.ofChoice c).enumName (CaseEnum.ofChoice c).cases,
      Target.caseBlock (CaseEnum.ofChoice c).enumName (CaseEnum.ofChoice c).getter
        ((CaseEnum.ofChoice c).properties.map fun p => (p.name, p.constant))]) :
    block ∈ (Bean.ofMessage m).blocks := by
  refine List.mem_append_left _ (List.mem_append_right _ ?_)
  exact List.mem_flatMap.mpr ⟨.ofChoice c, List.mem_map_of_mem hc, h⟩

theorem testsDeclared_ofMessage {m : Message} {c : Choice} (hc : c ∈ m.choices)
    (hown : ∀ f ∈ c.fields, f ∈ m.fields) : TestsDeclared m c where
  cases := by simp [CaseEnum.cases, CaseEnum.ofChoice]
  enum := by
    rw [← Target.linesOf_enumBlock_ofChoice]
    exact Target.linesOf_infix_text (mem_blocks_of_mem_choices hc List.mem_cons_self)
  getter := by
    have hcases : (CaseEnum.ofChoice c).cases = c.fields.map fun f => Text.upper f.name := by
      simp [CaseEnum.cases, CaseEnum.ofChoice, Property.ofField]
    have hzip : c.fields.zip (CaseEnum.ofChoice c).cases =
        c.fields.map fun f => (f, Text.upper f.name) := by
      rw [hcases, ← List.zip_map', List.map_id']
    rw [hzip, List.flatMap_map, ← Target.linesOf_caseBlock_ofChoice]
    refine Target.linesOf_infix_text (mem_blocks_of_mem_choices hc ?_)
    exact List.mem_cons_of_mem _ List.mem_cons_self
  declared := fun f hf => infix_text_of_mem_fields (hown f hf)

/-! ### The messages of a run -/

/-- The choices of a message, the fields that are in them, and what its bean makes of them. -/
structure HasChoices (declared : Descriptor.Message) (m : Message) : Prop where
  /-- The fields of the message are the declared ones, in order. -/
  fields : m.fields.map (·.name) = declared.fields.map (·.name)
  choices : ∃ places, ChoicesOf declared m places ∧
    (Indexable declared → ChoicesApart declared places)
  own : ∀ c ∈ m.choices, ∀ f ∈ c.fields, f ∈ m.fields
  tests : ∀ c ∈ m.choices, TestsDeclared m c

theorem hasChoices_of_contractMessage {registry : Registry} {s : SourceFile} {d : DeclaredMessage}
    {m : Message} (h : (contractMessage registry s d).result = .ok m) :
    HasChoices d.descriptor m := by
  obtain ⟨fields, hfields, rfl⟩ := contractMessage_eq_ok_iff.mp h
  have hnames : List.Forall₂ (fun (f : Descriptor.Field) (field : Field) => f.name = field.name)
      d.descriptor.fields fields := by
    refine ByIndex.forall₂ (fun j f field hf => ?_) hfields
    obtain ⟨kind, cardinality, -, -, rfl⟩ := contractField_eq_ok_iff.mp hf
    rfl
  have hchoices : ChoicesOf d.descriptor (resolvedMessage s d fields)
      (choicePlaces d.descriptor) :=
    choicesOf_contractChoices hnames.length_eq rfl
  have hown : ∀ c ∈ contractChoices d.descriptor fields, ∀ f ∈ c.fields, f ∈ fields :=
    fun c hc => mem_of_mem_contractChoices hc
  exact ⟨(map_eq_map_of_forall₂ hnames).symm, ⟨_, hchoices, hchoices.apart⟩, hown,
    fun c hc => testsDeclared_ofMessage hc (hown c hc)⟩

/-- **Members of choices.** The choices of every message are those that it declares with a field
that names their place, in order, and each has just those fields, in order. -/
theorem hasChoices_of_contractFiles {options : Options} {request : Descriptor.Request}
    {annotations : Annotated.Request} {files : List File}
    (h : (contractFiles options request annotations).result = .ok files) :
    EveryMessage options request annotations HasChoices files :=
  everyMessage_of_contractFiles (fun _ _ _ => hasChoices_of_contractMessage) h

/-- A message with fields of two choices in turn. Of the other two choices one only records that a
field may be absent, and one has no fields. Two fields name places at which there is no choice. -/
def lampRequest : Descriptor.Request where
  listed := ["lamp.proto"]
  files := [{
    name? := some "lamp.proto"
    package := "light"
    messages := [{
      name := "Lamp"
      choices := ["_label", "power", "spare", "shade"]
      fields :=
        [{ name := "watts", number := 1, type := some 5, choiceIndex := some 1 },
         { name := "paper", number := 2, type := some 9, choiceIndex := some 3 },
         { name := "label", number := 3, type := some 9, choiceIndex := some 0, optional := true },
         { name := "volts", number := 4, type := some 5, choiceIndex := some 1 },
         { name := "glass", number := 5, type := some 9, choiceIndex := some 3 },
         { name := "cable", number := 6, type := some 9, choiceIndex := some 4 },
         { name := "plug", number := 7, type := some 9, choiceIndex := some (-1) },
         { name := "height", number := 8, type := some 5 }] }] }]

theorem hasChoices_lampRequest : ∃ files, (contractFiles {} lampRequest {}).result = .ok files ∧
    files.map (fun file => file.messages.map fun m => m.choices.map fun c =>
      (c.name, c.fields.map (·.name))) =
        [[[("power", ["watts", "volts"]), ("shade", ["paper", "glass"])]]] ∧
    (∀ file ∈ lampRequest.files, ∀ m ∈ file.messages, Indexable m) ∧
      EveryMessage {} lampRequest {} HasChoices files := by
  have hnames : (contractFiles {} lampRequest {}).result.toOption.map (fun files =>
      files.map fun file => file.messages.map fun m => m.choices.map fun c =>
        (c.name, c.fields.map (·.name))) =
      some [[[("power", ["watts", "volts"]), ("shade", ["paper", "glass"])]]] := by
    decide +kernel
  obtain ⟨files, h⟩ : ∃ files, (contractFiles {} lampRequest {}).result = .ok files :=
    exists_ok_of_isOk (by decide +kernel)
  rw [h] at hnames
  exact ⟨files, h, Option.some.inj hnames, by decide +kernel, hasChoices_of_contractFiles h⟩

end Contract

end RestScaffold
