import RestScaffold.Proofs.FullNames
import RestScaffold.Proofs.Resolved
import RestScaffold.Target.Type

/-! # References

From the name that a field is declared with to the declarations that its Java type mentions.

* `kindOf_of_messageType` and those beside it: the kind of a field by its type number;
* `kindOf_of_isReference`, `kindOf_of_not_isReference`: when a name is resolved for a kind;
* `typeRefOf_eq_ok_iff`, `typeRef?_of_kindOf`, `cardinalityOf_eq_ok_iff`: what resolution makes of a
  field;
* `JavaType.refs`: the declarations that a type mentions;
* `mentionedFields`, `exists_typeRefOf_of_mem_refs`: the fields by which the type of a field
  mentions them: the field itself or, for a map, the two fields of the entry. -/

namespace RestScaffold

/-- Is the field of a type that refers to a declaration? -/
def Descriptor.Field.isReference (f : Descriptor.Field) : Bool :=
  f.type = some Contract.messageType || f.type = some Contract.enumType

namespace Contract

variable {registry : Registry} {referrer : String} {f : Descriptor.Field}

/-! ### Kinds -/

theorem typeRefOf_eq_ok_iff {t : TypeRef} : typeRefOf registry referrer f = .ok t ↔
    ∃ e, registry.resolve? f.typeName = some e ∧
      t = ⟨e.name, referredName f.typeName, e.package⟩ := by
  unfold typeRefOf
  cases registry.resolve? f.typeName with
  | none => simp
  | some e => simp [@eq_comm _ t]

theorem kindOf_of_type_eq_none (h : f.type = none) :
    (kindOf registry referrer f).result = .ok (.unknown 0) := by
  unfold kindOf
  rw [h]
  rfl

theorem kindOf_of_scalarOf? {number : Int32} {s : Scalar} (h : f.type = some number)
    (hs : scalarOf? number = some s) : (kindOf registry referrer f).result = .ok (.scalar s) := by
  unfold kindOf
  simp only [h, hs]
  rfl

theorem kindOf_of_messageType (h : f.type = some messageType) :
    (kindOf registry referrer f).result = Kind.message <$> typeRefOf registry referrer f := by
  have hs : scalarOf? messageType = none := by decide
  unfold kindOf
  simp only [h, hs, ↓reduceIte, Run.result_map, Run.result_ofExcept]

theorem kindOf_of_enumType (h : f.type = some enumType) :
    (kindOf registry referrer f).result = Kind.enumeration <$> typeRefOf registry referrer f := by
  have hs : scalarOf? enumType = none := by decide
  have hne : enumType ≠ messageType := by decide
  unfold kindOf
  simp only [h, hs, if_neg hne, ↓reduceIte, Run.result_map, Run.result_ofExcept]

theorem kindOf_of_scalarOf?_eq_none {number : Int32} (h : f.type = some number)
    (hs : scalarOf? number = none) (hm : number ≠ messageType) (he : number ≠ enumType) :
    (kindOf registry referrer f).result = .ok (.unknown number) := by
  unfold kindOf
  simp only [h, hs, if_neg hm, if_neg he]
  rfl

theorem kindOf_of_isReference (h : f.isReference = true) : ∃ ofRef : TypeRef → Kind,
    (∀ t, (ofRef t).typeRef? = some t) ∧ ∀ registry referrer,
      (kindOf registry referrer f).result = ofRef <$> typeRefOf registry referrer f := by
  unfold Descriptor.Field.isReference at h
  rcases (Bool.or_eq_true _ _).mp h with hm | he
  · exact ⟨.message, fun _ => rfl, fun _ _ => kindOf_of_messageType (of_decide_eq_true hm)⟩
  · exact ⟨.enumeration, fun _ => rfl, fun _ _ => kindOf_of_enumType (of_decide_eq_true he)⟩

theorem kindOf_of_not_isReference (h : f.isReference = false) : ∃ kind : Kind,
    kind.typeRef? = none ∧ ∀ registry referrer, (kindOf registry referrer f).result = .ok kind := by
  unfold Descriptor.Field.isReference at h
  obtain ⟨hm, he⟩ := (Bool.or_eq_false_iff).mp h
  have hm := of_decide_eq_false hm
  have he := of_decide_eq_false he
  cases hf : f.type with
  | none => exact ⟨.unknown 0, rfl, fun _ _ => kindOf_of_type_eq_none hf⟩
  | some number =>
      cases hs : scalarOf? number with
      | some s => exact ⟨.scalar s, rfl, fun _ _ => kindOf_of_scalarOf? hf hs⟩
      | none =>
          have hnm : number ≠ messageType := fun heq => hm (heq ▸ hf)
          have hne : number ≠ enumType := fun heq => he (heq ▸ hf)
          exact ⟨.unknown number, rfl, fun _ _ => kindOf_of_scalarOf?_eq_none hf hs hnm hne⟩

theorem isSome_typeRef?_of_kindOf {kind : Kind}
    (h : (kindOf registry referrer f).result = .ok kind) :
    kind.typeRef?.isSome = f.isReference := by
  cases hf : f.isReference with
  | false =>
      obtain ⟨plain, hplain, hok⟩ := kindOf_of_not_isReference hf
      obtain rfl := Except.ok.inj ((hok registry referrer).symm.trans h)
      rw [hplain]
      rfl
  | true =>
      obtain ⟨ofRef, href, hok⟩ := kindOf_of_isReference hf
      rw [hok, map_eq_ok_iff] at h
      obtain ⟨t, -, rfl⟩ := h
      rw [href]
      rfl

/-- A kind that refers to a declaration comes from the name that the field is declared with. -/
theorem typeRef?_of_kindOf {kind : Kind} {t : TypeRef}
    (h : (kindOf registry referrer f).result = .ok kind) (ht : kind.typeRef? = some t) :
    typeRefOf registry referrer f = .ok t := by
  have hf : f.isReference = true := by
    rw [← isSome_typeRef?_of_kindOf h, ht]
    rfl
  obtain ⟨ofRef, href, hok⟩ := kindOf_of_isReference hf
  rw [hok, map_eq_ok_iff] at h
  obtain ⟨found, hfound, rfl⟩ := h
  rw [hfound, ← Option.some.inj ((href found).symm.trans ht)]

/-! ### Cardinalities -/

/-- The entry of a map field: a repeated field whose declaration is a map entry. -/
def mapEntryOf (registry : Registry) (f : Descriptor.Field) : Option MapEntry :=
  if f.label = repeatedLabel then (registry.resolve? f.typeName).bind (·.entry) else none

theorem cardinalityOf_eq_ok_iff {c : Cardinality} :
    (cardinalityOf registry referrer f).result = .ok c ↔
      (mapEntryOf registry f = none ∧
        c = if f.label = repeatedLabel then .list else .single) ∨
      ∃ entry key value, mapEntryOf registry f = some entry ∧
        (kindOf registry referrer entry.key).result = .ok key ∧
        (kindOf registry referrer entry.value).result = .ok value ∧ c = .map key value := by
  unfold cardinalityOf mapEntryOf
  by_cases hl : f.label = repeatedLabel
  · simp only [if_pos hl]
    cases (registry.resolve? f.typeName).bind (·.entry) with
    | none => simp [@eq_comm _ c]
    | some entry =>
        simp only [Run.result_bind, Run.result_pure, bind_eq_ok_iff, Except.ok.injEq, reduceCtorEq,
          false_and, false_or, Option.some.injEq]
        constructor
        · rintro ⟨key, hk, value, hv, rfl⟩
          exact ⟨entry, key, value, rfl, hk, hv, rfl⟩
        · rintro ⟨_, key, value, rfl, hk, hv, rfl⟩
          exact ⟨key, hk, value, hv, rfl⟩
  · simp [if_neg hl, @eq_comm _ c]

/-- The fields by which the type of a field mentions declarations. -/
def mentionedFields (registry : Registry) (f : Descriptor.Field) : List Descriptor.Field :=
  match mapEntryOf registry f with
  | some entry => [entry.key, entry.value]
  | none => [f]

end Contract

open Contract Target

/-! ### Types -/

/-- The declarations that a type mentions. -/
def Target.JavaType.refs : JavaType → List TypeRef
  | .builtin _ => []
  | .byteString => []
  | .declared t => [t]
  | .list element => element.refs
  | .map key value => key.refs ++ value.refs

theorem mem_refs_ofKind {kind : Kind} {t : TypeRef} :
    t ∈ (JavaType.ofKind kind).refs ↔ kind.typeRef? = some t := by
  cases kind with
  | scalar s => cases s <;> simp [JavaType.ofKind, JavaType.ofScalar, JavaType.refs, Kind.typeRef?]
  | message r => simp [JavaType.ofKind, JavaType.refs, Kind.typeRef?, @eq_comm _ t]
  | enumeration r => simp [JavaType.ofKind, JavaType.refs, Kind.typeRef?, @eq_comm _ t]
  | unknown number => simp [JavaType.ofKind, JavaType.refs, Kind.typeRef?]

/-- What the type of a resolved field mentions was resolved from the field, or from key or value
of its map entry. -/
theorem exists_typeRefOf_of_mem_refs {registry : Registry} {s : SourceFile} {d : DeclaredMessage}
    {j : Nat} {f : Descriptor.Field} {field : Field} {t : TypeRef}
    (h : (contractField registry s d j f).result = .ok field)
    (ht : t ∈ (JavaType.ofField field).refs) :
    ∃ g ∈ mentionedFields registry f, typeRefOf registry d.fullName g = .ok t := by
  obtain ⟨kind, cardinality, hkind, hcard, rfl⟩ := contractField_eq_ok_iff.mp h
  rcases cardinalityOf_eq_ok_iff.mp hcard with
    ⟨hentry, rfl⟩ | ⟨entry, key, value, hentry, hk, hv, rfl⟩
  · have hmem : t ∈ (JavaType.ofKind kind).refs := by
      by_cases hl : f.label = repeatedLabel
      · simpa [JavaType.ofField, resolvedField, hl, JavaType.refs] using ht
      · simpa [JavaType.ofField, resolvedField, hl] using ht
    refine ⟨f, ?_, typeRef?_of_kindOf hkind (mem_refs_ofKind.mp hmem)⟩
    rw [mentionedFields, hentry]
    exact List.mem_singleton_self f
  · rw [mentionedFields, hentry]
    rcases List.mem_append.mp ht with hmem | hmem
    · exact ⟨entry.key, by simp, typeRef?_of_kindOf hk (mem_refs_ofKind.mp hmem)⟩
    · exact ⟨entry.value, by simp, typeRef?_of_kindOf hv (mem_refs_ofKind.mp hmem)⟩

end RestScaffold
