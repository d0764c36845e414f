import RestScaffold.Proofs.Sequencing

/-! # First faults

A computation that looks at items one after the other ends in the fault of the first bad one.

* `IsFirst`, `IsLast`: the first element of a list with a property, and the last one;
* `mapM_eq_error_iff`: the fault of the first step of many that fails;
* `StopsAtFirst`: a computation ends in the fault of the first bad item, or goes through;
* `StopsAtFirst.bind`, `StopsAtFirst.mapM`: so does a sequence of such steps;
* `StopsAtFirst.fails_iff`, `StopsAtFirst.succeeds_iff`: when it fails, and when it does not;
* `StopsAtFirst.eq_error_iff`: the fault with which it fails. -/

namespace RestScaffold

variable {ι ε α β : Type}

/-- The element is the first of the list with the property. -/
def IsFirst (p : ι → Prop) (items : List ι) (item : ι) : Prop :=
  ∃ before after, items = before ++ item :: after ∧ (∀ i ∈ before, ¬ p i) ∧ p item

theorem isFirst_nil {p : ι → Prop} {item : ι} : ¬ IsFirst p [] item := by
  rintro ⟨before, after, h, -, -⟩
  simp at h

theorem isFirst_cons {p : ι → Prop} {items : List ι} {first item : ι} :
    IsFirst p (first :: items) item ↔
      (item = first ∧ p first) ∨ (¬ p first ∧ IsFirst p items item) := by
  constructor
  · rintro ⟨before, after, h, hbefore, hp⟩
    cases before with
    | nil =>
        obtain ⟨rfl, rfl⟩ := List.cons.inj h
        exact .inl ⟨rfl, hp⟩
    | cons b before =>
        obtain ⟨rfl, rfl⟩ := List.cons.inj h
        obtain ⟨hfirst, hbefore⟩ := List.forall_mem_cons.mp hbefore
        exact .inr ⟨hfirst, before, after, rfl, hbefore, hp⟩
  · rintro (⟨rfl, hp⟩ | ⟨hfirst, before, after, rfl, hbefore, hp⟩)
    · exact ⟨[], items, rfl, by simp, hp⟩
    · exact ⟨first :: before, after, rfl, List.forall_mem_cons.mpr ⟨hfirst, hbefore⟩, hp⟩

theorem mapM_eq_error_iff {f : ι → Except ε α} {items : List ι} {e : ε} :
    items.mapM f = .error e ↔
      ∃ item, IsFirst (fun i => ∃ e, f i = .error e) items item ∧ f item = .error e := by
  induction items with
  | nil => simp [isFirst_nil, pure, Except.pure]
  | cons first items ih =>
      simp only [List.mapM_cons, isFirst_cons]
      cases hfirst : f first with
      | error e' => simp [hfirst, bind, Except.bind]
      | ok a =>
          have hrest : (Except.ok a >>= fun b => items.mapM f >>= fun bs => pure (b :: bs)) =
              .error e ↔ items.mapM f = .error e := by
            cases items.mapM f <;> simp [bind, Except.bind, pure, Except.pure]
          rw [hrest, ih]
          simp

/-- The element is the last of the list with the property. -/
def IsLast (p : ι → Prop) (items : List ι) (item : ι) : Prop :=
  ∃ before after, items = before ++ item :: after ∧ p item ∧ ∀ i ∈ after, ¬ p i

section

variable {p : ι → Prop} {item : ι} {items : List ι}

theorem isLast_nil : ¬ IsLast p [] item := by
  rintro ⟨before, after, h, -, -⟩
  simp at h

theorem isLast_cons {first : ι} : IsLast p (first :: items) item ↔
    IsLast p items item ∨ (item = first ∧ p first ∧ ∀ i ∈ items, ¬ p i) := by
  constructor
  · rintro ⟨before, after, h, hp, hafter⟩
    cases before with
    | nil =>
        obtain ⟨rfl, rfl⟩ := List.cons.inj h
        exact .inr ⟨rfl, hp, hafter⟩
    | cons _ before => exact .inl ⟨before, after, (List.cons.inj h).2, hp, hafter⟩
  · rintro (⟨before, after, rfl, hp, hafter⟩ | ⟨rfl, hp, hafter⟩)
    · exact ⟨first :: before, after, rfl, hp, hafter⟩
    · exact ⟨[], items, rfl, hp, hafter⟩

theorem IsLast.unique {other : ι} (h : IsLast p items item) (h' : IsLast p items other) :
    item = other := by
  have hnone : ∀ {xs : List ι} {x : ι}, IsLast p xs x → ¬ ∀ i ∈ xs, ¬ p i := by
    rintro _ x ⟨before, after, rfl, hp, -⟩ hall
    exact hall x (by simp) hp
  induction items with
  | nil => exact absurd h isLast_nil
  | cons first items ih =>
      rcases isLast_cons.mp h with h | ⟨rfl, -, hlater⟩
      · rcases isLast_cons.mp h' with h' | ⟨-, -, hlater⟩
        · exact ih h h'
        · exact absurd hlater (hnone h)
      · rcases isLast_cons.mp h' with h' | ⟨rfl, -, -⟩
        · exact absurd hlater (hnone h')
        · rfl

theorem exists_isLast (h : ∃ i ∈ items, p i) : ∃ item, IsLast p items item := by
  induction items with
  | nil => simp at h
  | cons first items ih =>
      by_cases hlater : ∃ i ∈ items, p i
      · obtain ⟨item, hitem⟩ := ih hlater
        exact ⟨item, isLast_cons.mpr (.inl hitem)⟩
      · have hfirst : p first := by
          obtain ⟨i, hi, hp⟩ := h
          rcases List.mem_cons.mp hi with rfl | hi
          · exact hp
          · exact absurd ⟨i, hi, hp⟩ hlater
        exact ⟨first, isLast_cons.mpr (.inr ⟨rfl, hfirst, fun i hi hp => hlater ⟨i, hi, hp⟩⟩)⟩

end

/-- The computation ends in the fault of the first bad item, or goes through if none is bad. -/
def StopsAtFirst (bad : ι → Bool) (fault : ι → ε) (items : List ι) (x : Except ε α) : Prop :=
  match items.find? bad with
  | some item => x = .error (fault item)
  | none => ∃ a, x = .ok a

section

variable {bad : ι → Bool} {fault : ι → ε} {items more : List ι}

theorem stopsAtFirst_ok (bad : ι → Bool) (fault : ι → ε) (a : α) :
    StopsAtFirst bad fault [] (.ok a) :=
  ⟨a, rfl⟩

theorem stopsAtFirst_of_bad {item : ι} (h : bad item = true) :
    StopsAtFirst bad fault [item] (.error (fault item) : Except ε α) := by
  unfold StopsAtFirst
  rw [List.find?_cons_of_pos h]

theorem stopsAtFirst_of_not_bad {item : ι} (h : ¬ bad item = true) (a : α) :
    StopsAtFirst bad fault [item] (.ok a) := by
  unfold StopsAtFirst
  rw [List.find?_cons_of_neg h]
  exact ⟨a, rfl⟩

/-- Steps that follow each other stop at the first bad item of both. -/
theorem StopsAtFirst.bind {x : Except ε α} {f : α → Except ε β}
    (hx : StopsAtFirst bad fault items x)
    (hf : ∀ a, x = .ok a → StopsAtFirst bad fault more (f a)) :
    StopsAtFirst bad fault (items ++ more) (x >>= f) := by
  unfold StopsAtFirst at hx ⊢
  rw [List.find?_append]
  cases h : items.find? bad with
  | some item =>
      rw [h] at hx
      rw [show x = .error (fault item) from hx]
      rfl
  | none =>
      rw [h] at hx
      obtain ⟨a, ha⟩ := hx
      have hstep := hf a ha
      rw [ha]
      exact hstep

theorem StopsAtFirst.map {x : Except ε α} (hx : StopsAtFirst bad fault items x) (f : α → β) :
    StopsAtFirst bad fault items (f <$> x) := by
  have h := hx.bind (f := fun a => .ok (f a)) fun a _ => stopsAtFirst_ok bad fault (f a)
  rw [List.append_nil] at h
  rw [map_eq_pure_bind]
  exact h

/-- Steps over a list stop at the first bad item of all of them, in order. -/
theorem StopsAtFirst.mapM {f : α → Except ε β} {itemsOf : α → List ι} :
    ∀ {as : List α}, (∀ a ∈ as, StopsAtFirst bad fault (itemsOf a) (f a)) →
      StopsAtFirst bad fault (as.flatMap itemsOf) (as.mapM f)
  | [], _ => ⟨[], rfl⟩
  | a :: as, h => by
      have htail : StopsAtFirst bad fault (as.flatMap itemsOf) (as.mapM f) :=
        StopsAtFirst.mapM fun a' ha' => h a' (List.mem_cons_of_mem a ha')
      rw [List.flatMap_cons, List.mapM_cons]
      refine (h a List.mem_cons_self).bind fun b _ => ?_
      have hpure := htail.map (b :: ·)
      rwa [map_eq_pure_bind] at hpure

/-- The places of the elements may matter for the steps, but not for the items. -/
theorem StopsAtFirst.mapM_zipIdx {f : α × Nat → Except ε β} {itemsOf : α → List ι} {as : List α}
    (h : ∀ a ∈ as, ∀ i, StopsAtFirst bad fault (itemsOf a) (f (a, i))) :
    StopsAtFirst bad fault (as.flatMap itemsOf) (as.zipIdx.mapM f) := by
  have hitems : as.flatMap itemsOf = as.zipIdx.flatMap fun p => itemsOf p.1 := by
    have hmap := List.flatMap_map Prod.fst itemsOf (l := as.zipIdx)
    rwa [List.zipIdx_map_fst] at hmap
  rw [hitems]
  exact StopsAtFirst.mapM fun p hp => h p.1 (List.fst_mem_of_mem_zipIdx hp) p.2

theorem StopsAtFirst.fails_iff {x : Except ε α} (hx : StopsAtFirst bad fault items x) :
    (∃ e, x = .error e) ↔ ∃ item ∈ items, bad item = true := by
  unfold StopsAtFirst at hx
  rw [← List.find?_isSome]
  cases h : items.find? bad with
  | some item =>
      rw [h] at hx
      exact iff_of_true ⟨fault item, hx⟩ rfl
  | none =>
      rw [h] at hx
      obtain ⟨a, rfl⟩ := hx
      simp

theorem StopsAtFirst.succeeds_iff {x : Except ε α} (hx : StopsAtFirst bad fault items x) :
    (∃ a, x = .ok a) ↔ ∀ item ∈ items, ¬ bad item = true := by
  have hfails := hx.fails_iff
  cases x with
  | ok a =>
      refine iff_of_true ⟨a, rfl⟩ fun item hitem hbad => ?_
      obtain ⟨e, he⟩ := hfails.mpr ⟨item, hitem, hbad⟩
      cases he
  | error e =>
      obtain ⟨item, hitem, hbad⟩ := hfails.mp ⟨e, rfl⟩
      exact iff_of_false (by simp) fun hall => hall item hitem hbad

theorem isFirst_iff_find? {item : ι} :
    IsFirst (bad · = true) items item ↔ items.find? bad = some item := by
  rw [List.find?_eq_some_iff_append]
  constructor
  · rintro ⟨before, after, hitems, hbefore, hitem⟩
    exact ⟨hitem, before, after, hitems, by simpa using hbefore⟩
  · rintro ⟨hitem, before, after, hitems, hbefore⟩
    exact ⟨before, after, hitems, by simpa using hbefore, hitem⟩

theorem StopsAtFirst.eq_error_iff {x : Except ε α} (hx : StopsAtFirst bad fault items x) {e : ε} :
    x = .error e ↔ ∃ item, IsFirst (bad · = true) items item ∧ e = fault item := by
  unfold StopsAtFirst at hx
  simp only [isFirst_iff_find?]
  cases h : items.find? bad with
  | none =>
      rw [h] at hx
      obtain ⟨a, rfl⟩ := hx
      simp
  | some item =>
      rw [h] at hx
      rw [show x = .error (fault item) from hx]
      simp [@eq_comm _ e]

end

end RestScaffold
