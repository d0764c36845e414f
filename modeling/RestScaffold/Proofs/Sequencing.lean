import Mathlib.Data.List.Forall2
import Mathlib.Data.List.Nodup
import RestScaffold.Run

/-! # Sequencing

What it means that a sequence of steps went through: every step did.

* `exists_right_of_forall₂`, `exists_left_of_forall₂`, `exists_forall₂`, `forall₂_comp`,
  `forall₂_iff_map_eq`: lists that go in step;
* `ByIndex`: lists in step, with the place of each pair;
* `getLast?_filter_eq_some_iff`, `getLast?_filter_perm`: looking up a key that is used once;
* `nodup_map_congr`, `nodup_map_iff`: lists without a key that is used twice;
* `mem_of_lookup_eq_some`: looking up a key in a table;
* `FirstRepeat`: the first element whose key is taken, and the one that has it;
* `intercalate_cons`, `flatten_splitOnP`, `subset_of_mem_splitOn`, `eq_or_mem_of_mem`,
  `splitOn_eq_iff`: the pieces between separators;
* `cut_unique`: a list is cut at its first separator in one way;
* `bind_eq_ok_iff`, `mapM_eq_ok_iff`: steps that may end in a fault;
* `foldlM_eq_error_iff`: the step at which a fold ended in a fault;
* `foldlM_keeps`: an invariant of a fold;
* `map_mapM`: steps whose results are changed;
* `Run.result_mapM`, `Run.result_foldlM`: the result of a run of steps does not depend on the
  notices that they issue. -/

namespace RestScaffold

variable {α β γ ε : Type}

/-! ### Lists in step -/

theorem forall₂_iff_map_eq {R : α → β → Prop} {f : α → β} (h : ∀ a b, R a b ↔ f a = b)
    {as : List α} {bs : List β} : List.Forall₂ R as bs ↔ as.map f = bs := by
  obtain rfl : R = fun a b => f a = b := funext fun a => funext fun b => propext (h a b)
  rw [← List.forall₂_eq_eq_eq, List.forall₂_map_left_iff]

theorem exists_right_of_forall₂ {R : α → β → Prop} {as : List α} {bs : List β}
    (h : List.Forall₂ R as bs) : ∀ a ∈ as, ∃ b ∈ bs, R a b := by
  induction h with
  | nil => simp
  | cons hr _ ih =>
      rw [List.forall_mem_cons]
      refine ⟨⟨_, List.mem_cons_self, hr⟩, fun a ha => ?_⟩
      obtain ⟨b, hb, hab⟩ := ih a ha
      exact ⟨b, List.mem_cons_of_mem _ hb, hab⟩

theorem exists_left_of_forall₂ {R : α → β → Prop} {as : List α} {bs : List β}
    (h : List.Forall₂ R as bs) : ∀ b ∈ bs, ∃ a ∈ as, R a b :=
  exists_right_of_forall₂ (R := flip R) h.flip

theorem exists_forall₂ {R : α → β → Prop} : ∀ {as : List α}, (∀ a ∈ as, ∃ b, R a b) →
    ∃ bs, List.Forall₂ R as bs
  | [], _ => ⟨[], List.Forall₂.nil⟩
  | a :: as, h => by
      obtain ⟨b, hb⟩ := h a List.mem_cons_self
      obtain ⟨bs, hbs⟩ := exists_forall₂ fun a' ha' => h a' (List.mem_cons_of_mem _ ha')
      exact ⟨b :: bs, List.Forall₂.cons hb hbs⟩

theorem forall₂_comp {R : α → β → Prop} {S : β → γ → Prop} {as : List α} {bs : List β}
    {cs : List γ} (h : List.Forall₂ R as bs) (h' : List.Forall₂ S bs cs) :
    List.Forall₂ (fun a c => ∃ b, R a b ∧ S b c) as cs := by
  induction h generalizing cs with
  | nil =>
      rw [List.forall₂_nil_left_iff.mp h']
      exact List.Forall₂.nil
  | cons hr _ ih =>
      obtain ⟨c, rest, hs, hrest, rfl⟩ := List.forall₂_cons_left_iff.mp h'
      exact List.Forall₂.cons ⟨_, hr, hs⟩ (ih hrest)

theorem map_eq_map_of_forall₂ {f : α → γ} {g : β → γ} {as : List α} {bs : List β}
    (h : List.Forall₂ (fun a b => f a = g b) as bs) : as.map f = bs.map g := by
  induction h with
  | nil => rfl
  | cons hr _ ih => rw [List.map_cons, List.map_cons, hr, ih]

/-! ### Lists by index -/

/-- The lists have one length, and `R i` holds for the elements at each place `i`. -/
def ByIndex (R : Nat → α → β → Prop) (as : List α) (bs : List β) : Prop :=
  List.Forall₂ (fun p b => R p.2 p.1 b) as.zipIdx bs

theorem ByIndex.imp {R S : Nat → α → β → Prop} (hRS : ∀ i a b, R i a b → S i a b) {as : List α}
    {bs : List β} (h : ByIndex R as bs) : ByIndex S as bs := by
  refine List.Forall₂.imp ?_ h
  intro p b hr
  exact hRS p.2 p.1 b hr

theorem byIndex_mapIdx_of_mem {R : Nat → α → β → Prop} {f : Nat → α → β} {as : List α}
    (hR : ∀ i, ∀ a ∈ as, R i a (f i a)) : ByIndex R as (as.mapIdx f) := by
  rw [ByIndex, List.mapIdx_eq_zipIdx_map, List.forall₂_map_right_iff, List.forall₂_same]
  intro p hp
  exact hR p.2 p.1 (List.fst_mem_of_mem_zipIdx hp)

theorem byIndex_mapIdx {R : Nat → α → β → Prop} {f : Nat → α → β} (hR : ∀ i a, R i a (f i a))
    (as : List α) : ByIndex R as (as.mapIdx f) :=
  byIndex_mapIdx_of_mem fun i a _ => hR i a

theorem ByIndex.forall₂ {R : Nat → α → β → Prop} {S : α → β → Prop}
    (hRS : ∀ i a b, R i a b → S a b) {as : List α} {bs : List β} (h : ByIndex R as bs) :
    List.Forall₂ S as bs := by
  rw [← List.zipIdx_map_fst 0 as, List.forall₂_map_left_iff]
  refine List.Forall₂.imp ?_ h
  intro p b hr
  exact hRS p.2 p.1 b hr

/-! ### Keys -/

/-- Where keys are not used twice, the last element with a key is the one that has it. -/
theorem getLast?_filter_eq_some_iff {κ : Type} [DecidableEq κ] {key : α → κ} {k : κ} {as : List α}
    {a : α} (hn : (as.map key).Nodup) :
    (as.filter (key · = k)).getLast? = some a ↔ a ∈ as ∧ key a = k := by
  have hmem : ∀ b, b ∈ as.filter (key · = k) ↔ b ∈ as ∧ key b = k := by
    simp
  constructor
  · exact fun h => (hmem a).mp (List.mem_of_getLast? h)
  · intro h
    obtain ⟨last, hlast⟩ : ∃ last, (as.filter (key · = k)).getLast? = some last := by
      rw [← Option.isSome_iff_exists, List.getLast?_isSome]
      exact List.ne_nil_of_mem ((hmem a).mpr h)
    have hl := (hmem last).mp (List.mem_of_getLast? hlast)
    rw [hlast, List.inj_on_of_nodup_map hn hl.1 h.1 (hl.2.trans h.2.symm)]

/-- Where keys are not used twice, the order of the elements does not matter to a look-up. -/
theorem getLast?_filter_perm {κ : Type} [DecidableEq κ] {key : α → κ} {as bs : List α}
    (hn : (as.map key).Nodup) (hp : List.Perm as bs) (k : κ) :
    (as.filter (key · = k)).getLast? = (bs.filter (key · = k)).getLast? := by
  have hn' : (bs.map key).Nodup := (hp.map key).nodup_iff.mp hn
  apply Option.ext
  intro a
  rw [getLast?_filter_eq_some_iff hn, getLast?_filter_eq_some_iff hn', hp.mem_iff]

theorem nodup_map_congr {f : α → β} {g : α → γ} {as : List α}
    (h : ∀ a ∈ as, ∀ b ∈ as, f a = f b ↔ g a = g b) : (as.map f).Nodup ↔ (as.map g).Nodup := by
  unfold List.Nodup
  rw [List.pairwise_map, List.pairwise_map]
  exact List.Pairwise.iff_of_mem fun {a b} ha hb => not_congr (h a ha b hb)

theorem nodup_map_iff {f : α → β} {as : List α} (h : ∀ a ∈ as, ∀ b ∈ as, f a = f b ↔ a = b) :
    (as.map f).Nodup ↔ as.Nodup := by
  have hcongr : (as.map f).Nodup ↔ (as.map id).Nodup := nodup_map_congr h
  rwa [List.map_id] at hcongr

theorem mem_of_lookup_eq_some {κ : Type} [DecidableEq κ] {table : List (κ × α)} {k : κ} {a : α}
    (h : table.lookup k = some a) : (k, a) ∈ table := by
  obtain ⟨before, after, rfl, -⟩ := List.lookup_eq_some_iff.mp h
  exact List.mem_append_right before List.mem_cons_self

/-- `second` is the first element whose key an earlier one has, and `first` is that one. -/
def FirstRepeat {κ : Type} (key : α → κ) (as : List α) (first second : α) : Prop :=
  ∃ before after, as = before ++ second :: after ∧ (before.map key).Nodup ∧ first ∈ before ∧
    key first = key second

theorem FirstRepeat.not_nodup {κ : Type} {key : α → κ} {as : List α} {first second : α}
    (h : FirstRepeat key as first second) : ¬ (as.map key).Nodup := by
  obtain ⟨before, after, rfl, -, hfirst, hkey⟩ := h
  intro hn
  rw [List.map_append] at hn
  have hmem : key first ∈ before.map key := List.mem_map_of_mem hfirst
  exact List.disjoint_of_nodup_append hn hmem (hkey ▸ List.mem_cons_self)

theorem FirstRepeat.exists_of_map {κ : Type} {key : β → κ} {f : α → β} {as : List α}
    {first second : β} (h : FirstRepeat key (as.map f) first second) :
    ∃ a b, FirstRepeat (key ∘ f) as a b ∧ f a = first ∧ f b = second := by
  obtain ⟨before, after, hsplit, hn, hfirst, hkey⟩ := h
  obtain ⟨front, rest, rfl, rfl, hrest⟩ := List.map_eq_append_iff.mp hsplit
  obtain ⟨b, back, rfl, rfl, rfl⟩ := List.map_eq_cons_iff.mp hrest
  obtain ⟨a, ha, rfl⟩ := List.mem_map.mp hfirst
  rw [List.map_map] at hn
  exact ⟨a, b, ⟨front, back, rfl, hn, ha, hkey⟩, rfl, rfl⟩

/-! ### Pieces of a list -/

theorem intercalate_cons (sep piece : List α) : ∀ pieces : List (List α),
    sep.intercalate (piece :: pieces) = piece ++ pieces.flatMap (sep ++ ·)
  | [] => by simp
  | next :: pieces => by
      rw [List.intercalate_cons_cons, intercalate_cons sep next pieces, List.flatMap_cons,
        List.append_assoc, List.append_assoc]

theorem intercalate_append {sep : List α} {pieces rest : List (List α)} (h : pieces ≠ [])
    (hrest : rest ≠ []) : sep.intercalate (pieces ++ rest) =
      sep.intercalate pieces ++ sep ++ sep.intercalate rest := by
  obtain ⟨piece, pieces, rfl⟩ := List.exists_cons_of_ne_nil h
  obtain ⟨next, rest, rfl⟩ := List.exists_cons_of_ne_nil hrest
  simp [intercalate_cons]

theorem infix_intercalate {sep piece : List α} {pieces : List (List α)} (h : piece ∈ pieces) :
    piece <:+: sep.intercalate pieces := by
  obtain ⟨first, pieces, rfl⟩ := List.exists_cons_of_ne_nil (List.ne_nil_of_mem h)
  rw [intercalate_cons]
  rcases List.mem_cons.mp h with rfl | h
  · exact (List.prefix_append _ _).isInfix
  · have hrest : sep ++ piece <:+: pieces.flatMap (sep ++ ·) :=
      List.infix_of_mem_flatten (List.mem_map_of_mem h)
    exact (List.suffix_append sep piece).isInfix.trans (hrest.trans (List.suffix_append _ _).isInfix)

theorem mem_intercalate {sep piece : List α} {a : α} (ha : a ∈ piece) {pieces : List (List α)}
    (h : piece ∈ pieces) : a ∈ sep.intercalate pieces :=
  (infix_intercalate h).subset ha

theorem mem_or_of_mem_intercalate {sep : List α} {a : α} :
    ∀ {pieces : List (List α)}, a ∈ sep.intercalate pieces → a ∈ sep ∨ ∃ piece ∈ pieces, a ∈ piece
  | [], h => absurd h (by simp [List.intercalate])
  | [first], h => by
      rw [List.intercalate_singleton] at h
      exact Or.inr ⟨first, List.mem_cons_self, h⟩
  | first :: second :: pieces, h => by
      rw [List.intercalate_cons_cons, List.mem_append, List.mem_append] at h
      rcases h with (h | h) | h
      · exact Or.inr ⟨first, List.mem_cons_self, h⟩
      · exact Or.inl h
      · rcases mem_or_of_mem_intercalate h with h | ⟨piece, hpiece, h⟩
        · exact Or.inl h
        · exact Or.inr ⟨piece, List.mem_cons_of_mem first hpiece, h⟩

theorem eq_false_of_mem_splitOnP {p : α → Bool} {a : α} :
    ∀ {as piece : List α}, piece ∈ as.splitOnP p → a ∈ piece → p a = false
  | [], piece, hp, ha => by
      simp only [List.splitOnP_nil, List.mem_singleton] at hp
      simp [hp] at ha
  | b :: bs, piece, hp, ha => by
      rw [List.splitOnP_cons_eq_if_modifyHead] at hp
      obtain ⟨q, qs, hq⟩ := List.exists_cons_of_ne_nil (List.splitOnP_ne_nil p bs)
      have ih : ∀ {r : List α}, r ∈ q :: qs → a ∈ r → p a = false := fun hr h =>
        eq_false_of_mem_splitOnP (hq ▸ hr) h
      rw [hq] at hp
      split at hp
      · rcases List.mem_cons.mp hp with rfl | hp
        · simp at ha
        · exact ih hp ha
      · rename_i hb
        rcases List.mem_cons.mp hp with rfl | hp
        · rcases List.mem_cons.mp ha with rfl | ha
          · simpa using hb
          · exact ih List.mem_cons_self ha
        · exact ih (List.mem_cons_of_mem _ hp) ha

theorem flatten_splitOnP (p : α → Bool) : ∀ as : List α,
    (as.splitOnP p).flatten = as.filter fun a => !p a
  | [] => rfl
  | a :: as => by
      have ih := flatten_splitOnP p as
      obtain ⟨piece, pieces, hpieces⟩ := List.exists_cons_of_ne_nil (List.splitOnP_ne_nil p as)
      rw [List.splitOnP_cons_eq_if_modifyHead, hpieces]
      rw [hpieces, List.flatten_cons] at ih
      by_cases ha : p a
      · simpa [ha] using ih
      · simpa [ha] using ih

theorem cut_unique {sep : α} {front front' back back' : List α}
    (h : front ++ sep :: back = front' ++ sep :: back') (hfront : sep ∉ front)
    (hfront' : sep ∉ front') : front = front' ∧ back = back' := by
  induction front generalizing front' with
  | nil =>
      cases front' with
      | nil => exact ⟨rfl, (List.cons.inj h).2⟩
      | cons a front' =>
          obtain ⟨rfl, -⟩ := List.cons.inj h
          exact absurd List.mem_cons_self hfront'
  | cons a front ih =>
      cases front' with
      | nil =>
          obtain ⟨rfl, -⟩ := List.cons.inj h
          exact absurd List.mem_cons_self hfront
      | cons a' front' =>
          obtain ⟨rfl, htail⟩ := List.cons.inj h
          obtain ⟨rfl, rfl⟩ := ih htail (fun hmem => hfront (List.mem_cons_of_mem _ hmem))
            fun hmem => hfront' (List.mem_cons_of_mem _ hmem)
          exact ⟨rfl, rfl⟩

section

variable [BEq α] [LawfulBEq α] {sep a : α} {as : List α}

theorem subset_of_mem_splitOn {piece : List α} (h : piece ∈ as.splitOn sep) : piece ⊆ as := by
  have hparts : [sep].intercalate (as.splitOn sep) = as := List.intercalate_splitOn sep
  intro b hb
  rw [← hparts]
  exact mem_intercalate hb h

theorem eq_or_mem_of_mem (h : a ∈ as) : a = sep ∨ ∃ piece ∈ as.splitOn sep, a ∈ piece := by
  have hparts : [sep].intercalate (as.splitOn sep) = as := List.intercalate_splitOn sep
  rw [← hparts] at h
  exact (mem_or_of_mem_intercalate h).imp_left List.mem_singleton.mp

/-- A list is cut at all of its separators in one way. -/
theorem splitOn_eq_iff {pieces : List (List α)} : as.splitOn sep = pieces ↔
    pieces ≠ [] ∧ (∀ piece ∈ pieces, sep ∉ piece) ∧ [sep].intercalate pieces = as := by
  constructor
  · rintro rfl
    refine ⟨List.splitOn_ne_nil sep as, fun piece hpiece hsep => ?_, List.intercalate_splitOn sep⟩
    rw [List.splitOn_eq_splitOnP] at hpiece
    simpa using eq_false_of_mem_splitOnP hpiece hsep
  · rintro ⟨hne, hpieces, rfl⟩
    exact List.splitOn_intercalate sep hpieces hne

end

/-! ### Faults -/

theorem bind_eq_ok_iff {x : Except ε α} {f : α → Except ε β} {b : β} :
    x >>= f = .ok b ↔ ∃ a, x = .ok a ∧ f a = .ok b := by
  cases x with
  | error e => simp [bind, Except.bind]
  | ok a => simp [bind, Except.bind]

theorem pure_eq_ok_iff {a b : α} : (pure a : Except ε α) = .ok b ↔ a = b := by
  simp [pure, Except.pure]

theorem exists_ok_of_isOk {x : Except ε α} (h : x.isOk = true) : ∃ a, x = .ok a := by
  cases x with
  | error e => exact absurd h (by simp [Except.isOk, Except.toBool])
  | ok a => exact ⟨a, rfl⟩

theorem map_eq_ok_iff {x : Except ε α} {f : α → β} {b : β} :
    f <$> x = .ok b ↔ ∃ a, x = .ok a ∧ f a = b := by
  cases x with
  | error e => simp [Functor.map, Except.map]
  | ok a => simp [Functor.map, Except.map]

theorem mapError_eq_ok_iff {ε' : Type} {x : Except ε α} {f : ε → ε'} {a : α} :
    x.mapError f = .ok a ↔ x = .ok a := by
  cases x <;> simp [Except.mapError]

theorem mapError_eq_error_iff {ε' : Type} {x : Except ε α} {f : ε → ε'} {e : ε'} :
    x.mapError f = .error e ↔ ∃ d, x = .error d ∧ f d = e := by
  cases x <;> simp [Except.mapError]

theorem mapM_eq_ok_iff {f : α → Except ε β} : ∀ {as : List α} {bs : List β},
    as.mapM f = .ok bs ↔ List.Forall₂ (fun a b => f a = .ok b) as bs
  | [], bs => by
      rw [List.mapM_nil, pure_eq_ok_iff, List.forall₂_nil_left_iff]
      exact eq_comm
  | a :: as, bs => by
      rw [List.mapM_cons, List.forall₂_cons_left_iff, bind_eq_ok_iff]
      constructor
      · rintro ⟨b, hb, h⟩
        obtain ⟨rest, hrest, e⟩ := bind_eq_ok_iff.mp h
        exact ⟨b, rest, hb, mapM_eq_ok_iff.mp hrest, (pure_eq_ok_iff.mp e).symm⟩
      · rintro ⟨b, rest, hb, hrest, rfl⟩
        exact ⟨b, hb, bind_eq_ok_iff.mpr ⟨rest, mapM_eq_ok_iff.mpr hrest, rfl⟩⟩

theorem bind_eq_error_iff {x : Except ε α} {f : α → Except ε β} {e : ε} :
    x >>= f = .error e ↔ x = .error e ∨ ∃ a, x = .ok a ∧ f a = .error e := by
  cases x with
  | error d => simp [bind, Except.bind]
  | ok a => simp [bind, Except.bind]

/-- A fold ended in a fault at one of its steps, and all steps before that one went through. -/
theorem foldlM_eq_error_iff {f : β → α → Except ε β} {e : ε} : ∀ {as : List α} {b : β},
    as.foldlM f b = .error e ↔ ∃ before a after c, as = before ++ a :: after ∧
      before.foldlM f b = .ok c ∧ f c a = .error e
  | [], b => by simp [pure, Except.pure]
  | a :: as, b => by
      rw [List.foldlM_cons, bind_eq_error_iff]
      constructor
      · rintro (h | ⟨c, hc, h⟩)
        · exact ⟨[], a, as, b, rfl, rfl, h⟩
        · obtain ⟨before, a', after, d, rfl, hd, h⟩ := foldlM_eq_error_iff.mp h
          refine ⟨a :: before, a', after, d, rfl, ?_, h⟩
          rw [List.foldlM_cons]
          exact bind_eq_ok_iff.mpr ⟨c, hc, hd⟩
      · rintro ⟨before, a', after, d, heq, hd, h⟩
        cases before with
        | nil =>
            obtain ⟨rfl, rfl⟩ := List.cons.inj heq
            obtain rfl : b = d := pure_eq_ok_iff.mp hd
            exact Or.inl h
        | cons first before =>
            obtain ⟨rfl, rfl⟩ := List.cons.inj heq
            rw [List.foldlM_cons] at hd
            obtain ⟨c, hc, hd⟩ := bind_eq_ok_iff.mp hd
            exact Or.inr ⟨c, hc, foldlM_eq_error_iff.mpr ⟨before, a', after, d, rfl, hd, h⟩⟩

theorem foldlM_keeps {f : β → α → Except ε β} {inv : β → Prop} : ∀ {as : List α} {b c : β}, inv b →
    (∀ b, inv b → ∀ a ∈ as, ∀ c, f b a = .ok c → inv c) → as.foldlM f b = .ok c → inv c
  | [], b, c, hb, _, h => pure_eq_ok_iff.mp h ▸ hb
  | a :: as, b, c, hb, hkeeps, h => by
      rw [List.foldlM_cons] at h
      obtain ⟨between, hbetween, h⟩ := bind_eq_ok_iff.mp h
      exact foldlM_keeps (hkeeps b hb a List.mem_cons_self between hbetween)
        (fun d hd a' ha' => hkeeps d hd a' (List.mem_cons_of_mem a ha')) h

theorem map_mapM {m : Type → Type} [Monad m] [LawfulMonad m] (f : α → m β) (g : β → γ) :
    ∀ as : List α, List.map g <$> as.mapM f = as.mapM fun a => g <$> f a
  | [] => by simp
  | a :: as => by
      rw [List.mapM_cons, List.mapM_cons, ← map_mapM f g as]
      simp only [map_bind, map_pure, bind_map_left, List.map_cons]

/-! ### Results of runs -/

namespace Run

theorem map_ofExcept (f : α → β) (x : Except Fault α) : f <$> ofExcept x = ofExcept (f <$> x) := by
  cases x <;> rfl

@[simp] theorem result_map (f : α → β) (x : Run α) : (f <$> x).result = f <$> x.result := by
  rw [map_eq_pure_bind, result_bind]
  cases x.result <;> rfl

@[simp] theorem result_mapM (f : α → Run β) : ∀ as : List α,
    (as.mapM f).result = as.mapM fun a => (f a).result
  | [] => rfl
  | a :: as => by
      simp only [List.mapM_cons, result_bind, result_mapM f as, result_pure]
      rfl

@[simp] theorem result_foldlM (f : β → α → Run β) : ∀ (as : List α) (b : β),
    (as.foldlM f b).result = as.foldlM (fun b a => (f b a).result) b
  | [], b => rfl
  | a :: as, b => by
      simp only [List.foldlM_cons, result_bind, result_foldlM f as]

end Run

end RestScaffold
