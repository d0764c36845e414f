import Mathlib.Data.List.Induction
import RestScaffold.Contract.SourceFile
import RestScaffold.Proofs.IndexPath
import RestScaffold.Proofs.Sequencing
import RestScaffold.Proofs.Trimming

/-! # Declarations at their places

The messages of a file are gathered along with their places and their annotations. Both belong to
the index path that leads to the message.

* `placeOf`: the descriptor path of the message at an index path;
* `StandsAt`, `forall₂_declaredMessages`: the declared messages stand at the index paths of the
  file, one at each;
* `CommentAt`, `commentAt_comment`: which comment belongs to a place;
* `file?_eq_some_iff`: the annotations of a file, where names are not used twice. -/

namespace RestScaffold.Contract

open Text (TrimsMarks trimsMarks_iff)

/-! ### Messages -/

/-- The descriptor path of a message, below that of the message at the empty path. -/
def nestedPlace (is : IndexPath) : Path :=
  is.flatMap fun i => [3, Int32.ofNat i]

/-- The descriptor path of the message at an index path. -/
def placeOf : IndexPath → Path
  | [] => []
  | i :: is => [4, Int32.ofNat i] ++ nestedPlace is

/-- A declared message is the one below `m` that `is` leads to, with its place and annotations. -/
structure StandsBelow (m : Descriptor.Message) (path : Path) (annotated : Option Annotated.Message)
    (is : IndexPath) (d : DeclaredMessage) : Prop where
  descriptor : m.at? is = some d.descriptor
  place : d.path = path ++ nestedPlace is
  annotated : d.annotated = annotated.bind (·.at? is)

/-- A declared message is the one at an index path, with its place and annotations. -/
structure StandsAt (file : Descriptor.File) (annotated : Option Annotated.File) (path : IndexPath)
    (d : DeclaredMessage) : Prop where
  descriptor : file.message? path = some d.descriptor
  place : d.path = placeOf path
  annotated : d.annotated = annotated.bind (·.message? path)

/-- A declared message stands below the message of a list that its index path starts with. -/
def StandsAmong (ms : List Descriptor.Message) (place : Nat → Path)
    (annotations : List Annotated.Message) (index : Nat) (is : IndexPath) (d : DeclaredMessage) :
    Prop :=
  ∃ i below m, is = (index + i) :: below ∧ ms[i]? = some m ∧
    StandsBelow m (place (index + i)) annotations[index + i]? below d

theorem elim_nil_getElem? {α β : Type} (o : Option α) (f : α → List β) (i : Nat) :
    (o.elim [] f)[i]? = o.bind fun a => (f a)[i]? := by
  cases o <;> rfl

mutual

theorem forall₂_declaredIn : ∀ (scope : String) (path : Path)
    (annotated : Option Annotated.Message) (m : Descriptor.Message),
      List.Forall₂ (StandsBelow m path annotated) m.paths (declaredIn scope path annotated m)
  | scope, path, annotated, m@{ nested, .. } => by
      rw [Descriptor.Message.paths_eq, declaredIn]
      refine List.Forall₂.cons ⟨rfl, (List.append_nil _).symm, by cases annotated <;> rfl⟩ ?_
      refine (forall₂_declaredInAll _ _ _ 0 nested).imp fun is d h => ?_
      obtain ⟨i, below, inner, rfl, hi, hstands⟩ := h
      rw [Nat.zero_add] at hstands ⊢
      refine ⟨?_, ?_, ?_⟩
      · exact (Option.bind_eq_some_iff.mpr ⟨inner, hi, hstands.descriptor⟩)
      · rw [hstands.place]
        simp [Path.nestedMessage, Path.child, nestedPlace]
      · rw [hstands.annotated, elim_nil_getElem?, Option.bind_assoc]
        rfl

theorem forall₂_declaredInAll : ∀ (scope : String) (place : Nat → Path)
    (annotations : List Annotated.Message) (index : Nat) (ms : List Descriptor.Message),
      List.Forall₂ (StandsAmong ms place annotations index) (Descriptor.Message.pathsAll index ms)
        (declaredInAll scope place annotations index ms)
  | scope, place, annotations, index, [] => List.Forall₂.nil
  | scope, place, annotations, index, m :: ms => by
      rw [Descriptor.Message.pathsAll, declaredInAll]
      refine List.rel_append ?_ ?_
      · rw [List.forall₂_map_left_iff]
        refine (forall₂_declaredIn scope (place index) annotations[index]? m).imp fun is d h => ?_
        exact ⟨0, is, m, rfl, rfl, h⟩
      · refine (forall₂_declaredInAll scope place annotations (index + 1) ms).imp fun is d h => ?_
        obtain ⟨i, below, inner, rfl, hi, hstands⟩ := h
        rw [Nat.add_right_comm, Nat.add_assoc] at hstands ⊢
        exact ⟨i + 1, below, inner, rfl, hi, hstands⟩

end

theorem forall₂_declaredMessages (file : Descriptor.File) (annotated : Option Annotated.File) :
    List.Forall₂ (StandsAt file annotated) file.messagePaths (declaredMessages file annotated) := by
  refine (forall₂_declaredInAll _ _ _ 0 file.messages).imp fun is d h => ?_
  obtain ⟨i, below, m, rfl, hi, hstands⟩ := h
  rw [Nat.zero_add] at hstands ⊢
  refine ⟨?_, hstands.place, ?_⟩
  · exact Option.bind_eq_some_iff.mpr ⟨m, hi, hstands.descriptor⟩
  · rw [hstands.annotated, elim_nil_getElem?, Option.bind_assoc]
    rfl

/-! ### Comments -/

/-- A comment belongs to a place: it is what the last comment there that has a text is trimmed to, or
empty where there is none. -/
def CommentAt (locations : List Descriptor.Location) (path : Path) (comment : String) : Prop :=
  (∃ before l after, locations = before ++ l :: after ∧ l.path = path ∧
      TrimsMarks l.leadingComment comment ∧ comment ≠ "" ∧
      ∀ later ∈ after, later.path = path → TrimsMarks later.leadingComment "") ∨
    (comment = "" ∧ ∀ l ∈ locations, l.path = path → TrimsMarks l.leadingComment "")

/-- The comments at a place, trimmed, without the blank ones. -/
def commentsAt (locations : List Descriptor.Location) (path : Path) : List String :=
  ((locations.filter (·.path = path)).map fun l => Text.trimMarks l.leadingComment).filter (· ≠ "")

/-- The induction is from the last location on, since the last comment counts. -/
theorem commentAt_getLast? (path : Path) : ∀ locations : List Descriptor.Location,
    CommentAt locations path ((commentsAt locations path).getLast?.getD "") := by
  intro locations
  induction locations using List.reverseRecOn with
  | nil => exact Or.inr ⟨rfl, by simp⟩
  | append_singleton front l ih =>
      have happend : commentsAt (front ++ [l]) path =
          commentsAt front path ++ commentsAt [l] path := by
        simp [commentsAt]
      by_cases hl : l.path = path ∧ Text.trimMarks l.leadingComment ≠ ""
      · have hlast : commentsAt [l] path = [Text.trimMarks l.leadingComment] := by
          simp [commentsAt, hl.1, hl.2]
        rw [happend, hlast, List.getLast?_concat, Option.getD_some]
        exact Or.inl ⟨front, l, [], rfl, hl.1, trimsMarks_iff.mpr rfl, hl.2, by simp⟩
      · have hblank : l.path = path → TrimsMarks l.leadingComment "" := by
          intro hp
          by_contra hne
          exact hl ⟨hp, mt trimsMarks_iff.mpr hne⟩
        have hlast : commentsAt [l] path = [] := by
          by_cases hp : l.path = path
          · simp [commentsAt, hp, trimsMarks_iff.mp (hblank hp)]
          · simp [commentsAt, hp]
        rw [happend, hlast, List.append_nil]
        rcases ih with ⟨before, found, after, rfl, hp, hc, hne, hafter⟩ | ⟨hc, hall⟩
        · refine Or.inl ⟨before, found, after ++ [l], by simp, hp, hc, hne, ?_⟩
          intro later hlater
          rcases List.mem_append.mp hlater with h | h
          · exact hafter later h
          · rwa [List.mem_singleton.mp h]
        · refine Or.inr ⟨hc, ?_⟩
          intro other hother
          rcases List.mem_append.mp hother with h | h
          · exact hall other h
          · rwa [List.mem_singleton.mp h]

theorem commentAt_comment (s : SourceFile) (path : Path) :
    CommentAt s.descriptor.locations path (s.comment path) :=
  commentAt_getLast? path s.descriptor.locations

/-! ### Annotations -/

theorem file?_eq_some_iff {annotations : Annotated.Request} {name : String} {file : Annotated.File}
    (hn : (annotations.files.map (·.name?)).Nodup) :
    annotations.file? name = some file ↔ file ∈ annotations.files ∧ file.name? = some name :=
  getLast?_filter_eq_some_iff hn

end RestScaffold.Contract
