import RestScaffold.Annotated.Basic
import RestScaffold.Descriptor.Basic

/-! # Index paths

A message is found by the indices that lead to it: that of a message of the file, then those of
nested messages. Descriptors and annotations are looked up by the same paths.

* `Descriptor.File.message?`, `Annotated.File.message?`: the message at an index path;
* `Descriptor.File.method?`, `Annotated.File.method?`: a method by the indices of its service and
  of itself;
* `Descriptor.File.messagePaths`, `Descriptor.File.mem_messagePaths`: the index paths of all
  messages of a file;
* `Descriptor.File.pairwise_lt_messagePaths`: they ascend, so that each stands there once. -/

namespace RestScaffold

/-- Indices that lead to a message of a file, the outermost first. -/
abbrev IndexPath := List Nat

namespace Descriptor

/-- The message that indices of nested messages lead to. -/
def Message.at? : IndexPath → Message → Option Message
  | [], m => some m
  | i :: is, m => (m.nested[i]?).bind (Message.at? is)

/-- The message at an index path. -/
def File.message? (f : File) : IndexPath → Option Message
  | [] => none
  | i :: is => (f.messages[i]?).bind (Message.at? is)

/-- The method at the given indices of service and method. -/
def File.method? (f : File) (service method : Nat) : Option Method :=
  (f.services[service]?).bind (·.methods[method]?)

/-- The message at an index path of the file at an index. -/
def Request.message? (r : Request) (file : Nat) (path : IndexPath) : Option Message :=
  (r.files[file]?).bind (·.message? path)

/-! ### All messages of a file -/

mutual

/-- The indices that lead to a message and to those nested in it, its own first. -/
def Message.paths : Message → List IndexPath
  | { nested, .. } => [] :: Message.pathsAll 0 nested

/-- The same for the messages of a list; `index` is the place of the first. -/
def Message.pathsAll (index : Nat) : List Message → List IndexPath
  | [] => []
  | m :: ms => m.paths.map (index :: ·) ++ Message.pathsAll (index + 1) ms

end

/-- The index paths of all messages of a file. -/
def File.messagePaths (f : File) : List IndexPath :=
  Message.pathsAll 0 f.messages

theorem Message.paths_eq (m : Message) : m.paths = [] :: Message.pathsAll 0 m.nested := by
  obtain ⟨⟩ := m
  rw [Message.paths]

mutual

theorem Message.mem_paths : ∀ {m : Message} {is : IndexPath},
    is ∈ m.paths ↔ ∃ found, m.at? is = some found
  | m@{ nested, .. }, [] => by
      simp [Message.paths_eq, Message.at?]
  | m@{ nested, .. }, i :: is => by
      rw [Message.paths_eq, List.mem_cons, or_iff_right (by simp), Message.mem_pathsAll]
      simp [Message.at?, and_assoc]

theorem Message.mem_pathsAll : ∀ {ms : List Message} {index : Nat} {is : IndexPath},
    is ∈ Message.pathsAll index ms ↔ ∃ i below found, is = (index + i) :: below ∧
      (ms[i]?).bind (Message.at? below) = some found
  | [], index, is => by
      simp [Message.pathsAll]
  | m :: ms, index, is => by
      rw [Message.pathsAll, List.mem_append, List.mem_map, Message.mem_pathsAll]
      constructor
      · rintro (⟨below, hb, rfl⟩ | ⟨i, below, found, rfl, hf⟩)
        · obtain ⟨found, hf⟩ := Message.mem_paths.mp hb
          exact ⟨0, below, found, rfl, hf⟩
        · exact ⟨i + 1, below, found, by rw [Nat.add_assoc, Nat.add_comm 1 i], by simpa using hf⟩
      · rintro ⟨i, below, found, rfl, hf⟩
        cases i with
        | zero => exact Or.inl ⟨below, Message.mem_paths.mpr ⟨found, hf⟩, rfl⟩
        | succ i =>
            refine Or.inr ⟨i, below, found, ?_, by simpa using hf⟩
            rw [Nat.add_assoc, Nat.add_comm 1 i]

end

theorem File.mem_messagePaths {f : File} {path : IndexPath} :
    path ∈ f.messagePaths ↔ ∃ m, f.message? path = some m := by
  rw [File.messagePaths, Message.mem_pathsAll]
  cases path with
  | nil => simp [File.message?]
  | cons i is => simp [File.message?, and_assoc]

mutual

theorem Message.pairwise_lt_paths : ∀ m : Message, m.paths.Pairwise (· < ·)
  | m@{ nested, .. } => by
      rw [Message.paths_eq, List.pairwise_cons]
      refine ⟨fun path hpath => ?_, Message.pairwise_lt_pathsAll nested 0⟩
      obtain ⟨i, below, -, rfl, -⟩ := Message.mem_pathsAll.mp hpath
      exact List.nil_lt_cons _ _

theorem Message.pairwise_lt_pathsAll : ∀ (ms : List Message) (index : Nat),
    (Message.pathsAll index ms).Pairwise (· < ·)
  | [], index => List.Pairwise.nil
  | m :: ms, index => by
      rw [Message.pathsAll, List.pairwise_append]
      refine ⟨?_, Message.pairwise_lt_pathsAll ms (index + 1), ?_⟩
      · refine (Message.pairwise_lt_paths m).map _ fun _ _ h => ?_
        exact List.cons_lt_cons_iff.mpr (Or.inr ⟨rfl, h⟩)
      · intro path hpath other hother
        obtain ⟨below, -, rfl⟩ := List.mem_map.mp hpath
        obtain ⟨i, below', -, rfl, -⟩ := Message.mem_pathsAll.mp hother
        exact List.cons_lt_cons_iff.mpr (Or.inl (by omega))

end

/-- The index paths ascend: a message stands before those that are nested in it, and these before
the next message. -/
theorem File.pairwise_lt_messagePaths (f : File) : f.messagePaths.Pairwise (· < ·) :=
  Message.pairwise_lt_pathsAll f.messages 0

end Descriptor

namespace Annotated

/-- The message that indices of nested messages lead to. -/
def Message.at? : IndexPath → Message → Option Message
  | [], m => some m
  | i :: is, m => (m.nested[i]?).bind (Message.at? is)

/-- The message at an index path. -/
def File.message? (f : File) : IndexPath → Option Message
  | [] => none
  | i :: is => (f.messages[i]?).bind (Message.at? is)

/-- The method at the given indices of service and method. -/
def File.method? (f : File) (service method : Nat) : Option Method :=
  (f.services[service]?).bind (·.methods[method]?)

/-- The message at an index path of the file at an index. -/
def Request.message? (r : Request) (file : Nat) (path : IndexPath) : Option Message :=
  (r.files[file]?).bind (·.message? path)

end Annotated

end RestScaffold
