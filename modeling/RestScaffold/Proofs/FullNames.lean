import Mathlib.Data.List.Pairwise
import Mathlib.Data.List.Perm.Basic
import RestScaffold.Contract.Resolution
import RestScaffold.Proofs.Sequencing

/-! # Full names

The messages and enumerations of a file with their full names, and how the rest of resolution
lists them.

* `namedMessages`, `namedEnumerations`: everything that a file declares, with its full name;
* `declaredMessages_map`: the declared messages are the named ones, in order;
* `declarations_perm`: the registry has the same declarations, in another order;
* `find?_eq_some_iff`: looking up a name, where no two declarations have one name;
* `registryOf`, `resolve?_eq_none_iff`, `exists_of_resolve?`, `eq_of_mem_typeNames`: the registry of
  a run, the names that it finds, and the files that its declarations are from. -/

namespace RestScaffold

/-! ### Named declarations -/

namespace Descriptor

mutual

/-- A message and those nested in it, with their full names. -/
def Message.named (scope : String) : Message → List (String × Message)
  | m@{ nested, .. } =>
    (Naming.qualify scope m.name, m) :: Message.namedAll (Naming.qualify scope m.name) nested

/-- The messages of a list and those nested in them, with their full names. -/
def Message.namedAll (scope : String) : List Message → List (String × Message)
  | [] => []
  | m :: ms => m.named scope ++ Message.namedAll scope ms

end

/-- The enumerations of a list with their full names. -/
def namedIn (scope : String) (es : List Enumeration) : List (String × Enumeration) :=
  es.map fun e => (Naming.qualify scope e.name, e)

/-- The messages of a file with their full names. -/
def File.namedMessages (f : File) : List (String × Message) :=
  Message.namedAll f.package f.messages

/-- The enumerations of a file with their full names: its own, then those nested in messages. -/
def File.namedEnumerations (f : File) : List (String × Enumeration) :=
  namedIn f.package f.enumerations ++ f.namedMessages.flatMap fun p => namedIn p.1 p.2.enumerations

/-- The full names of everything that a file declares. -/
def File.typeNames (f : File) : List String :=
  f.namedMessages.map (·.1) ++ f.namedEnumerations.map (·.1)

/-- The messages of all files with their full names. -/
def Request.namedMessages (r : Request) : List (String × Message) :=
  r.files.flatMap (·.namedMessages)

/-- The full names of everything that the files declare. -/
def Request.typeNames (r : Request) : List String :=
  r.files.flatMap (·.typeNames)

end Descriptor

namespace Contract

open Descriptor (namedIn)

/-! ### Declared messages -/

mutual

theorem declaredIn_map : ∀ (scope : String) (path : Path) (annotated : Option Annotated.Message)
    (m : Descriptor.Message),
      (declaredIn scope path annotated m).map (fun d => (d.fullName, d.descriptor)) = m.named scope
  | scope, path, annotated, m@{ nested, .. } => by
      rw [declaredIn, Descriptor.Message.named, List.map_cons]
      exact congrArg _ (declaredInAll_map _ _ _ 0 nested)

theorem declaredInAll_map : ∀ (scope : String) (place : Nat → Path)
    (annotations : List Annotated.Message) (index : Nat) (ms : List Descriptor.Message),
      (declaredInAll scope place annotations index ms).map (fun d => (d.fullName, d.descriptor)) =
        Descriptor.Message.namedAll scope ms
  | scope, place, annotations, index, [] => rfl
  | scope, place, annotations, index, m :: ms => by
      rw [declaredInAll, Descriptor.Message.namedAll, List.map_append, declaredIn_map,
        declaredInAll_map scope place annotations (index + 1) ms]

end

/-- The declared messages are the named ones, whatever is annotated. -/
theorem declaredMessages_map (file : Descriptor.File) (annotated : Option Annotated.File) :
    (declaredMessages file annotated).map (fun d => (d.fullName, d.descriptor)) =
      file.namedMessages :=
  declaredInAll_map _ _ _ 0 file.messages

/-! ### The registry -/

/-- What a named message declares. -/
def messageDeclaration (package : String) (p : String × Descriptor.Message) : Declaration :=
  ⟨p.1, p.2.name, package, mapEntry? p.2⟩

/-- What a named enumeration declares. -/
def enumerationDeclaration (package : String) (p : String × Descriptor.Enumeration) : Declaration :=
  ⟨p.1, p.2.name, package, none⟩

/-- What a named message and the enumerations in it declare. -/
def messageDeclarations (package : String) (p : String × Descriptor.Message) : List Declaration :=
  messageDeclaration package p ::
    (namedIn p.1 p.2.enumerations).map (enumerationDeclaration package)

theorem map_declarationOfEnumeration (scope package : String) (es : List Descriptor.Enumeration) :
    es.map (declarationOfEnumeration scope package) =
      (namedIn scope es).map (enumerationDeclaration package) := by
  rw [namedIn, List.map_map]
  rfl

mutual

/-- The registry lists what is nested in a message before the message. -/
theorem declarationsIn_perm : ∀ (scope package : String) (m : Descriptor.Message),
    List.Perm (declarationsIn scope package m)
      ((m.named scope).flatMap (messageDeclarations package))
  | scope, package, m@{ nested, .. } => by
      rw [declarationsIn, Descriptor.Message.named, List.flatMap_cons, List.append_assoc,
        map_declarationOfEnumeration]
      refine ((declarationsInAll_perm _ package nested).append
        (List.perm_append_singleton _ _)).trans ?_
      exact List.perm_append_comm

theorem declarationsInAll_perm : ∀ (scope package : String) (ms : List Descriptor.Message),
    List.Perm (declarationsInAll scope package ms)
      ((Descriptor.Message.namedAll scope ms).flatMap (messageDeclarations package))
  | scope, package, [] => List.Perm.refl []
  | scope, package, m :: ms => by
      rw [declarationsInAll, Descriptor.Message.namedAll, List.flatMap_append]
      exact (declarationsIn_perm scope package m).append (declarationsInAll_perm scope package ms)

end

theorem declarations_perm (s : SourceFile) : List.Perm s.declarations
    (s.descriptor.namedMessages.map (messageDeclaration s.beanPackage) ++
      s.descriptor.namedEnumerations.map (enumerationDeclaration s.beanPackage)) := by
  have hown := map_declarationOfEnumeration s.descriptor.package s.beanPackage
    s.descriptor.enumerations
  have hmessages : List.Perm
      (declarationsInAll s.descriptor.package s.beanPackage s.descriptor.messages)
      (s.descriptor.namedMessages.map (messageDeclaration s.beanPackage) ++
        s.descriptor.namedMessages.flatMap fun p =>
          (namedIn p.1 p.2.enumerations).map (enumerationDeclaration s.beanPackage)) :=
    (declarationsInAll_perm _ _ _).trans (List.map_append_flatMap_perm _ _ _).symm
  rw [SourceFile.declarations, hown, Descriptor.File.namedEnumerations, List.map_append,
    List.map_flatMap]
  refine (hmessages.append_right _).trans ?_
  rw [List.append_assoc]
  exact List.perm_append_comm.append_left _

/-! ### Looking up names -/

theorem declarations_fullName_perm (s : SourceFile) :
    List.Perm (s.declarations.map (·.fullName)) s.descriptor.typeNames := by
  refine ((declarations_perm s).map (·.fullName)).trans ?_
  rw [List.map_append, List.map_map, List.map_map]
  exact List.Perm.refl _

theorem find?_eq_some_iff {r : Registry} {name : String} {e : Declaration}
    (hn : (r.declarations.map (·.fullName)).Nodup) :
    r.find? name = some e ↔ e ∈ r.declarations ∧ e.fullName = name :=
  getLast?_filter_eq_some_iff hn

/-! ### The registry of a run -/

variable {options : Options} {request : Descriptor.Request} {annotations : Annotated.Request}

/-- The registry of a run. -/
def registryOf (options : Options) (request : Descriptor.Request)
    (annotations : Annotated.Request) : Registry :=
  .ofFiles (sourceFiles options request annotations)

theorem registryOf_declarations : (registryOf options request annotations).declarations =
    request.files.flatMap fun d =>
      (SourceFile.ofDescriptor options request annotations d).declarations := by
  rw [registryOf, Registry.ofFiles, sourceFiles, List.flatMap_map]

theorem registryOf_fullName_perm (options : Options) (request : Descriptor.Request)
    (annotations : Annotated.Request) :
    List.Perm ((registryOf options request annotations).declarations.map (·.fullName))
      request.typeNames := by
  rw [registryOf_declarations, List.map_flatMap]
  apply List.Perm.flatMap_left
  intro d _
  exact declarations_fullName_perm (.ofDescriptor options request annotations d)

theorem nodup_registryOf (hn : request.typeNames.Nodup) :
    ((registryOf options request annotations).declarations.map (·.fullName)).Nodup :=
  (registryOf_fullName_perm options request annotations).nodup_iff.mpr hn

/-- The registry finds every name that the request declares, and no other. -/
theorem resolve?_eq_none_iff {typeName : String} :
    (registryOf options request annotations).resolve? typeName = none ↔
      referredName typeName ∉ request.typeNames := by
  unfold Registry.resolve? Registry.find?
  rw [List.getLast?_eq_none_iff, List.filter_eq_nil_iff,
    ← (registryOf_fullName_perm options request annotations).mem_iff, List.mem_map]
  simp

theorem exists_of_resolve? {typeName : String} {e : Declaration}
    (h : (registryOf options request annotations).resolve? typeName = some e) :
    e.fullName = referredName typeName ∧ ∃ d ∈ request.files,
      (∃ p ∈ d.namedMessages, e = messageDeclaration
        (SourceFile.ofDescriptor options request annotations d).beanPackage p) ∨
      (∃ p ∈ d.namedEnumerations, e = enumerationDeclaration
        (SourceFile.ofDescriptor options request annotations d).beanPackage p) := by
  have hmem := List.mem_filter.mp (List.mem_of_getLast? h)
  have hname : e.fullName = referredName typeName := of_decide_eq_true hmem.2
  refine ⟨hname, ?_⟩
  rw [registryOf_declarations] at hmem
  obtain ⟨d, hd, he⟩ := List.mem_flatMap.mp hmem.1
  have hnamed := (declarations_perm (.ofDescriptor options request annotations d)).mem_iff.mp he
  rcases List.mem_append.mp hnamed with h | h
  · obtain ⟨p, hp, rfl⟩ := List.mem_map.mp h
    exact ⟨d, hd, Or.inl ⟨p, hp, rfl⟩⟩
  · obtain ⟨p, hp, rfl⟩ := List.mem_map.mp h
    exact ⟨d, hd, Or.inr ⟨p, hp, rfl⟩⟩

theorem eq_of_mem_typeNames (hn : request.typeNames.Nodup) {d d' : Descriptor.File}
    (hd : d ∈ request.files) (hd' : d' ∈ request.files) {name : String}
    (h : name ∈ d.typeNames) (h' : name ∈ d'.typeNames) : d = d' := by
  have hpairs := (List.nodup_flatMap.mp hn).2
  by_contra hne
  have : Std.Symm (Function.onFun List.Disjoint Descriptor.File.typeNames) :=
    ⟨fun _ _ h => List.disjoint_symm h⟩
  exact hpairs.forall hd hd' hne h h'

end Contract

end RestScaffold
