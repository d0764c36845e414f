import Mathlib.Data.List.TakeDrop
import Mathlib.Data.List.TakeWhile
import RestScaffold.Target.Skeleton

/-! # Class names

A class is named by its package and its name in that package; a source names it by its import path
once and by its simple name from then on.

* `ClassName`, `ClassName.path`: a class and the path by which it is imported;
* `importOwner_path`, `simpleName_path`: the parts of the path of a class whose name has no dot;
* `ClassName.Foreign`: the classes that a source of a package cannot name without an import;
* `importedPaths`, `importLines_eq`: the paths of a list for which there is an import line. -/

namespace RestScaffold

/-! ### Paths -/

namespace Text

/-- Nothing stops a scan for a separator that does not occur. -/
theorem forall_ne_of_not_mem {sep : Char} {cs : List Char} (h : sep ∉ cs) :
    ∀ c ∈ cs.reverse, (c != sep) = true :=
  fun _ hc => bne_iff_ne.mpr fun hsep => h (hsep ▸ List.mem_reverse.mp hc)

/-- A text is cut at a separator behind which there is no other. -/
theorem cutAtLast_eq_some {sep : Char} {before after s : String}
    (hs : s.toList = before.toList ++ sep :: after.toList) (h : sep ∉ after.toList) :
    cutAtLast sep s = some (before, after) := by
  have hspan : s.toList.reverse.span (· != sep) =
      (after.toList.reverse, sep :: before.toList.reverse) := by
    rw [hs, List.reverse_append, List.reverse_cons, List.append_assoc,
      List.span_eq_takeWhile_dropWhile, List.takeWhile_append_of_pos (forall_ne_of_not_mem h),
      List.dropWhile_append_of_pos (forall_ne_of_not_mem h)]
    simp
  rw [cutAtLast, hspan]
  simp

theorem cutAtLast_eq_none {sep : Char} {s : String} (h : sep ∉ s.toList) :
    cutAtLast sep s = none := by
  have hspan : s.toList.reverse.span (· != sep) = (s.toList.reverse, []) := by
    rw [List.span_eq_takeWhile_dropWhile, Prod.mk.injEq]
    have hall := forall_ne_of_not_mem h
    exact ⟨List.takeWhile_eq_self_iff.mpr hall, List.dropWhile_eq_nil_iff.mpr hall⟩
  rw [cutAtLast, hspan]

end Text

namespace Target

/-- A class: the package that it is in, and its name there. -/
structure ClassName where
  package : String
  name : String
deriving DecidableEq

/-- The last part of an import path. -/
def simpleName (path : String) : String :=
  match Text.cutAtLast '.' path with
  | some (_, name) => name
  | none => path

namespace ClassName

/-- The path by which the class is imported. -/
def path (c : ClassName) : String :=
  Naming.qualify c.package c.name

/-- The name is a single part of a path. -/
def Plain (c : ClassName) : Prop :=
  '.' ∉ c.name.toList

instance (c : ClassName) : Decidable c.Plain :=
  inferInstanceAs (Decidable ('.' ∉ c.name.toList))

/-- A source of `package` needs an import for the class: it is neither of that package nor of
`java.lang`. -/
def Foreign (package : String) (c : ClassName) : Prop :=
  c.package ≠ package ∧ c.package ≠ "java.lang"

instance (package : String) (c : ClassName) : Decidable (c.Foreign package) :=
  inferInstanceAs (Decidable (_ ∧ _))

variable {c : ClassName}

theorem path_of_unnamed (h : c.package = "") : c.path = c.name := by
  rw [path, h, Naming.qualify_empty]

theorem toList_path_of_named (h : c.package ≠ "") :
    c.path.toList = c.package.toList ++ '.' :: c.name.toList := by
  rw [path, Naming.qualify_of_ne_empty h]
  simp

theorem importOwner_path (hc : c.Plain) : importOwner c.path = c.package := by
  by_cases h : c.package = ""
  · rw [importOwner, path_of_unnamed h, Text.cutAtLast_eq_none hc, h]
  · rw [importOwner, Text.cutAtLast_eq_some (toList_path_of_named h) hc]

theorem simpleName_path (hc : c.Plain) : simpleName c.path = c.name := by
  by_cases h : c.package = ""
  · rw [simpleName, path_of_unnamed h, Text.cutAtLast_eq_none hc]
  · rw [simpleName, Text.cutAtLast_eq_some (toList_path_of_named h) hc]

end ClassName

/-- The class of a declaration. -/
def className (t : Contract.TypeRef) : ClassName :=
  ⟨t.package, t.name⟩

theorem path_className (t : Contract.TypeRef) : (className t).path = t.importPath := rfl

/-! ### Import lines -/

/-- The line that imports a path. -/
def importLine (path : String) : String :=
  "import " ++ path ++ ";"

/-- There is an import line for the path in a source of `package`. -/
def IsImported (package path : String) : Prop :=
  importOwner path ≠ package ∧ importOwner path ≠ "java.lang"

instance (package path : String) : Decidable (IsImported package path) :=
  inferInstanceAs (Decidable (_ ∧ _))

/-- The paths of `imports` for which a source of `package` has an import line. -/
def importedPaths (package : String) (imports : List String) : List String :=
  imports.filter fun path => IsImported package path

theorem mem_importedPaths {package path : String} {imports : List String} :
    path ∈ importedPaths package imports ↔ path ∈ imports ∧ IsImported package path := by
  simp [importedPaths]

theorem importLines_eq (package : String) (imports : List String) :
    importLines package imports = (importedPaths package imports).map importLine := by
  unfold importLines importedPaths
  congr 1
  refine List.filter_congr fun path _ => ?_
  exact (Bool.decide_and _ _).symm

theorem isImported_path_iff {package : String} {c : ClassName} (hc : c.Plain) :
    IsImported package c.path ↔ c.Foreign package := by
  rw [IsImported, ClassName.Foreign, ClassName.importOwner_path hc]

end Target

end RestScaffold
