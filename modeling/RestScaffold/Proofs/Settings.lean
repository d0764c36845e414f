import Mathlib.Data.List.TakeDrop
import Mathlib.Data.List.TakeWhile
import RestScaffold.Options
import RestScaffold.Proofs.Sequencing
import RestScaffold.Proofs.Trimming

/-! # Settings

How a part of the generator's parameter writes a setting, told without the function that reads it.

* `IsPackage`, `isPackage_iff`: names with dots between them;
* `Assigns`, `assigns_iff`: a part that is cut into key and value at its first equals sign;
* `Writes`, `Setting.parse_eq_ok_iff`: the settings and the parts that write them;
* `Offends`, `Setting.parse_eq_error_iff`: what is wrong with any other part;
* `IsParts`, `isParts_iff`: the parts of a parameter. -/

namespace RestScaffold

open Naming (isPackageSegment isPackageName)

/-! ### Texts that are cut -/

namespace Text

theorem cutAtFirst_eq_some_iff {sep : Char} {s before after : String} :
    cutAtFirst sep s = some (before, after) ↔
      s.toList = before.toList ++ sep :: after.toList ∧ sep ∉ before.toList := by
  rw [cutAtFirst, List.span_eq_takeWhile_dropWhile]
  constructor
  · intro h
    have hcut : s.toList = _ := (List.takeWhile_append_dropWhile (p := (· != sep))).symm
    have hfirst := List.head?_dropWhile_not (· != sep) s.toList
    cases hdrop : s.toList.dropWhile (· != sep) with
    | nil => simp [hdrop] at h
    | cons c cs =>
        rw [hdrop] at h hcut hfirst
        obtain ⟨rfl, rfl⟩ := Prod.mk.inj (Option.some.inj h)
        obtain rfl : c = sep := by simpa using hfirst
        rw [String.toList_ofList, String.toList_ofList]
        exact ⟨hcut, fun hmem => by simpa using List.mem_takeWhile_imp hmem⟩
  · rintro ⟨hs, hsep⟩
    have hbefore : ∀ c ∈ before.toList, (c != sep) = true :=
      fun c hc => bne_iff_ne.mpr fun heq => hsep (heq ▸ hc)
    rw [hs, List.takeWhile_append_of_pos hbefore, List.dropWhile_append_of_pos hbefore]
    simp

theorem cutAtFirst_eq_none_iff {sep : Char} {s : String} :
    cutAtFirst sep s = none ↔ sep ∉ s.toList := by
  constructor
  · intro h hmem
    obtain ⟨before, after, hs, hsep⟩ := List.eq_append_cons_of_mem hmem
    have hcut : cutAtFirst sep s = some (String.ofList before, String.ofList after) :=
      cutAtFirst_eq_some_iff.mpr (by simpa using ⟨hs, hsep⟩)
    exact absurd (h.symm.trans hcut) (by simp)
  · intro h
    cases hcut : cutAtFirst sep s with
    | none => rfl
    | some p =>
        rw [(cutAtFirst_eq_some_iff.mp hcut).1] at h
        exact absurd (by simp) h

end Text

/-! ### Packages -/

/-- One or more names with dots between them. -/
def IsPackage (isName : List Char → Bool) (s : String) : Prop :=
  ∃ names, names ≠ [] ∧ (∀ name ∈ names, isName name = true ∧ '.' ∉ name) ∧
    s.toList = ['.'].intercalate names

theorem isPackage_iff {s : String} : IsPackage isPackageSegment s ↔ isPackageName s = true := by
  unfold IsPackage isPackageName
  rw [List.all_eq_true]
  constructor
  · rintro ⟨names, hne, hnames, hs⟩
    obtain rfl := splitOn_eq_iff.mpr ⟨hne, fun name h => (hnames name h).2, hs.symm⟩
    exact fun name h => (hnames name h).1
  · intro hall
    obtain ⟨hne, hnames, hs⟩ := splitOn_eq_iff.mp (rfl : s.toList.splitOn '.' = _)
    exact ⟨_, hne, fun name h => ⟨hall name h, hnames name h⟩, hs.symm⟩

/-! ### Settings -/

/-- What a setting is for. -/
inductive Key where
  | basePackage
  | beanPackage
  | servicePackage
  | controllerPackage
  | verbose
deriving DecidableEq

/-- How a key is written. -/
def Key.name : Key → String
  | .basePackage => "package"
  | .beanPackage => "dto_package"
  | .servicePackage => "service_package"
  | .controllerPackage => "controller_package"
  | .verbose => "verbose"

namespace Setting

/-- The key of a setting. -/
def key : Setting → Key
  | .basePackage _ => .basePackage
  | .beanPackage _ => .beanPackage
  | .servicePackage _ => .servicePackage
  | .controllerPackage _ => .controllerPackage
  | .verbose _ => .verbose

/-- How the value of a setting is written. -/
def value : Setting → String
  | .basePackage name | .beanPackage name | .servicePackage name | .controllerPackage name => name
  | .verbose on => if on then "true" else "false"

/-- The package that a setting gives. -/
def package? : Setting → Option String
  | .basePackage name | .beanPackage name | .servicePackage name | .controllerPackage name =>
    some name
  | .verbose _ => none

end Setting

/-- The part has the key before its first equals sign and the value behind it. Blanks around them
do not count. -/
def Assigns (part key value : String) : Prop :=
  ∃ before after, part.toList = before ++ '=' :: after ∧ '=' ∉ before ∧
    Text.Trims before key ∧ Text.Trims after value

/-- The part writes the setting. -/
inductive Writes (isName : List Char → Bool) (part : String) : Setting → Prop where
  | alone (h : part = Key.verbose.name) : Writes isName part (.verbose true)
  | assigned {s : Setting} (h : Assigns part s.key.name s.value)
      (hs : ∀ name, s.package? = some name → IsPackage isName name) : Writes isName part s

theorem assigns_iff {part key value : String} : Assigns part key value ↔
    ∃ before after, Text.cutAtFirst '=' part = some (before, after) ∧ Text.trim before = key ∧
      Text.trim after = value := by
  constructor
  · rintro ⟨before, after, hpart, heq, hkey, hvalue⟩
    refine ⟨String.ofList before, String.ofList after, Text.cutAtFirst_eq_some_iff.mpr ?_, ?_, ?_⟩
    · simpa using ⟨hpart, heq⟩
    · rw [Text.trim, String.toList_ofList, Text.trims_iff.mp hkey]
    · rw [Text.trim, String.toList_ofList, Text.trims_iff.mp hvalue]
  · rintro ⟨before, after, hcut, hkey, hvalue⟩
    obtain ⟨hpart, heq⟩ := Text.cutAtFirst_eq_some_iff.mp hcut
    exact ⟨_, _, hpart, heq, Text.trims_iff.mpr hkey, Text.trims_iff.mpr hvalue⟩

/-- What is wrong with a part that writes no setting. -/
inductive Offends (part : String) : ParameterProblem → Prop where
  | noValue {key : Key} (h : part = key.name) (hkey : key ≠ .verbose) : Offends part .missingValue
  | noKey (h : '=' ∉ part.toList) (hkey : ∀ key : Key, part ≠ key.name) :
      Offends part .unknownOption
  | unknownKey {key value : String} (h : Assigns part key value) (hkey : ∀ k : Key, key ≠ k.name) :
      Offends part .unknownOption
  | notBoolean {value : String} (h : Assigns part Key.verbose.name value) (ht : value ≠ "true")
      (hf : value ≠ "false") : Offends part .notBoolean
  | notPackage {key : Key} {value : String} (h : Assigns part key.name value)
      (hkey : key ≠ .verbose) (hv : ¬ IsPackage isPackageSegment value) : Offends part .notPackage

/-! ### What is read -/

section

variable {part key value : String}

theorem Setting.parse_of_assigns (h : Assigns part key value) :
    Setting.parse part = (Setting.ofKeyValue key value).mapError (.invalidParameter part) := by
  obtain ⟨before, after, hcut, rfl, rfl⟩ := assigns_iff.mp h
  simp only [Setting.parse, hcut]

theorem Setting.parse_of_not_mem (h : '=' ∉ part.toList) :
    Setting.parse part = (Setting.ofKey part).mapError (.invalidParameter part) := by
  simp only [Setting.parse, Text.cutAtFirst_eq_none_iff.mpr h]

theorem Key.not_mem_name (k : Key) : '=' ∉ k.name.toList := by
  cases k <;> decide

theorem lookup_of_unknown (h : ∀ k : Key, key ≠ k.name) :
    Setting.packageKeys.lookup key = none := by
  have hentries : ∀ entry ∈ Setting.packageKeys, ∃ k : Key, entry.1 = k.name := by
    intro entry hentry
    simp only [Setting.packageKeys, List.mem_cons, List.not_mem_nil, or_false] at hentry
    rcases hentry with rfl | rfl | rfl | rfl
    · exact ⟨.basePackage, rfl⟩
    · exact ⟨.beanPackage, rfl⟩
    · exact ⟨.servicePackage, rfl⟩
    · exact ⟨.controllerPackage, rfl⟩
  rw [List.lookup_eq_none_iff]
  intro entry hentry
  obtain ⟨k, hk⟩ := hentries entry hentry
  rw [hk]
  simpa using h k

theorem Setting.parse_of_writes {s : Setting} (h : Writes isPackageSegment part s) :
    Setting.parse part = .ok s := by
  cases h with
  | alone h =>
      rw [h, parse_of_not_mem (Key.not_mem_name .verbose)]
      rfl
  | assigned h hs =>
      rw [parse_of_assigns h, mapError_eq_ok_iff]
      cases s with
      | verbose on => cases on <;> rfl
      | basePackage name | beanPackage name | servicePackage name | controllerPackage name =>
          exact if_pos (isPackage_iff.mp (hs name rfl))

theorem Setting.parse_of_offends {problem : ParameterProblem} (h : Offends part problem) :
    Setting.parse part = .error (.invalidParameter part problem) := by
  cases h with
  | @noValue k h hkey =>
      rw [h, parse_of_not_mem (Key.not_mem_name k)]
      cases k with
      | verbose => exact absurd rfl hkey
      | basePackage | beanPackage | servicePackage | controllerPackage => rfl
  | noKey h hkey =>
      have hverbose : part ≠ "verbose" := hkey .verbose
      rw [parse_of_not_mem h, Setting.ofKey, if_neg hverbose, lookup_of_unknown hkey]
      rfl
  | @unknownKey key value h hkey =>
      have hverbose : key ≠ "verbose" := hkey .verbose
      rw [parse_of_assigns h, Setting.ofKeyValue, if_neg hverbose, lookup_of_unknown hkey]
      rfl
  | @notBoolean value h ht hf =>
      have hverbose : Key.verbose.name = "verbose" := rfl
      rw [parse_of_assigns h, Setting.ofKeyValue, if_pos hverbose, if_neg ht, if_neg hf]
      rfl
  | @notPackage k value h hkey hv =>
      have hname : ¬ isPackageName value = true := mt isPackage_iff.mpr hv
      rw [parse_of_assigns h, mapError_eq_error_iff]
      refine ⟨.notPackage, ?_, rfl⟩
      cases k with
      | verbose => exact absurd rfl hkey
      | basePackage | beanPackage | servicePackage | controllerPackage => exact if_neg hname

/-- A part that is cut into a key and a value writes a setting, or something is wrong with it. -/
theorem writes_or_offends_of_assigns (h : Assigns part key value) :
    (∃ s, Writes isPackageSegment part s) ∨ ∃ problem, Offends part problem := by
  by_cases hknown : ∃ k : Key, key = k.name
  · obtain ⟨k, rfl⟩ := hknown
    by_cases hverbose : k = .verbose
    · subst hverbose
      by_cases ht : value = "true"
      · subst ht
        exact .inl ⟨.verbose true, .assigned h (by simp [Setting.package?])⟩
      · by_cases hf : value = "false"
        · subst hf
          exact .inl ⟨.verbose false, .assigned h (by simp [Setting.package?])⟩
        · exact .inr ⟨_, .notBoolean h ht hf⟩
    · by_cases hpackage : IsPackage isPackageSegment value
      · have hs : ∀ name, some value = some name → IsPackage isPackageSegment name := by
          rintro _ ⟨⟩
          exact hpackage
        left
        cases k with
        | verbose => exact absurd rfl hverbose
        | basePackage => exact ⟨.basePackage value, .assigned h hs⟩
        | beanPackage => exact ⟨.beanPackage value, .assigned h hs⟩
        | servicePackage => exact ⟨.servicePackage value, .assigned h hs⟩
        | controllerPackage => exact ⟨.controllerPackage value, .assigned h hs⟩
      · exact .inr ⟨_, .notPackage h hverbose hpackage⟩
  · exact .inr ⟨_, .unknownKey h fun k hk => hknown ⟨k, hk⟩⟩

theorem writes_or_offends (part : String) :
    (∃ s, Writes isPackageSegment part s) ∨ ∃ problem, Offends part problem := by
  by_cases heq : '=' ∈ part.toList
  · obtain ⟨before, after, hpart, hbefore⟩ := List.eq_append_cons_of_mem heq
    exact writes_or_offends_of_assigns
      ⟨before, after, hpart, hbefore, Text.trims_iff.mpr rfl, Text.trims_iff.mpr rfl⟩
  · by_cases hknown : ∃ k : Key, part = k.name
    · obtain ⟨k, hk⟩ := hknown
      by_cases hverbose : k = .verbose
      · subst hverbose
        exact .inl ⟨_, .alone hk⟩
      · exact .inr ⟨_, .noValue hk hverbose⟩
    · exact .inr ⟨_, .noKey heq fun k hk => hknown ⟨k, hk⟩⟩

theorem Setting.parse_eq_ok_iff {s : Setting} :
    Setting.parse part = .ok s ↔ Writes isPackageSegment part s := by
  refine ⟨fun h => ?_, parse_of_writes⟩
  rcases writes_or_offends part with ⟨s', hs'⟩ | ⟨problem, hproblem⟩
  · obtain rfl := Except.ok.inj (h.symm.trans (parse_of_writes hs'))
    exact hs'
  · exact absurd (h.symm.trans (parse_of_offends hproblem)) (by simp)

/-- A part that writes no setting is refused for what is wrong with it. -/
theorem Setting.parse_eq_error_iff {fault : Fault} : Setting.parse part = .error fault ↔
    ∃ problem, Offends part problem ∧ fault = .invalidParameter part problem := by
  constructor
  · intro h
    rcases writes_or_offends part with ⟨s, hs⟩ | ⟨problem, hproblem⟩
    · exact absurd (h.symm.trans (parse_of_writes hs)) (by simp)
    · exact ⟨problem, hproblem, Except.error.inj (h.symm.trans (parse_of_offends hproblem))⟩
  · rintro ⟨problem, hproblem, rfl⟩
    exact parse_of_offends hproblem

end

/-! ### Parts -/

/-- The parts of a parameter: the texts between its commas without the blanks around them, those
that are not empty. -/
def IsParts (parameter : String) (parts : List String) : Prop :=
  ∃ pieces texts, pieces ≠ [] ∧ (∀ piece ∈ pieces, ',' ∉ piece) ∧
    parameter.toList = [','].intercalate pieces ∧ List.Forall₂ Text.Trims pieces texts ∧
    parts = texts.filter (· ≠ "")

theorem isParts_iff {parameter : String} {parts : List String} :
    IsParts parameter parts ↔ parts = Options.parts parameter := by
  have htexts : ∀ {pieces : List (List Char)} {texts : List String},
      List.Forall₂ Text.Trims pieces texts ↔
        pieces.map (fun cs => String.ofList (Text.trimEnds Text.isBlank cs)) = texts :=
    forall₂_iff_map_eq fun cs s => @Text.trims_iff cs s
  have hparts : Options.parts parameter = ((parameter.toList.splitOn ',').map fun cs =>
      String.ofList (Text.trimEnds Text.isBlank cs)).filter (· ≠ "") := by
    rw [Options.parts, Text.splitAt, List.map_map]
    congr 2
    funext cs
    rw [Function.comp_apply, Text.trim, String.toList_ofList]
  rw [hparts]
  constructor
  · rintro ⟨pieces, texts, hne, hpieces, hparameter, hall, rfl⟩
    obtain rfl := splitOn_eq_iff.mpr ⟨hne, hpieces, hparameter.symm⟩
    rw [htexts.mp hall]
  · rintro rfl
    obtain ⟨hne, hpieces, hparameter⟩ := splitOn_eq_iff.mp (rfl : parameter.toList.splitOn ',' = _)
    exact ⟨_, _, hne, hpieces, hparameter.symm, htexts.mpr rfl, rfl⟩

end RestScaffold
