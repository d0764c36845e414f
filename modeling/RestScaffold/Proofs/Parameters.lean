import RestScaffold.Proofs.FirstFault
import RestScaffold.Proofs.Settings

/-! # Parameters

The options that a parameter asks for are the defaults, with each setting replaced by the last part
that writes it. The first part that writes no setting is the fault.

* `Options.setting?`, `setting?_apply`: options key by key, and what one setting changes;
* `TakesLast`, `takesLast_iff`: the options that take the last setting of each key;
* `Parsed`, `Composes`: what a parameter is parsed to, and what two are that are joined by a comma;
* `parameters_follow_grammar`: both hold of all parameters. -/

namespace RestScaffold

open Naming (isPackageSegment isPackageName)

/-! ### Options by key -/

namespace Options

/-- What the options have under a key, as the setting that gives it. -/
def setting? (o : Options) : Key → Option Setting
  | .basePackage => o.basePackage.map .basePackage
  | .beanPackage => some (.beanPackage o.beanPackage)
  | .servicePackage => some (.servicePackage o.servicePackage)
  | .controllerPackage => some (.controllerPackage o.controllerPackage)
  | .verbose => some (.verbose o.verbose)

theorem eq_of_setting? {o o' : Options} (h : ∀ key, o.setting? key = o'.setting? key) :
    o = o' := by
  obtain ⟨base, bean, service, controller, verbose⟩ := o
  obtain ⟨base', bean', service', controller', verbose'⟩ := o'
  have hbase := h .basePackage
  have hbean := h .beanPackage
  have hservice := h .servicePackage
  have hcontroller := h .controllerPackage
  have hverbose := h .verbose
  simp only [setting?, Option.some.injEq, Setting.beanPackage.injEq, Setting.servicePackage.injEq,
    Setting.controllerPackage.injEq, Setting.verbose.injEq] at hbean hservice hcontroller hverbose
  have hmap : Function.Injective Setting.basePackage := fun _ _ heq => Setting.basePackage.inj heq
  rw [Options.mk.injEq]
  exact ⟨Option.map_injective hmap hbase, hbean, hservice, hcontroller, hverbose⟩

/-- A setting changes what is under its key and nothing else. -/
theorem setting?_apply (o : Options) (s : Setting) (key : Key) :
    (o.apply s).setting? key = if s.key = key then some s else o.setting? key := by
  cases s <;> cases key <;> rfl

theorem setting?_foldl_of_forall_ne {ss : List Setting} {key : Key}
    (h : ∀ s ∈ ss, s.key ≠ key) (o : Options) :
    (ss.foldl apply o).setting? key = o.setting? key := by
  induction ss generalizing o with
  | nil => rfl
  | cons s ss ih =>
      obtain ⟨hs, hss⟩ := List.forall_mem_cons.mp h
      rw [List.foldl_cons, ih hss, setting?_apply, if_neg hs]

/-- Of settings that are applied in order, the last one of a key counts. -/
theorem setting?_foldl_of_isLast {ss : List Setting} {key : Key} {s : Setting}
    (h : IsLast (·.key = key) ss s) (o : Options) : (ss.foldl apply o).setting? key = some s := by
  obtain ⟨before, after, rfl, hkey, hafter⟩ := h
  rw [List.foldl_append, List.foldl_cons, setting?_foldl_of_forall_ne hafter, setting?_apply,
    if_pos hkey]

/-- The packages that options give. -/
def packages (o : Options) : List String :=
  o.basePackage.toList ++ [o.beanPackage, o.servicePackage, o.controllerPackage]

theorem exists_setting?_of_mem_packages {o : Options} {name : String} (h : name ∈ o.packages) :
    ∃ key s, o.setting? key = some s ∧ s.package? = some name := by
  simp only [packages, List.mem_append, Option.mem_toList, List.mem_cons, List.not_mem_nil,
    or_false] at h
  rcases h with h | rfl | rfl | rfl
  · exact ⟨.basePackage, .basePackage name, by rw [setting?, h, Option.map_some], rfl⟩
  · exact ⟨.beanPackage, _, rfl, rfl⟩
  · exact ⟨.servicePackage, _, rfl, rfl⟩
  · exact ⟨.controllerPackage, _, rfl, rfl⟩

end Options

/-- The options have under each key what the last setting of that key gives. Under other keys they
have the defaults. -/
structure TakesLast (ss : List Setting) (o : Options) : Prop where
  given : ∀ key s, IsLast (·.key = key) ss s → o.setting? key = some s
  default : ∀ key, (∀ s ∈ ss, s.key ≠ key) → o.setting? key = ({} : Options).setting? key

theorem takesLast_foldl (ss : List Setting) : TakesLast ss (ss.foldl Options.apply {}) where
  given := fun _ _ h => Options.setting?_foldl_of_isLast h {}
  default := fun _ h => Options.setting?_foldl_of_forall_ne h {}

theorem TakesLast.unique {ss : List Setting} {o o' : Options} (h : TakesLast ss o)
    (h' : TakesLast ss o') : o = o' := by
  refine Options.eq_of_setting? fun key => ?_
  by_cases hkey : ∃ s ∈ ss, s.key = key
  · obtain ⟨s, hs⟩ := exists_isLast hkey
    rw [h.given key s hs, h'.given key s hs]
  · have hne : ∀ s ∈ ss, s.key ≠ key := fun s hs heq => hkey ⟨s, hs, heq⟩
    rw [h.default key hne, h'.default key hne]

/-- Settings make one set of options, which applying them in order gives. -/
theorem takesLast_iff {ss : List Setting} {o : Options} :
    TakesLast ss o ↔ ss.foldl Options.apply {} = o := by
  constructor
  · exact fun h => (takesLast_foldl ss).unique h
  · rintro rfl
    exact takesLast_foldl ss

/-! ### Parameters -/

/-- What a parameter with the given parts is parsed to. -/
structure Parsed (parameter : Option String) (parts : List String) : Prop where
  accepted : (∃ o, Options.parse parameter = .ok o) ↔
    ∀ part ∈ parts, ∃ s, Writes isPackageSegment part s
  result : ∀ o, Options.parse parameter = .ok o ↔
    ∃ ss, List.Forall₂ (Writes isPackageSegment) parts ss ∧ TakesLast ss o
  /-- The fault is that of the first part that writes no setting. -/
  refused : ∀ fault, Options.parse parameter = .error fault ↔ ∃ part problem,
    IsFirst (fun part => ¬ ∃ s, Writes isPackageSegment part s) parts part ∧
      Offends part problem ∧ fault = .invalidParameter part problem
  packages : ∀ o, Options.parse parameter = .ok o → ∀ name ∈ o.packages,
    IsPackage isPackageSegment name ∧ name ≠ ""

section

variable {parameter : Option String} {fault : Fault} {o : Options}

theorem Options.parse_eq_ok_iff : Options.parse parameter = .ok o ↔
    ∃ ss, (Options.parts (parameter.getD "")).mapM Setting.parse = .ok ss ∧
      ss.foldl Options.apply {} = o := by
  unfold Options.parse
  simp only [bind_eq_ok_iff, pure_eq_ok_iff]

theorem Options.parse_eq_error_iff : Options.parse parameter = .error fault ↔
    (Options.parts (parameter.getD "")).mapM Setting.parse = .error fault := by
  unfold Options.parse
  cases (Options.parts (parameter.getD "")).mapM Setting.parse <;>
    simp [bind, Except.bind, pure, Except.pure]

theorem Options.parse_eq_ok_iff_writes : Options.parse parameter = .ok o ↔ ∃ ss,
    List.Forall₂ (Writes isPackageSegment) (Options.parts (parameter.getD "")) ss ∧
      TakesLast ss o := by
  simp only [Options.parse_eq_ok_iff, mapM_eq_ok_iff, Setting.parse_eq_ok_iff, takesLast_iff]

theorem Setting.fails_iff_not_writes {part : String} :
    (∃ fault, Setting.parse part = .error fault) ↔ ¬ ∃ s, Writes isPackageSegment part s := by
  simp only [← Setting.parse_eq_ok_iff]
  cases Setting.parse part <;> simp

theorem Options.parse_eq_error_iff_offends : Options.parse parameter = .error fault ↔ ∃ part problem,
    IsFirst (fun part => ¬ ∃ s, Writes isPackageSegment part s)
      (Options.parts (parameter.getD "")) part ∧
    Offends part problem ∧ fault = .invalidParameter part problem := by
  rw [Options.parse_eq_error_iff, mapM_eq_error_iff]
  simp only [Setting.fails_iff_not_writes]
  simp only [Setting.parse_eq_error_iff]
  constructor
  · rintro ⟨part, hfirst, problem, hproblem, hfault⟩
    exact ⟨part, problem, hfirst, hproblem, hfault⟩
  · rintro ⟨part, problem, hfirst, hproblem, hfault⟩
    exact ⟨part, hfirst, problem, hproblem, hfault⟩

end

/-- The packages of options are names of packages, those that stand by default included. -/
theorem isPackage_of_takesLast {parts : List String} {ss : List Setting} {o : Options}
    (hwrites : List.Forall₂ (Writes isPackageSegment) parts ss) (h : TakesLast ss o) {name : String}
    (hname : name ∈ o.packages) : IsPackage isPackageSegment name := by
  obtain ⟨key, s, hs, hpackage⟩ := Options.exists_setting?_of_mem_packages hname
  by_cases hkey : ∃ s ∈ ss, s.key = key
  · obtain ⟨last, hlast⟩ := exists_isLast hkey
    obtain rfl := Option.some.inj (hs.symm.trans (h.given key last hlast))
    obtain ⟨before, after, rfl, -, -⟩ := hlast
    obtain ⟨part, -, hpart⟩ := exists_left_of_forall₂ hwrites s (by simp)
    cases hpart with
    | alone _ => exact absurd hpackage (by simp [Setting.package?])
    | assigned _ hall => exact hall name hpackage
  · rw [h.default key fun s hs heq => hkey ⟨s, hs, heq⟩] at hs
    cases key with
    | basePackage => exact absurd hs (by simp [Options.setting?])
    | verbose =>
        obtain rfl := Option.some.inj hs
        exact absurd hpackage (by simp [Setting.package?])
    | beanPackage | servicePackage | controllerPackage =>
        obtain rfl := Option.some.inj hs
        obtain rfl := Option.some.inj hpackage
        exact isPackage_iff.mpr (by decide +kernel)

theorem isPackageName_of_mem_packages {parameter : Option String} {options : Options}
    (ho : Options.parse parameter = .ok options) {name : String} (h : name ∈ options.packages) :
    isPackageName name = true := by
  obtain ⟨ss, hwrites, hlast⟩ := Options.parse_eq_ok_iff_writes.mp ho
  exact isPackage_iff.mp (isPackage_of_takesLast hwrites hlast h)

theorem Options.parsed (parameter : Option String) :
    Parsed parameter (Options.parts (parameter.getD "")) where
  accepted := by
    constructor
    · rintro ⟨o, ho⟩ part hpart
      obtain ⟨ss, hwrites, -⟩ := Options.parse_eq_ok_iff_writes.mp ho
      obtain ⟨s, -, hs⟩ := exists_right_of_forall₂ hwrites part hpart
      exact ⟨s, hs⟩
    · intro h
      obtain ⟨ss, hwrites⟩ := exists_forall₂ h
      exact ⟨_, Options.parse_eq_ok_iff_writes.mpr ⟨ss, hwrites, takesLast_foldl ss⟩⟩
  result := fun _ => Options.parse_eq_ok_iff_writes
  refused := fun _ => Options.parse_eq_error_iff_offends
  packages := by
    intro o ho name hname
    have hpackage := isPackageName_of_mem_packages ho hname
    refine ⟨isPackage_iff.mpr hpackage, ?_⟩
    rintro rfl
    exact absurd hpackage (by decide)

/-! ### Parameters that are joined -/

/-- A part of the parameter gives a setting of the key. -/
def Gives (parameter : String) (key : Key) : Prop :=
  ∃ parts, IsParts parameter parts ∧ ∃ part ∈ parts, ∃ s,
    Writes isPackageSegment part s ∧ s.key = key

/-- What two parameters are parsed to that are joined by a comma. -/
structure Composes (p q : String) : Prop where
  first : ∀ fault, Options.parse (some p) = .error fault →
    Options.parse (some (p ++ "," ++ q)) = .error fault
  second : ∀ o fault, Options.parse (some p) = .ok o → Options.parse (some q) = .error fault →
    Options.parse (some (p ++ "," ++ q)) = .error fault
  /-- The settings of the second parameter replace those of the first. -/
  overlay : ∀ o o', Options.parse (some p) = .ok o → Options.parse (some q) = .ok o' →
    ∃ both, Options.parse (some (p ++ "," ++ q)) = .ok both ∧ ∀ key,
      (Gives q key → both.setting? key = o'.setting? key) ∧
      (¬ Gives q key → both.setting? key = o.setting? key)

theorem Options.parts_append (p q : String) :
    Options.parts (p ++ "," ++ q) = Options.parts p ++ Options.parts q := by
  have hsplit : Text.splitAt ',' (p ++ "," ++ q) = Text.splitAt ',' p ++ Text.splitAt ',' q := by
    have htext : (p ++ "," ++ q).toList = p.toList ++ ',' :: q.toList := by simp
    rw [Text.splitAt, htext, List.splitOn_append_cons_self, List.map_append, Text.splitAt,
      Text.splitAt]
  rw [Options.parts, hsplit, List.map_append, List.filter_append, Options.parts, Options.parts]

theorem Options.parse_append (p q : String) :
    Options.parse (some (p ++ "," ++ q)) = do
      let ss ← (Options.parts p).mapM Setting.parse
      let ss' ← (Options.parts q).mapM Setting.parse
      return (ss ++ ss').foldl Options.apply {} := by
  rw [Options.parse, Option.getD_some, Options.parts_append, List.mapM_append]
  simp

theorem gives_iff {parameter : String} {ss : List Setting} {key : Key}
    (h : List.Forall₂ (Writes isPackageSegment) (Options.parts parameter) ss) :
    Gives parameter key ↔ ∃ s ∈ ss, s.key = key := by
  constructor
  · rintro ⟨parts, hparts, part, hpart, s, hs, hkey⟩
    obtain rfl := isParts_iff.mp hparts
    obtain ⟨s', hmem, hs'⟩ := exists_right_of_forall₂ h part hpart
    obtain rfl : s = s' := Except.ok.inj ((Setting.parse_of_writes hs).symm.trans (Setting.parse_of_writes hs'))
    exact ⟨s, hmem, hkey⟩
  · rintro ⟨s, hmem, hkey⟩
    obtain ⟨part, hpart, hs⟩ := exists_left_of_forall₂ h s hmem
    exact ⟨_, isParts_iff.mpr rfl, part, hpart, s, hs, hkey⟩

theorem setting?_foldl_append (ss ss' : List Setting) (key : Key) :
    ((∃ s ∈ ss', s.key = key) → ((ss ++ ss').foldl Options.apply {}).setting? key =
      (ss'.foldl Options.apply {}).setting? key) ∧
    ((¬ ∃ s ∈ ss', s.key = key) → ((ss ++ ss').foldl Options.apply {}).setting? key =
      (ss.foldl Options.apply {}).setting? key) := by
  rw [List.foldl_append]
  constructor
  · intro hkey
    obtain ⟨last, hlast⟩ := exists_isLast hkey
    rw [Options.setting?_foldl_of_isLast hlast, Options.setting?_foldl_of_isLast hlast]
  · intro hkey
    exact Options.setting?_foldl_of_forall_ne (fun s hs heq => hkey ⟨s, hs, heq⟩) _

theorem Options.composes (p q : String) : Composes p q where
  first := fun fault hp => by
    have hfirst := Options.parse_eq_error_iff.mp hp
    rw [Option.getD_some] at hfirst
    rw [Options.parse_append, hfirst]
    rfl
  second := fun o fault hp hq => by
    obtain ⟨ss, hss, -⟩ := Options.parse_eq_ok_iff.mp hp
    have hsecond := Options.parse_eq_error_iff.mp hq
    rw [Option.getD_some] at hss hsecond
    rw [Options.parse_append, hss, hsecond]
    rfl
  overlay := fun o o' hp hq => by
    obtain ⟨ss, hss, rfl⟩ := Options.parse_eq_ok_iff.mp hp
    obtain ⟨ss', hss', rfl⟩ := Options.parse_eq_ok_iff.mp hq
    rw [Option.getD_some] at hss hss'
    refine ⟨(ss ++ ss').foldl Options.apply {}, ?_, fun key => ?_⟩
    · rw [Options.parse_append, hss, hss']
      rfl
    · have hwrites : List.Forall₂ (Writes isPackageSegment) (Options.parts q) ss' :=
        (mapM_eq_ok_iff.mp hss').imp fun _ _ => Setting.parse_eq_ok_iff.mp
      rw [gives_iff hwrites]
      exact setting?_foldl_append ss ss' key

/-- **Parameters follow the grammar.** Every parameter has one list of parts. If each of them writes
a setting, the options take the last setting of each key, and otherwise the fault is that of the
first part that writes none. Of two parameters that are joined, the first is parsed first, and the
second replaces what it gives. -/
theorem parameters_follow_grammar :
    (∀ parameter : Option String, ∃ parts,
      (∀ other, IsParts (parameter.getD "") other ↔ other = parts) ∧ Parsed parameter parts) ∧
    ∀ p q, Composes p q :=
  ⟨fun parameter => ⟨_, fun _ => isParts_iff, Options.parsed parameter⟩, Options.composes⟩

/-! ### Names that are identifiers -/

/-- The words that are no identifiers. -/
def reservedWords : List String :=
  ["abstract", "assert", "boolean", "break", "byte", "case", "catch", "char", "class", "const",
   "continue", "default", "do", "double", "else", "enum", "extends", "false", "final", "finally",
   "float", "for", "goto", "if", "implements", "import", "instanceof", "int", "interface", "long",
   "native", "new", "null", "package", "private", "protected", "public", "return", "short",
   "static", "strictfp", "super", "switch", "synchronized", "this", "throw", "throws",
   "transient", "true", "try", "void", "volatile", "while", "_"]

/-- An identifier of ASCII characters: a letter, an underscore or a dollar sign, then digits as
well, but no reserved word. -/
def isIdentifier : List Char → Bool
  | [] => false
  | c :: cs => (c.isAlpha || c == '_' || c == '$') &&
      cs.all (fun d => d.isAlphanum || d == '_' || d == '$') &&
      !reservedWords.contains (String.ofList (c :: cs))

theorem not_isPackage_isIdentifier : ¬ IsPackage isIdentifier "com.int" := by
  rintro ⟨names, hne, hnames, htext⟩
  obtain rfl := splitOn_eq_iff.mpr ⟨hne, fun name h => (hnames name h).2, htext.symm⟩
  exact absurd (hnames "int".toList (by decide +kernel)).1 (by decide +kernel)

/-- The names of packages are not the lists of identifiers: a dollar sign is refused, and a
reserved word is not. -/
theorem not_forall_accepts_identifiers :
    (¬ ∀ parameter parts, IsParts parameter parts →
      (∀ part ∈ parts, ∃ s, Writes isIdentifier part s) →
        ∃ o, Options.parse (some parameter) = .ok o) ∧
    ¬ ∀ parameter parts, IsParts parameter parts →
      (∃ o, Options.parse (some parameter) = .ok o) →
        ∀ part ∈ parts, ∃ s, Writes isIdentifier part s := by
  constructor
  · intro h
    have hparts : IsParts "package=com.acme.$gen" ["package=com.acme.$gen"] :=
      isParts_iff.mpr (by decide +kernel)
    have hassigns : Assigns "package=com.acme.$gen" "package" "com.acme.$gen" :=
      assigns_iff.mpr ⟨"package", "com.acme.$gen", by decide +kernel⟩
    have hpackage : IsPackage isIdentifier "com.acme.$gen" :=
      ⟨["com".toList, "acme".toList, "$gen".toList], by decide +kernel⟩
    obtain ⟨o, ho⟩ := h _ _ hparts (by
      simp only [List.forall_mem_singleton]
      refine ⟨.basePackage "com.acme.$gen", .assigned hassigns ?_⟩
      rintro _ ⟨⟩
      exact hpackage)
    have hrefused : (Options.parse (some "package=com.acme.$gen")).isOk = false := by
      decide +kernel
    rw [ho] at hrefused
    exact Bool.noConfusion hrefused
  · intro h
    have hparts : IsParts "package=com.int" ["package=com.int"] :=
      isParts_iff.mpr (by decide +kernel)
    have hok : ∃ o, Options.parse (some "package=com.int") = .ok o :=
      exists_ok_of_isOk (by decide +kernel)
    obtain ⟨s, hs⟩ := h _ _ hparts hok _ List.mem_cons_self
    cases hs with
    | alone hpart => exact absurd hpart (by decide)
    | assigned hassigns hname =>
        have hint : Text.cutAtFirst '=' "package=com.int" = some ("package", "com.int") := by
          decide +kernel
        have htrim : Text.trim "com.int" = "com.int" := by decide +kernel
        obtain ⟨before, after, hcut, -, hvalue⟩ := assigns_iff.mp hassigns
        obtain ⟨-, rfl⟩ := Prod.mk.inj (Option.some.inj (hint.symm.trans hcut))
        rw [htrim] at hvalue
        cases s with
        | verbose on => cases on <;> exact absurd hvalue (by decide)
        | basePackage name | beanPackage name | servicePackage name | controllerPackage name =>
            obtain rfl : "com.int" = name := hvalue
            exact not_isPackage_isIdentifier (hname _ rfl)

end RestScaffold
