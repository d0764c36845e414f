import Mathlib
import RestScaffold.Proofs.DocComments
import RestScaffold.Proofs.Literals
import RestScaffold.Proofs.Resolved

/-! # Constants of an enum

What is left of an enum's constants when the comments are taken out.

* `outsideDocs`: lines without the blocks of comments;
* `escapesCodePoint`: a text with an escape that is replaced before literals are read;
* `ReadsAs`: a line that reads as the constant of a value;
* `ConstantsRead`, `CodesCount`: constants in order, and codes that count from zero;
* `StandsInSource`: the section of the constants in the source of the enum;
* `constants_read_back`: the constants of an enumeration are read back from its source. -/

namespace RestScaffold.Target

open Text (Unbroken unbroken_append isBlank splitAt)

/-! ### Lines outside of comments -/

/-- A comment opens on the line. -/
def OpensDoc (line : String) : Prop :=
  ['/', '*', '*'] <+: line.toList.dropWhile isBlank

/-- A comment that is open at the line ends there. -/
def ClosesDoc (line : String) : Prop :=
  ['*', '/'] <:+: line.toList

instance : DecidablePred OpensDoc :=
  fun _ => inferInstanceAs (Decidable (_ <+: _))

instance : DecidablePred ClosesDoc :=
  fun _ => inferInstanceAs (Decidable (_ <:+: _))

/-- The lines without those of comments: each comment goes from the line on which it opens to the
first line that closes it. `inside` says that a comment is open. -/
def outsideDocs (inside : Bool) : List String → List String
  | [] => []
  | l :: ls =>
    if inside ∨ OpensDoc l then outsideDocs (!decide (ClosesDoc l)) ls
    else l :: outsideDocs false ls

theorem NeverCloses.closes_nowhere {cs : List Char} (h : NeverCloses cs) :
    ¬ ['*', '/'] <:+: cs := by
  rintro ⟨before, after, rfl⟩
  rw [List.append_assoc] at h
  exact (List.isChain_append_cons_cons.mp h).2.1 ⟨rfl, rfl⟩

theorem outsideDocs_of_open {mid : List String} (h : ∀ l ∈ mid, ¬ ClosesDoc l) {last : String}
    (hlast : ClosesDoc last) (rest : List String) :
    outsideDocs true (mid ++ last :: rest) = outsideDocs false rest := by
  induction mid with
  | nil => simp [outsideDocs, hlast]
  | cons l mid ih =>
      obtain ⟨hl, hmid⟩ := List.forall_mem_cons.mp h
      simp [outsideDocs, hl, ih hmid]

theorem outsideDocs_docBlock (depth : Nat) (comment : String) (rest : List String) :
    outsideDocs false (docBlock depth comment ++ rest) = outsideDocs false rest := by
  have hblanks : ∀ l : String, (indentation depth ++ l).toList.dropWhile isBlank =
      l.toList.dropWhile isBlank := by
    intro l
    rw [String.toList_append, List.dropWhile_append_of_pos]
    simp [indentation, isBlank]
  have hopens : OpensDoc (indentation depth ++ "/**") := by
    rw [OpensDoc, hblanks]
    decide
  have hopen : ∀ l : String, NeverCloses l.toList → ¬ ClosesDoc (indentation depth ++ l) := by
    intro l hl
    rw [ClosesDoc, String.toList_append]
    exact (hl.append_of_not_mem (star_not_mem_indentation depth)).closes_nowhere
  have hfirst : ¬ ClosesDoc (indentation depth ++ "/**") := hopen _ (by unfold NeverCloses; decide)
  have hmid : ∀ l ∈ (Text.breakLines comment).map (fun line => indentation depth ++ docLine line),
      ¬ ClosesDoc l :=
    List.forall_mem_map.mpr fun line _ => hopen _ (neverCloses_docLine line)
  have hlast : ClosesDoc (indentation depth ++ " */") :=
    ⟨(indentation depth).toList ++ [' '], [], by simp⟩
  rw [docBlock, List.cons_append, List.cons_append, List.append_assoc, List.singleton_append,
    outsideDocs, if_pos (Or.inr hopens), decide_eq_false hfirst]
  exact outsideDocs_of_open hmid hlast rest

/-! ### Escapes for code points -/

/-- An escape for a code point stands in the text: a backslash and a `u`, behind an even number of
backslashes. -/
def escapesCodePoint : List Char → Bool
  | '\\' :: 'u' :: _ => true
  | '\\' :: '\\' :: cs => escapesCodePoint cs
  | _ :: cs => escapesCodePoint cs
  | [] => false

theorem escapesCodePoint_cons {c : Char} (h : c ≠ '\\') (cs : List Char) :
    escapesCodePoint (c :: cs) = escapesCodePoint cs := by
  rw [escapesCodePoint]
  · intro _ hc
    exact absurd hc h
  · intro _ hc
    exact absurd hc h

theorem escapesCodePoint_append {cs : List Char} (h : '\\' ∉ cs) (ds : List Char) :
    escapesCodePoint (cs ++ ds) = escapesCodePoint ds := by
  induction cs with
  | nil => rfl
  | cons c cs ih =>
      obtain ⟨hc, hcs⟩ := not_or.mp (mt List.mem_cons.mpr h)
      rw [List.cons_append, escapesCodePoint_cons (Ne.symm hc), ih hcs]

/-- No backslash of a literal is left to a code point. -/
theorem escapesCodePoint_escapeChar (c : Char) (cs : List Char) :
    escapesCodePoint (escapeChar c ++ cs) = escapesCodePoint cs := by
  unfold escapeChar
  split
  · exact escapesCodePoint_cons (by decide) cs
  · rfl
  · exact escapesCodePoint_cons (by decide) cs
  · exact escapesCodePoint_cons (by decide) cs
  · exact escapesCodePoint_cons (by decide) cs
  · rename_i hback _ _ _
    exact escapesCodePoint_cons hback cs

theorem escapesCodePoint_quote (s : String) (cs : List Char) :
    escapesCodePoint ((quote s).toList ++ cs) = escapesCodePoint cs := by
  have hbody : ∀ text : List Char, escapesCodePoint (text.flatMap escapeChar ++ '"' :: cs) =
      escapesCodePoint cs := by
    intro text
    induction text with
    | nil => exact escapesCodePoint_cons (by decide) cs
    | cons c text ih => rw [List.flatMap_cons, List.append_assoc, escapesCodePoint_escapeChar, ih]
  have hquote : (quote s).toList ++ cs = '"' :: (s.toList.flatMap escapeChar ++ '"' :: cs) := by
    simp [quote]
  rw [hquote, escapesCodePoint_cons (by decide), hbody]

/-! ### Constants -/

/-- The character may stand in a name: a letter, a digit, an underscore, a dollar sign, or what is
beyond ASCII and no blank. -/
def isNameChar (c : Char) : Bool :=
  c.isAlphanum || c == '_' || c == '$' || (128 ≤ c.toNat && !isBlank c)

/-- The text may be a name. Identifiers of every kind are among these texts. -/
def IsName (name : String) : Prop :=
  name ≠ "" ∧ ∀ c ∈ name.toList, isNameChar c = true

instance : DecidablePred IsName :=
  fun _ => inferInstanceAs (Decidable (_ ∧ _))

theorem isBlank_of_isNameChar {c : Char} (h : isNameChar c = true) : isBlank c = false := by
  simp only [isNameChar, Bool.or_eq_true, Bool.and_eq_true, Bool.not_eq_true', beq_iff_eq] at h
  rcases h with ((h | rfl) | rfl) | ⟨-, h⟩
  · -- Letters and digits are ASCII, and the blanks there come before them.
    simp only [Char.isAlphanum, Char.isAlpha, Char.isUpper, Char.isLower, Char.isDigit, ge_iff_le,
      Bool.or_eq_true, Bool.and_eq_true, decide_eq_true_eq, UInt32.le_iff_toNat_le,
      Char.toNat_val] at h
    have hcodes : 'A'.toNat = 65 ∧ 'Z'.toNat = 90 ∧ 'a'.toNat = 97 ∧ 'z'.toNat = 122 ∧
        '0'.toNat = 48 ∧ '9'.toNat = 57 := by decide
    simp only [isBlank, Bool.or_eq_false_iff, Bool.and_eq_false_iff, decide_eq_false_iff_not,
      beq_eq_false_iff_ne]
    omega
  · rfl
  · rfl
  · exact h

theorem IsName.not_mem {name : String} (h : IsName name) {c : Char} (hc : isNameChar c = false) :
    c ∉ name.toList :=
  fun hmem => Bool.false_ne_true (hc.symm.trans (h.2 c hmem))

/-- The line reads as the constant of a value: its name, and in parentheses its code and a literal
for its comment, or for its name if it has no comment. No part of the line is replaced before it is
read. -/
structure ReadsAs (v : Contract.EnumValue) (terminator : String) (line : String) : Prop where
  constant : ∃ argument, line.toList = (indentation 1).toList ++ v.name.toList ++ '(' ::
      (toString v.index).toList ++ ", \"".toList ++ argument ∧
    readLiteral argument =
      some ((if v.comment = "" then v.name else v.comment).toList, ')' :: terminator.toList)
  asWritten : escapesCodePoint line.toList = false

theorem toList_constantLine (v : Contract.EnumValue) (terminator : String) :
    (constantLine (.ofValue v) terminator).toList =
      v.name.toList ++ '(' :: (toString v.index).toList ++ ", ".toList ++
        ((quote (if v.comment = "" then v.name else v.comment)).toList ++
          ')' :: terminator.toList) := by
  simp [constantLine, EnumConstant.ofValue]

theorem readsAs_constantLine {v : Contract.EnumValue} (hv : IsName v.name) {terminator : String}
    (ht : '\\' ∉ terminator.toList) :
    ReadsAs v terminator (indentation 1 ++ constantLine (.ofValue v) terminator) := by
  obtain ⟨argument, hquote, hread⟩ := readLiteral_quote
    (if v.comment = "" then v.name else v.comment) (')' :: terminator.toList)
  have hdigits : '\\' ∉ (toString v.index).toList := by
    intro hmem
    rw [Nat.toString_eq_repr, Nat.toList_repr] at hmem
    exact absurd (Nat.isDigit_of_mem_toDigits (by decide) (by decide) hmem) (by decide)
  constructor
  · refine ⟨argument, ?_, hread⟩
    rw [String.toList_append, toList_constantLine, hquote]
    simp
  · have hfront : '\\' ∉ (indentation 1).toList ++
        (v.name.toList ++ '(' :: (toString v.index).toList ++ ", ".toList) := by
      simp only [List.mem_append, List.mem_cons, not_or]
      exact ⟨by simp [indentation], ⟨hv.not_mem (by decide), by decide, hdigits⟩, by decide⟩
    rw [String.toList_append, toList_constantLine, ← List.append_assoc,
      escapesCodePoint_append hfront, escapesCodePoint_quote, escapesCodePoint_cons (by decide),
      ← List.append_nil terminator.toList, escapesCodePoint_append ht, escapesCodePoint]

theorem not_opensDoc {name : String} (h : IsName name) (depth : Nat) (rest : String) :
    ¬ OpensDoc (indentation depth ++ (name ++ rest)) := by
  obtain ⟨c, cs, hname⟩ := List.exists_cons_of_ne_nil (mt String.toList_eq_nil_iff.mp h.1)
  have hc : isNameChar c = true := h.2 c (hname ▸ List.mem_cons_self)
  have hblanks : (indentation depth ++ (name ++ rest)).toList.dropWhile isBlank =
      c :: (cs ++ rest.toList) := by
    rw [String.toList_append, String.toList_append, hname, List.dropWhile_append_of_pos,
      List.cons_append, List.dropWhile_cons_of_neg (by simp [isBlank_of_isNameChar hc])]
    simp [indentation, isBlank]
  intro hopens
  rw [OpensDoc, hblanks, List.cons_prefix_cons] at hopens
  rw [← hopens.1] at hc
  exact absurd hc (by decide)

theorem unbroken_quote (s : String) : Unbroken (quote s) := by
  have hchar : ∀ c, '\n' ∉ escapeChar c := by
    intro c
    unfold escapeChar
    split <;> simp_all [eq_comm]
  simp [Unbroken, quote, hchar]

theorem unbroken_constantLine {v : Contract.EnumValue} (hv : IsName v.name) {terminator : String}
    (ht : Unbroken terminator) :
    Unbroken (constantLine (.ofValue v) terminator) := by
  have hcode : Unbroken (toString v.index) := Text.unbroken_toString v.index
  simp only [constantLine, unbroken_append]
  exact ⟨⟨⟨⟨⟨⟨hv.not_mem (by decide), by decide⟩, hcode⟩, by decide⟩, unbroken_quote _⟩, by decide⟩,
    ht⟩

/-- The lines of a constant are those of its comment and one more. -/
theorem outsideDocs_constant {v : Contract.EnumValue} (hv : IsName v.name) {terminator : String}
    (ht : Unbroken terminator) (rest : List String) :
    outsideDocs false (linesAt 1 [.doc v.comment,
        .push (constantLine (.ofValue v) terminator)] ++ rest) =
      (indentation 1 ++ constantLine (.ofValue v) terminator) ::
        outsideDocs false rest := by
  have hne : constantLine (.ofValue v) terminator ≠ "" := by
    simp [constantLine]
  have hdoc : ∀ ls, outsideDocs false ((docLines v.comment).flatMap (indented 1) ++ ls) =
      outsideDocs false ls := by
    intro ls
    by_cases hcomment : v.comment = ""
    · rw [docLines, if_pos hcomment, List.flatMap_nil, List.nil_append]
    · rw [flatMap_docLines hcomment, outsideDocs_docBlock]
  rw [linesAt_doc, linesAt_push, linesAt_nil, List.append_nil, List.append_assoc, hdoc,
    indented_of_unbroken (unbroken_constantLine hv ht) hne, List.singleton_append, outsideDocs,
    if_neg]
  simp only [constantLine, String.append_assoc]
  rw [Bool.false_eq_true, false_or]
  exact not_opensDoc hv 1 _

/-- The mark behind the constant at a place: a comma, and a semicolon behind the last. -/
def terminatorAt (count place : Nat) : String :=
  if place + 1 = count then ";" else ","

theorem terminatorAt_succ (count place : Nat) :
    terminatorAt (count + 1) (place + 1) = terminatorAt count place := by
  simp only [terminatorAt, Nat.add_right_cancel_iff]

theorem backslash_not_mem_terminatorAt (count place : Nat) :
    '\\' ∉ (terminatorAt count place).toList := by
  unfold terminatorAt
  split <;> decide

theorem outsideDocs_constantScripts : ∀ {vs : List Contract.EnumValue}, (∀ v ∈ vs, IsName v.name) →
    outsideDocs false (linesAt 1 (constantScripts (vs.map .ofValue))) =
      vs.mapIdx fun i v => indentation 1 ++ constantLine (.ofValue v) (terminatorAt vs.length i)
  | [], _ => rfl
  | [v], h => by
      have hmark : Unbroken ";" := by decide
      have hline := outsideDocs_constant (h v List.mem_cons_self) hmark []
      rw [List.append_nil] at hline
      exact hline
  | v :: w :: vs, h => by
      obtain ⟨hv, hrest⟩ := List.forall_mem_cons.mp h
      have hlevel : IsLevel [.doc v.comment, .push (constantLine (.ofValue v) ",")] := fun _ => rfl
      rw [List.map_cons, List.map_cons, constantScripts, ← List.map_cons]
      show outsideDocs false (linesAt 1
        ([.doc v.comment, .push (constantLine (.ofValue v) ",")] ++
          constantScripts ((w :: vs).map .ofValue))) = _
      rw [hlevel.linesAt_append, outsideDocs_constant hv (by decide),
        outsideDocs_constantScripts hrest]
      simp only [List.mapIdx_cons, List.length_cons, terminatorAt_succ]
      rfl

/-- What a section of constants reads as outside of comments: a semicolon where there is no value,
and else one constant for each value, in order. -/
structure ConstantsRead (values : List Contract.EnumValue) (constants : String) : Prop where
  none : values = [] → outsideDocs false (splitAt '\n' constants) = ["    ;"]
  each : values ≠ [] → ByIndex (fun i v line => ReadsAs v (terminatorAt values.length i) line)
    values (outsideDocs false (splitAt '\n' constants))

theorem constantsRead_ofEnumeration {e : Contract.Enumeration}
    (h : ∀ v ∈ e.values, IsName v.name) :
    ConstantsRead e.values (EnumClass.ofEnumeration e).values := by
  constructor
  · intro hempty
    have hscript : (EnumClass.ofEnumeration e).constantScript = [.push ";"] := by
      simp [EnumClass.constantScript, EnumClass.ofEnumeration, hempty]
    rw [EnumClass.values, hscript]
    decide
  · intro hne
    have hscript : (EnumClass.ofEnumeration e).constantScript =
        constantScripts (e.values.map .ofValue) := by
      simp [EnumClass.constantScript, EnumClass.ofEnumeration, hne]
    have hlines := outsideDocs_constantScripts h
    have hsome : linesAt 1 (constantScripts (e.values.map .ofValue)) ≠ [] := by
      intro hnil
      rw [hnil] at hlines
      exact hne (List.mapIdx_eq_nil_iff.mp hlines.symm)
    rw [EnumClass.values, hscript, splitAt_layout hsome, hlines]
    exact byIndex_mapIdx_of_mem fun i v hv =>
      readsAs_constantLine (h v hv) (backslash_not_mem_terminatorAt _ i)

/-- The codes of an enumeration count from zero, and each is that of one value. -/
structure CodesCount (e : Contract.Enumeration) : Prop where
  codes : e.values.map (·.index) = List.range e.values.length
  apart : ∀ v ∈ e.values, ∀ w ∈ e.values, v.index = w.index → v = w

theorem codesCount_contractEnumeration (s : Contract.SourceFile) (scope : String)
    (path : Contract.Path) (e : Descriptor.Enumeration) :
    CodesCount (Contract.contractEnumeration s scope path e) := by
  have hcodes : (Contract.contractEnumeration s scope path e).values.map (·.index) =
      List.range (Contract.contractEnumeration s scope path e).values.length := by
    apply List.ext_getElem
    · simp
    · intro i _ _
      simp [Contract.contractEnumeration]
  have hn : ((Contract.contractEnumeration s scope path e).values.map (·.index)).Nodup :=
    hcodes ▸ List.nodup_range
  exact ⟨hcodes, fun v hv w hw hindex => List.inj_on_of_nodup_map hn hv hw hindex⟩

theorem codesCount_of_mem_contractEnumerations {s : Contract.SourceFile} {e : Contract.Enumeration}
    (h : e ∈ s.contractEnumerations) : CodesCount e := by
  rcases List.mem_append.mp h with h | h
  · obtain ⟨i, hi, rfl⟩ := List.mem_mapIdx.mp h
    exact codesCount_contractEnumeration s _ _ _
  · obtain ⟨d, -, h⟩ := List.mem_flatMap.mp h
    obtain ⟨i, hi, rfl⟩ := List.mem_mapIdx.mp h
    exact codesCount_contractEnumeration s _ _ _

/-! ### The section in its source -/

/-- A text without a placeholder is filled whatever the placeholder stands for. -/
theorem fillFrom_of_absent (front back : List (List Char × List Char))
    {placeholder : List Char} (value value' : List Char) {cs : List Char}
    (h : ¬ placeholder <:+: cs) : ∀ skip,
      fillFrom (front ++ (placeholder, value) :: back) skip cs =
        fillFrom (front ++ (placeholder, value') :: back) skip cs := by
  induction cs with
  | nil => intro skip; rfl
  | cons c cs ih =>
      have hcs := ih fun hin => h (hin.trans (List.suffix_cons c cs).isInfix)
      have hprefix : ¬ placeholder <+: c :: cs := fun hp => h hp.isInfix
      have hfind : ∀ v, ((front ++ (placeholder, v) :: back).find? fun p =>
          p.1.isPrefixOf (c :: cs)) =
            (front ++ back).find? fun p => p.1.isPrefixOf (c :: cs) := by
        intro v
        rw [List.find?_append, List.find?_append, List.find?_cons_of_neg (by simpa using hprefix)]
      intro skip
      cases skip with
      | succ skip => exact hcs skip
      | zero => simp only [fillFrom, hfind, hcs]

/-- The lines of the source in front of the section of the constants. -/
def linesBeforeConstants : List String :=
  ["<header>", "", "<comment>public enum <name> \x7b", ""]

/-- The lines of the source behind the section of the constants. -/
def linesAfterConstants : List String :=
  ["",
   "    private final int code;",
   "    private final String desc;",
   "",
   "    <name>(int code, String desc) \x7b",
   "        this.code = code;",
   "        this.desc = desc;",
   "    \x7d",
   "",
   "    public int getCode() \x7b",
   "        return this.code;",
   "    \x7d",
   "",
   "    public String getDesc() \x7b",
   "        return this.desc;",
   "    \x7d",
   "",
   "    public static <name> fromCode(int code) \x7b",
   "        for (<name> value : values()) \x7b",
   "            if (value.code == code) \x7b",
   "                return value;",
   "            \x7d",
   "        \x7d",
   "        return null;",
   "    \x7d",
   "\x7d",
   ""]

theorem skeleton_eq : EnumClass.skeleton =
    Text.joinLines (linesBeforeConstants ++ "<values>" :: linesAfterConstants) := rfl

/-- The source has the section of the constants as it is, and the lines around it are the same
whatever the values are. -/
def StandsInSource (e : Contract.Enumeration) : Prop :=
  ∃ before after : List String, ∀ values,
    splitAt '\n' (EnumClass.ofEnumeration { e with values := values }).text =
      before ++ splitAt '\n' (EnumClass.ofEnumeration { e with values := values }).values ++ after

theorem standsInSource (e : Contract.Enumeration) : StandsInSource e := by
  let filled (constants line : String) : String :=
    fill line [("<header>", header e.package []), ("<comment>", classComment e.comment),
      ("<values>", constants), ("<name>", e.name)]
  have hkept : ∀ ls : List String, (∀ l ∈ ls, ¬ "<values>".toList <:+: l.toList) → ∀ constants,
      (ls.map (filled constants)).flatMap (splitAt '\n') =
        (ls.map (filled "")).flatMap (splitAt '\n') := by
    intro ls hls constants
    have hline : ∀ l ∈ ls, filled constants l = filled "" l := by
      intro l hl
      exact congrArg String.ofList (fillFrom_of_absent
        [("<header>".toList, _), ("<comment>".toList, _)] [("<name>".toList, _)]
        constants.toList "".toList (hls l hl) 0)
    rw [List.map_congr_left hline]
  refine ⟨(linesBeforeConstants.map (filled "")).flatMap (splitAt '\n'),
    (linesAfterConstants.map (filled "")).flatMap (splitAt '\n'), fun values => ?_⟩
  have hsection : filled (EnumClass.ofEnumeration { e with values := values }).values "<values>" =
      (EnumClass.ofEnumeration { e with values := values }).values := by
    simp [filled, fill, fillFrom]
  have htext : (EnumClass.ofEnumeration { e with values := values }).text =
      Text.joinLines ((linesBeforeConstants ++ "<values>" :: linesAfterConstants).map
        (filled (EnumClass.ofEnumeration { e with values := values }).values)) := by
    rw [EnumClass.text, skeleton_eq, fill_joinLines (by simp)]
    rfl
  rw [htext, Text.splitAt_joinLines (by simp), List.map_append, List.map_cons, List.flatMap_append,
    List.flatMap_cons, hsection, hkept linesBeforeConstants (by decide +kernel),
    hkept linesAfterConstants (by decide +kernel), List.append_assoc]

/-- **Constants are read back.** Let the values of an enumeration have names. Outside of comments
the section of its constants has one line for each value, in order, and no other: it has the value's
name and code, and a literal that reads as its comment, or as its name if it has no comment.
Whatever the values are, the source has this section as it is, between the same lines. The codes of
an enumeration of a contract count from zero. -/
theorem constants_read_back :
    (∀ e : Contract.Enumeration, (∀ v ∈ e.values, IsName v.name) →
      ConstantsRead e.values (EnumClass.ofEnumeration e).values) ∧
    (∀ e, StandsInSource e) ∧
    ∀ options request annotations files,
      (Contract.contractFiles options request annotations).result = .ok files →
        ∀ file ∈ files, ∀ e ∈ file.enumerations, CodesCount e := by
  refine ⟨fun e h => constantsRead_ofEnumeration h, standsInSource, ?_⟩
  intro options request annotations files hf file hfile e he
  obtain ⟨d, -, hmem⟩ := Contract.exists_source_of_enumeration hf hfile he
  exact codesCount_of_mem_contractEnumerations hmem

/-- An enumeration of three values. The comment of the first has two lines, with a quote, a tab,
what would close a comment, a placeholder and what could be taken for an escape. -/
def signRequest : Descriptor.Request where
  listed := ["signs.proto"]
  files := [{
    name? := some "signs.proto"
    package := "signs"
    enumerations := [⟨"Sign", ["STOP", "_yield2", "null"]⟩]
    locations :=
      [⟨[5, 0, 2, 0], " Halt: \"now\"\t\n*/ <name> \\u0041;\n"⟩, ⟨[5, 0, 2, 2], "none"⟩] }]

/-- The values of the enumeration. -/
def signValues : List Contract.EnumValue :=
  [⟨"STOP", 0, "Halt: \"now\"\t\n*/ <name> \\u0041;"⟩, ⟨"_yield2", 1, ""⟩, ⟨"null", 2, "none"⟩]

theorem constants_read_back_sign :
    ∃ files, (Contract.contractFiles {} signRequest {}).result = .ok files ∧
      ∃ file ∈ files, ∃ e ∈ file.enumerations, e.values = signValues ∧ CodesCount e ∧
        (∀ v ∈ e.values, IsName v.name) ∧
        ConstantsRead e.values (EnumClass.ofEnumeration e).values := by
  obtain ⟨files, hfiles⟩ :
      ∃ files, (Contract.contractFiles {} signRequest {}).result = .ok files :=
    exists_ok_of_isOk (by decide +kernel)
  obtain ⟨file, hfile, -, henumerations, -⟩ :=
    Contract.exists_file_of_listed hfiles (List.mem_singleton.mpr rfl) (by decide)
  have hall : ∀ e ∈ file.enumerations, e.values = signValues := by
    rw [henumerations]
    decide +kernel
  obtain ⟨e, he⟩ : ∃ e, e ∈ file.enumerations := by
    rw [henumerations]
    exact List.exists_mem_of_length_pos (by decide +kernel)
  have hnames : ∀ v ∈ e.values, IsName v.name := by
    rw [hall e he]
    simp [signValues, IsName, isNameChar]
  exact ⟨files, hfiles, file, hfile, e, he, hall e he,
    constants_read_back.2.2 _ _ _ _ hfiles file hfile e he, hnames,
    constants_read_back.1 e hnames⟩

end RestScaffold.Target
