import RestScaffold.Proofs.ImportClosure
import RestScaffold.Proofs.LineBreaks
import RestScaffold.Proofs.Lookups
import RestScaffold.Proofs.Parameters

/-! # Texts of a contract

The names in a contract and in the references of a request are put together from texts that the
request and its annotations give, and from packages of the options.

* `Descriptor.Request.texts`, `Annotated.Request.texts`: the texts that a fault may name;
* `singleLine_of_isPackageName`: the name of a package has one line;
* `DescriptorFrom`, `descriptorFrom_of_texts`: the names that a file declares;
* `fileFrom_of_contractFiles`: the names in the contract of a request;
* `referenceFrom_references`, `faultsFrom_contractFiles`: the names that are looked up for it. -/

namespace RestScaffold

/-! ### Texts of a request -/

/-- The texts of a rule. -/
def Http.Rule.texts (rule : Http.Rule) : List String :=
  [rule.path, rule.verb.name, rule.body, rule.responseBody]

/-- The texts of annotations that a fault may name: those of the rules. -/
def Annotated.Request.texts (a : Annotated.Request) : List String :=
  a.files.flatMap fun file => file.services.flatMap fun s => s.methods.flatMap fun m =>
    m.rule.elim [] Http.Rule.texts

namespace Descriptor

/-- The texts of a message, apart from those nested in it. -/
def Message.texts (m : Message) : List String :=
  m.name :: m.fields.map (·.typeName)

/-- The texts of a method. -/
def Method.texts (m : Method) : List String :=
  [m.name, m.input, m.output]

/-- The texts of a service. -/
def Service.texts (s : Service) : List String :=
  s.name :: s.methods.flatMap Method.texts

/-- The texts of a file that a fault may name. -/
def File.texts (d : File) : List String :=
  d.name :: d.package :: d.javaPackage.toList ++ d.namedMessages.flatMap (·.2.texts) ++
    d.namedEnumerations.map (·.2.name) ++ d.services.flatMap Service.texts

/-- The texts of a request that a fault may name. -/
def Request.texts (r : Request) : List String :=
  r.parameter.toList ++ r.files.flatMap File.texts

end Descriptor

/-- All line breaks in the texts have the property. -/
def TextsFrom (p : Char → Prop) (texts : List String) : Prop :=
  ∀ t ∈ texts, BreaksFrom p t

section

variable {p : Char → Prop}

theorem textsFrom_cons {t : String} {texts : List String} :
    TextsFrom p (t :: texts) ↔ BreaksFrom p t ∧ TextsFrom p texts :=
  List.forall_mem_cons

theorem textsFrom_append {texts more : List String} :
    TextsFrom p (texts ++ more) ↔ TextsFrom p texts ∧ TextsFrom p more :=
  List.forall_mem_append

theorem textsFrom_map {α : Type} {f : α → String} {as : List α} :
    TextsFrom p (as.map f) ↔ ∀ a ∈ as, BreaksFrom p (f a) :=
  List.forall_mem_map

theorem textsFrom_flatMap {α : Type} {f : α → List String} {as : List α} :
    TextsFrom p (as.flatMap f) ↔ ∀ a ∈ as, TextsFrom p (f a) := by
  simp only [TextsFrom, List.mem_flatMap]
  exact ⟨fun h a ha t ht => h t ⟨a, ha, ht⟩, fun h t ⟨a, ha, ht⟩ => h a ha t ht⟩

theorem textsFrom_toList {text : Option String} :
    TextsFrom p text.toList ↔ ∀ t, text = some t → BreaksFrom p t := by
  simp [TextsFrom]

end

/-! ### Names of packages -/

theorem singleLine_of_isPackageName {name : String} (h : Naming.isPackageName name = true) :
    SingleLine name := by
  intro c hc hbreak
  rcases (eq_or_mem_of_mem hc : c = '.' ∨ _) with rfl | ⟨segment, hsegment, hc⟩
  · exact absurd hbreak (by decide)
  · have hname := List.all_eq_true.mp h segment hsegment
    cases segment with
    | nil => exact absurd hc (by simp)
    | cons d ds =>
        -- A first letter is a letter or a digit as well, so that one test serves all characters.
        have hword : ∀ e ∈ d :: ds, e.isAlphanum = true ∨ e = '_' := by
          simp only [Naming.isPackageSegment, Bool.and_eq_true, Bool.or_eq_true, beq_iff_eq,
            List.all_eq_true] at hname
          refine List.forall_mem_cons.mpr ⟨?_, hname.2⟩
          exact hname.1.imp_left fun halpha => by simp [Char.isAlphanum, halpha]
        rcases hword c hc with hok | rfl
        · rcases hbreak with rfl | rfl <;> exact absurd hok (by decide)
        · exact absurd hbreak (by decide)

/-! ### Names in descriptors -/

section

variable {p : Char → Prop}

mutual

/-- A full name is made of the names on the way to the message. -/
theorem breaksFrom_named : ∀ {scope : String} (m : Descriptor.Message), BreaksFrom p scope →
    (∀ q ∈ m.named scope, BreaksFrom p q.2.name) → ∀ q ∈ m.named scope, BreaksFrom p q.1
  | scope, m@{ nested, .. }, hscope, hnames => by
      rw [Descriptor.Message.named, List.forall_mem_cons] at hnames ⊢
      have hfull := hscope.qualify hnames.1
      exact ⟨hfull, breaksFrom_namedAll nested hfull hnames.2⟩

theorem breaksFrom_namedAll : ∀ {scope : String} (ms : List Descriptor.Message),
    BreaksFrom p scope → (∀ q ∈ Descriptor.Message.namedAll scope ms, BreaksFrom p q.2.name) →
      ∀ q ∈ Descriptor.Message.namedAll scope ms, BreaksFrom p q.1
  | scope, [], _, _ => by
      rw [Descriptor.Message.namedAll]
      exact fun _ hq => absurd hq (by simp)
  | scope, m :: ms, hscope, hnames => by
      rw [Descriptor.Message.namedAll, List.forall_mem_append] at hnames ⊢
      exact ⟨breaksFrom_named m hscope hnames.1, breaksFrom_namedAll ms hscope hnames.2⟩

end

/-- All line breaks in the names of a file and in its references have the property. -/
structure DescriptorFrom (p : Char → Prop) (d : Descriptor.File) : Prop where
  name : BreaksFrom p d.name
  package : BreaksFrom p d.package
  javaPackage : ∀ package, d.javaPackage = some package → BreaksFrom p package
  messages : ∀ q ∈ d.namedMessages, BreaksFrom p q.1 ∧ BreaksFrom p q.2.name
  references : ∀ q ∈ d.namedMessages, ∀ f ∈ q.2.fields, BreaksFrom p f.typeName
  enumerations : ∀ q ∈ d.namedEnumerations, BreaksFrom p q.1 ∧ BreaksFrom p q.2.name
  services : ∀ s ∈ d.services, BreaksFrom p s.name
  methods : ∀ s ∈ d.services, ∀ m ∈ s.methods, TextsFrom p m.texts

theorem descriptorFrom_of_texts {d : Descriptor.File} (h : TextsFrom p d.texts) :
    DescriptorFrom p d := by
  simp only [Descriptor.File.texts, List.cons_append, textsFrom_cons, textsFrom_append,
    textsFrom_toList, textsFrom_flatMap, textsFrom_map, Descriptor.Message.texts,
    Descriptor.Service.texts] at h
  obtain ⟨hname, hpackage, ⟨⟨hjava, hmessages⟩, henums⟩, hservices⟩ := h
  have hfull : ∀ q ∈ d.namedMessages, BreaksFrom p q.1 :=
    breaksFrom_namedAll d.messages hpackage fun q hq => (hmessages q hq).1
  refine ⟨hname, hpackage, hjava, fun q hq => ⟨hfull q hq, (hmessages q hq).1⟩,
    fun q hq => (hmessages q hq).2, fun q hq => ⟨?_, henums q hq⟩, fun s hs => (hservices s hs).1,
    fun s hs => (hservices s hs).2⟩
  have hnamed : ∀ {scope : String} {es : List Descriptor.Enumeration}, BreaksFrom p scope →
      q ∈ Descriptor.namedIn scope es → BreaksFrom p q.1 := by
    intro scope es hscope hq'
    obtain ⟨e, -, rfl⟩ := List.mem_map.mp hq'
    exact hscope.qualify (henums _ hq)
  rcases List.mem_append.mp hq with hown | hnested
  · exact hnamed hpackage hown
  · obtain ⟨r, hr, hq'⟩ := List.mem_flatMap.mp hnested
    exact hnamed (hfull r hr) hq'

end

/-! ### Contracts -/

namespace Contract

open Target (MessageFrom EnumerationFrom MethodFrom ServiceFrom FileFrom RuleFrom)

section

variable {p : Char → Prop} {options : Options} {request : Descriptor.Request}
  {annotations : Annotated.Request}

theorem breaksFrom_of_mem_packages (ho : Options.parse request.parameter = .ok options)
    {name : String} (h : name ∈ options.packages) : BreaksFrom p name :=
  (singleLine_of_isPackageName (isPackageName_of_mem_packages ho h)).breaksFrom p

theorem breaksFrom_basePackage (ho : Options.parse request.parameter = .ok options)
    {d : Descriptor.File} (hd : DescriptorFrom p d) (isListed : Bool) :
    BreaksFrom p (basePackage options isListed d) := by
  have hown : BreaksFrom p (d.javaPackage.getD d.package) := by
    cases hj : d.javaPackage with
    | none => exact hd.package
    | some package => exact hd.javaPackage package hj
  unfold basePackage
  cases isListed with
  | false => exact hown
  | true =>
      cases hb : options.basePackage with
      | none => exact hown
      | some package => exact breaksFrom_of_mem_packages ho (by simp [Options.packages, hb])

theorem breaksFrom_beanPackage (ho : Options.parse request.parameter = .ok options)
    {d : Descriptor.File} (hd : DescriptorFrom p d) (isListed : Bool) :
    BreaksFrom p (beanPackage options isListed d) := by
  have hbean : BreaksFrom p options.beanPackage :=
    breaksFrom_of_mem_packages ho (by simp [Options.packages])
  unfold beanPackage
  split
  · exact hd.javaPackage _ ‹_›
  · exact (breaksFrom_basePackage ho hd _).qualify hbean

theorem messageFrom_of_contractMessages (ho : Options.parse request.parameter = .ok options)
    {d : Descriptor.File} (hd : DescriptorFrom p d) {registry : Registry} {messages : List Message}
    (h : ((SourceFile.ofDescriptor options request annotations d).contractMessages
      registry).result = .ok messages) : ∀ m ∈ messages, MessageFrom p m := by
  intro m hm
  obtain ⟨declared, hdeclared, hok⟩ := exists_left_of_forall₂ (contractMessages_eq_ok_iff.mp h) m hm
  obtain ⟨fields, -, rfl⟩ := contractMessage_eq_ok_iff.mp hok
  have hnamed : (declared.fullName, declared.descriptor) ∈ d.namedMessages := by
    rw [← declaredMessages_map d (annotations.file? d.name)]
    exact List.mem_map_of_mem (List.mem_filter.mp hdeclared).1
  obtain ⟨hfull, hname⟩ := hd.messages _ hnamed
  exact ⟨hname, hfull, hd.name, breaksFrom_beanPackage ho hd _⟩

theorem enumerationFrom_of_contractEnumerations
    (ho : Options.parse request.parameter = .ok options) {d : Descriptor.File}
    (hd : DescriptorFrom p d) :
    ∀ e ∈ (SourceFile.ofDescriptor options request annotations d).contractEnumerations,
      EnumerationFrom p e := by
  intro e he
  obtain ⟨q, hq, href⟩ := exists_named_of_enumeration he
  obtain ⟨hname, hfull, hpackage⟩ := TypeRef.mk.inj href
  obtain ⟨hqfull, hqname⟩ := hd.enumerations q hq
  refine ⟨hname ▸ hqname, hfull ▸ hqfull, ?_⟩
  rw [hpackage]
  exact breaksFrom_beanPackage ho hd _

theorem ruleFrom_of_annotations (ha : TextsFrom p annotations.texts) {d : Descriptor.File}
    {index i : Nat} {method : Annotated.Method} {rule : Http.Rule}
    (hm : (serviceAnnotations (.ofDescriptor options request annotations d) index)[i]? =
      some method) (hr : method.rule = some rule) : RuleFrom p rule := by
  have hmem := List.mem_of_getElem? hm
  unfold serviceAnnotations at hmem
  cases hf : annotations.file? d.name with
  | none =>
      have hnone : (SourceFile.ofDescriptor options request annotations d).annotated = none := hf
      simp [hnone] at hmem
  | some file =>
      have hsome : (SourceFile.ofDescriptor options request annotations d).annotated = some file :=
        hf
      rw [hsome, Option.elim_some] at hmem
      cases hs : file.services[index]? with
      | none => simp [hs] at hmem
      | some service =>
          rw [hs, Option.elim_some] at hmem
          have hfile : file ∈ annotations.files :=
            (List.mem_filter.mp (List.mem_of_getLast? hf)).1
          simp only [Annotated.Request.texts, textsFrom_flatMap] at ha
          have htexts := ha file hfile service (List.mem_of_getElem? hs) method hmem
          rw [hr, Option.elim_some] at htexts
          simp only [Http.Rule.texts, textsFrom_cons] at htexts
          obtain ⟨hpath, hverb, hbody, hresponse, -⟩ := htexts
          exact ⟨hpath, hverb, hbody, hresponse⟩

theorem servicesFrom_of_contractServices {d : Descriptor.File} (hd : DescriptorFrom p d)
    (ha : TextsFrom p annotations.texts) {all : List Message} (hall : ∀ m ∈ all, MessageFrom p m)
    {services : List Service} (h : (SourceFile.ofDescriptor options request annotations
      d).contractServices all = .ok services) : ∀ s ∈ services, ServiceFrom p s := by
  intro service hservice
  obtain ⟨⟨descriptor, index⟩, hpair, hok⟩ :=
    exists_left_of_forall₂ (contractServices_eq_ok_iff.mp h) service hservice
  obtain ⟨methods, hmethods, rfl⟩ := contractService_eq_ok_iff.mp hok
  have hdescriptor : descriptor ∈ d.services := List.fst_mem_of_mem_zipIdx hpair
  have hscope : BreaksFrom p (Naming.qualify d.package descriptor.name) :=
    hd.package.qualify (hd.services descriptor hdescriptor)
  refine ⟨hd.services descriptor hdescriptor, hscope, fun method hmethod => ?_⟩
  obtain ⟨⟨m, i⟩, hpair', hok'⟩ := exists_left_of_forall₂ hmethods method hmethod
  obtain ⟨input, output, hinput, houtput, rfl⟩ := contractMethod_eq_ok_iff.mp hok'
  have hname : BreaksFrom p m.name :=
    hd.methods descriptor hdescriptor m (List.fst_mem_of_mem_zipIdx hpair') _ List.mem_cons_self
  refine ⟨hscope.qualify hname, hall input (messageOf_eq_ok hinput).1,
    hall output (messageOf_eq_ok houtput).1, fun rule hrule => ?_⟩
  obtain ⟨annotated, hannotated, hrule⟩ := Option.bind_eq_some_iff.mp hrule
  exact ruleFrom_of_annotations ha hannotated hrule

/-- All line breaks in the names of a contract are from the texts of its request. -/
theorem fileFrom_of_contractFiles (ho : Options.parse request.parameter = .ok options)
    (hr : ∀ d ∈ request.files, DescriptorFrom p d) (ha : TextsFrom p annotations.texts)
    {files : List File} (hf : (contractFiles options request annotations).result = .ok files) :
    ∀ file ∈ files, FileFrom p file := by
  obtain ⟨all, hresolved, hfiles⟩ := forall₂_of_contractFiles hf
  have hall : ∀ m ∈ all, MessageFrom p m := by
    intro m hm
    obtain ⟨d, hd, messages, hok, hm⟩ := hresolved m hm
    exact messageFrom_of_contractMessages ho (hr d hd) hok m hm
  intro file hfile
  obtain ⟨d, hlisted, messages, hmessages, hok⟩ := exists_left_of_forall₂ hfiles file hfile
  obtain ⟨services, hservices, rfl⟩ := contractFile_eq_ok_iff.mp hok
  have hd := hr d (List.mem_filter.mp hlisted).1
  exact ⟨breaksFrom_basePackage ho hd _, messageFrom_of_contractMessages ho hd hmessages,
    enumerationFrom_of_contractEnumerations ho hd,
    servicesFrom_of_contractServices hd ha hall hservices⟩

/-! ### References -/

/-- All line breaks in the name and the referrer of a reference have the property. -/
def ReferenceFrom (p : Char → Prop) (r : Reference) : Prop :=
  BreaksFrom p r.typeName ∧ BreaksFrom p r.referrer

theorem referenceFrom_typeReferences {referrer : String} (hreferrer : BreaksFrom p referrer)
    {f : Descriptor.Field} (hf : BreaksFrom p f.typeName) :
    ∀ r ∈ typeReferences referrer f, ReferenceFrom p r := by
  intro r hmem
  unfold typeReferences at hmem
  split at hmem
  · obtain rfl := List.mem_singleton.mp hmem
    exact ⟨hf, hreferrer⟩
  · exact absurd hmem (by simp)

theorem referenceFrom_entryReferences (hr : ∀ d ∈ request.files, DescriptorFrom p d)
    {referrer : String} (hreferrer : BreaksFrom p referrer) {f : Descriptor.Field} :
    ∀ r ∈ entryReferences (registryOf options request annotations) referrer f,
      ReferenceFrom p r := by
  intro r hmem
  unfold entryReferences at hmem
  cases hentry : mapEntryOf (registryOf options request annotations) f with
  | none => simp [hentry] at hmem
  | some entry =>
      rw [hentry, Option.elim_some] at hmem
      -- Key and value are fields of a message that the request declares.
      unfold mapEntryOf at hentry
      split at hentry
      · obtain ⟨e, he, hentry⟩ := Option.bind_eq_some_iff.mp hentry
        obtain ⟨-, d, hd, ⟨q, hq, rfl⟩ | ⟨q, -, rfl⟩⟩ := exists_of_resolve? he
        · obtain ⟨-, ⟨hkey, -⟩, hvalue, -⟩ := mem_of_mapEntry? hentry
          have hfields := (hr d hd).references q hq
          rcases List.mem_append.mp hmem with hmem | hmem
          · exact referenceFrom_typeReferences hreferrer (hfields _ hkey) r hmem
          · exact referenceFrom_typeReferences hreferrer (hfields _ hvalue) r hmem
        · exact absurd hentry (by simp [enumerationDeclaration])
      · exact absurd hentry (by simp)

/-- All line breaks in what a contract refers to are from the texts of its request. -/
theorem referenceFrom_references (hr : ∀ d ∈ request.files, DescriptorFrom p d) :
    ∀ r ∈ references (registryOf options request annotations) request, ReferenceFrom p r := by
  intro r hmem
  rcases List.mem_append.mp hmem with hmem | hmem
  · obtain ⟨d, hd, hmem⟩ := List.mem_flatMap.mp hmem
    obtain ⟨q, hq, hmem⟩ := List.mem_flatMap.mp hmem
    obtain ⟨f, hf, hmem⟩ := List.mem_flatMap.mp hmem
    have hq := (List.mem_filter.mp hq).1
    have hreferrer := ((hr d hd).messages q hq).1
    rcases List.mem_append.mp hmem with hmem | hmem
    · exact referenceFrom_typeReferences hreferrer ((hr d hd).references q hq f hf) r hmem
    · exact referenceFrom_entryReferences hr hreferrer r hmem
  · obtain ⟨d, hlisted, hmem⟩ := List.mem_flatMap.mp hmem
    obtain ⟨s, hs, hmem⟩ := List.mem_flatMap.mp hmem
    obtain ⟨m, hm, hmem⟩ := List.mem_flatMap.mp hmem
    have hd := hr d (List.mem_filter.mp hlisted).1
    have htexts := hd.methods s hs m hm
    simp only [Descriptor.Method.texts, textsFrom_cons] at htexts
    obtain ⟨hname, hinput, houtput, -⟩ := htexts
    have hreferrer := (hd.package.qualify (hd.services s hs)).qualify hname
    simp only [methodReferences, List.mem_cons, List.not_mem_nil, or_false] at hmem
    rcases hmem with rfl | rfl
    · exact ⟨hinput, hreferrer⟩
    · exact ⟨houtput, hreferrer⟩

theorem faultsFrom_contractFiles (hr : ∀ d ∈ request.files, DescriptorFrom p d) :
    FaultsFrom p (contractFiles options request annotations).result := by
  intro fault hfault
  obtain ⟨r, ⟨before, after, hsplit, -⟩, rfl⟩ :=
    (looksUp_contractFiles options request annotations).eq_error_iff.mp hfault
  have hmem : r ∈ references (registryOf options request annotations) request := by
    rw [hsplit]
    exact List.mem_append_right before List.mem_cons_self
  obtain ⟨hname, hreferrer⟩ := referenceFrom_references hr r hmem
  simp [Reference.fault, Fault.values, hname, hreferrer]

end

end Contract

end RestScaffold
