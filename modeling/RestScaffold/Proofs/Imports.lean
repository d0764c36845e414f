import RestScaffold.Proofs.Bindings
import RestScaffold.Proofs.Sources

/-! # Imports are complete

A generated source has an import line for every class that it names, unless the class is of its own
package or of `java.lang`.

* `fieldClasses`, `JavaType.classes`: the classes that a field and a Java type name;
* `fieldUses`, `beanUses`, `interfaceUses`, `controllerUses`: what the sources ask to import;
* `FirstUseOrder`: entries stand in the order in which they are first used;
* `BeanImports`, `InterfaceImports`, `ControllerImports`: the import lines of the three kinds of
  source;
* `imports_complete`: they are those of all classes that the source names. -/

namespace RestScaffold.Target

open Contract (File Service Message Field Kind Cardinality)
open Http (Rule wholeMessage)
open Text (HasLine)

/-! ### First use -/

/-- The entries stand in the order in which `uses` first has them, each once. -/
def FirstUseOrder (uses entries : List String) : Prop :=
  entries.Pairwise fun p q => uses.idxOf p < uses.idxOf q

theorem FirstUseOrder.nodup {uses entries : List String} (h : FirstUseOrder uses entries) :
    entries.Nodup :=
  h.imp fun {_ _} hlt heq => absurd hlt (by rw [heq]; exact Nat.lt_irrefl _)

/-- What comes first among some entries of a list comes first in the list. -/
theorem idxOf_lt_of_filter {keep : String → Bool} {p q : String} (hp : keep p = true)
    (hq : keep q = true) : ∀ {uses : List String},
    (uses.filter keep).idxOf p < (uses.filter keep).idxOf q → uses.idxOf p < uses.idxOf q
  | [], h => by simp at h
  | u :: uses, h => by
      by_cases huq : u = q
      · rw [huq, List.filter_cons_of_pos hq, List.idxOf_cons_self] at h
        exact absurd h (Nat.not_lt_zero _)
      · by_cases hup : u = p
        · rw [hup, List.idxOf_cons_self, List.idxOf_cons_ne _ (hup ▸ huq)]
          exact Nat.succ_pos _
        · rw [List.idxOf_cons_ne _ hup, List.idxOf_cons_ne _ huq]
          refine Nat.succ_lt_succ (idxOf_lt_of_filter hp hq ?_)
          by_cases hu : keep u = true
          · rw [List.filter_cons_of_pos hu, List.idxOf_cons_ne _ hup, List.idxOf_cons_ne _ huq] at h
            exact Nat.lt_of_succ_lt_succ h
          · rwa [List.filter_cons_of_neg hu] at h

theorem firstUseOrder_eraseDups : ∀ uses : List String, FirstUseOrder uses uses.eraseDups
  | [] => List.Pairwise.nil
  | u :: uses => by
      have ih := firstUseOrder_eraseDups (uses.filter fun v => !v == u)
      have hne : ∀ v ∈ (uses.filter fun v => !v == u).eraseDups, u ≠ v := by
        intro v hv heq
        simp [heq, List.mem_eraseDups] at hv
      rw [FirstUseOrder, List.eraseDups_cons, List.pairwise_cons]
      constructor
      · intro v hv
        rw [List.idxOf_cons_self, List.idxOf_cons_ne _ (hne v hv)]
        exact Nat.succ_pos _
      · refine List.Pairwise.imp_of_mem ?_ ih
        intro p q hp hq hlt
        rw [List.idxOf_cons_ne _ (hne p hp), List.idxOf_cons_ne _ (hne q hq)]
        refine Nat.succ_lt_succ (idxOf_lt_of_filter ?_ ?_ hlt)
        · simpa using (hne p hp).symm
        · simpa using (hne q hq).symm
  termination_by uses => uses.length
  decreasing_by exact Nat.lt_succ_of_le (List.length_filter_le _ _)

/-! ### Classes of kinds and types -/

/-- The class that holds a list. -/
def listClass : ClassName := ⟨"java.util", "List"⟩

/-- The class that holds a map. -/
def mapClass : ClassName := ⟨"java.util", "Map"⟩

/-- The class that holds bytes. -/
def byteStringClass : ClassName := ⟨"com.google.protobuf", "ByteString"⟩

/-- The kinds that the Java type of a field mentions: the field's own or, for a map, those of its
keys and values. -/
def mentionedKinds (f : Field) : List Kind :=
  match f.cardinality with
  | .map key value => [key, value]
  | _ => [f.kind]

/-- The classes that a kind names; those of `java.lang` are left out. -/
def kindClasses : Kind → List ClassName
  | .scalar .bytes => [byteStringClass]
  | .message t => [className t]
  | .enumeration t => [className t]
  | _ => []

/-- The class of a collection. -/
def collectionClasses : Cardinality → List ClassName
  | .single => []
  | .list => [listClass]
  | .map _ _ => [mapClass]

/-- The classes that the Java type of a field names. -/
def fieldClasses (f : Field) : List ClassName :=
  collectionClasses f.cardinality ++ (mentionedKinds f).flatMap kindClasses

/-- The classes that are named where a Java type is written. -/
def JavaType.classes : JavaType → List ClassName
  | .builtin _ => []
  | .byteString => [byteStringClass]
  | .declared t => [className t]
  | .list element => listClass :: element.classes
  | .map key value => mapClass :: (key.classes ++ value.classes)

theorem classes_ofKind (kind : Kind) : (JavaType.ofKind kind).classes = kindClasses kind := by
  cases kind with
  | scalar s => cases s <;> rfl
  | message t => rfl
  | enumeration t => rfl
  | unknown number => rfl

theorem classes_ofField (f : Field) : (JavaType.ofField f).classes = fieldClasses f := by
  unfold JavaType.ofField fieldClasses mentionedKinds collectionClasses
  cases f.cardinality with
  | single => simp [classes_ofKind]
  | list => simp [JavaType.classes, classes_ofKind]
  | map key value => simp [JavaType.classes, classes_ofKind]

/-! ### What sources ask to import -/

/-- What a source of `package` imports for a kind: declarations of its own package are left
out. -/
def kindUses (package : String) (kind : Kind) : List ClassName :=
  (kindClasses kind).filter fun c => kind.typeRef?.isNone || c.package ≠ package

/-- What a source of `package` imports for a field, in order: the collection, then its kinds. -/
def fieldUses (package : String) (f : Field) : List ClassName :=
  collectionClasses f.cardinality ++ (mentionedKinds f).flatMap (kindUses package)

theorem imports_ofKind (package : String) (kind : Kind) :
    (JavaType.ofKind kind).imports package = (kindUses package kind).map ClassName.path := by
  have hdeclared (t : Contract.TypeRef) : (JavaType.declared t).imports package =
      ([className t].filter fun c => c.package ≠ package).map ClassName.path := by
    by_cases h : t.package = package
    · simp [JavaType.imports, className, h]
    · simp [JavaType.imports, className, h, ClassName.path, Contract.TypeRef.importPath]
  cases kind with
  | scalar s => cases s <;> rfl
  | message t => exact hdeclared t
  | enumeration t => exact hdeclared t
  | unknown number => rfl

theorem imports_ofField (package : String) (f : Field) :
    (JavaType.ofField f).imports package = (fieldUses package f).map ClassName.path := by
  unfold JavaType.ofField fieldUses mentionedKinds collectionClasses
  cases f.cardinality with
  | single => simp [imports_ofKind]
  | list => simp [JavaType.imports, imports_ofKind, show listClass.path = "java.util.List" from rfl]
  | map key value =>
      simp [JavaType.imports, imports_ofKind, show mapClass.path = "java.util.Map" from rfl]

theorem mem_fieldUses_of_ne {package : String} {f : Field} {c : ClassName}
    (h : c ∈ fieldClasses f) (hc : c.package ≠ package) : c ∈ fieldUses package f := by
  rcases List.mem_append.mp h with h | h
  · exact List.mem_append_left _ h
  · obtain ⟨kind, hkind, hmem⟩ := List.mem_flatMap.mp h
    have huse : c ∈ kindUses package kind := List.mem_filter.mpr ⟨hmem, by simp [hc]⟩
    exact List.mem_append_right _ (List.mem_flatMap.mpr ⟨kind, hkind, huse⟩)

/-! ### Classes of messages -/

/-- The classes that are named where the types of a message and of its fields are written. -/
def messageClasses (m : Message) : List ClassName :=
  className m.ref :: m.fields.flatMap fieldClasses

/-- What a source of `package` imports for a message and its fields, in order. -/
def messageUses (package : String) (m : Message) : List ClassName :=
  className m.ref :: m.fields.flatMap (fieldUses package)

theorem messageImports_eq (package : String) (m : Message) :
    messageImports package m = (messageUses package m).map ClassName.path := by
  rw [messageImports, messageUses, List.map_cons, path_className, List.map_flatMap]
  simp only [imports_ofField]

theorem mem_messageUses_of_ne {package : String} {m : Message} {c : ClassName}
    (h : c ∈ messageClasses m) (hc : c.package ≠ package) : c ∈ messageUses package m := by
  rcases List.mem_cons.mp h with rfl | h
  · exact List.mem_cons_self
  · obtain ⟨f, hf, hclass⟩ := List.mem_flatMap.mp h
    exact List.mem_cons_of_mem _ (List.mem_flatMap.mpr ⟨f, hf, mem_fieldUses_of_ne hclass hc⟩)

/-- The type is that of the message or of one of its fields. -/
def IsTypeOf (m : Message) (type : JavaType) : Prop :=
  type = .declared m.ref ∨ ∃ f ∈ m.fields, type = .ofField f

theorem IsTypeOf.mem_messageClasses {m : Message} {type : JavaType} (h : IsTypeOf m type)
    {c : ClassName} (hc : c ∈ type.classes) : c ∈ messageClasses m := by
  rcases h with rfl | ⟨f, hf, rfl⟩
  · obtain rfl : c = className m.ref := List.mem_singleton.mp hc
    exact List.mem_cons_self
  · rw [classes_ofField] at hc
    exact List.mem_cons_of_mem _ (List.mem_flatMap.mpr ⟨f, hf, hc⟩)

theorem Endpoint.isTypeOf_input {m : Contract.Method} {e : Endpoint}
    (h : Endpoint.ofMethod m = .ok e) {p : Parameter} (hp : p ∈ e.parameters) :
    IsTypeOf m.input p.type := by
  rcases parameter_cases h hp with hpath | ⟨-, f, hf, rfl⟩ | ⟨-, rfl⟩ | ⟨-, f, hf, -, rfl⟩
  · obtain ⟨f, hf, rfl⟩ := exists_of_mem_pathParameters h hpath
    exact Or.inr ⟨f, hf, rfl⟩
  · exact Or.inr ⟨f, hf, rfl⟩
  · exact Or.inl rfl
  · exact Or.inr ⟨f, hf, rfl⟩

theorem Endpoint.isTypeOf_output {m : Contract.Method} {e : Endpoint}
    (h : Endpoint.ofMethod m = .ok e) : IsTypeOf m.output e.reply.type := by
  obtain ⟨-, vars, path, body, reply, -, -, -, hreply, rfl⟩ := ofMethod_eq_ok_iff.mp h
  rcases replyOf_eq_ok_iff.mp hreply with ⟨-, rfl⟩ | ⟨-, f, hf, rfl⟩
  · exact Or.inl rfl
  · exact Or.inr ⟨f, (field?_eq_some hf).1, rfl⟩

/-! ### What artifacts ask to import -/

/-- The class that every bean implements. -/
def serializableClass : ClassName := ⟨"java.io", "Serializable"⟩

/-- The class that marks what must be set. -/
def notNullClass : ClassName := ⟨"jakarta.validation.constraints", "NotNull"⟩

/-- The class of a service interface. -/
def serviceClass (options : Options) (file : File) (s : Service) : ClassName :=
  ⟨servicePackage options file, serviceName s⟩

/-- The classes that a bean imports. -/
def beanUses (m : Message) : List ClassName :=
  [serializableClass] ++ (if m.fields.any (·.required) then [notNullClass] else []) ++
    m.fields.flatMap (fieldUses m.package)

/-- The classes that an interface imports. -/
def interfaceUses (s : Service) : List ClassName :=
  s.methods.flatMap fun m => [className m.input.ref, className m.output.ref]

/-- The classes that a controller imports by name. -/
def controllerUses (options : Options) (file : File) (s : Service) : List ClassName :=
  serviceClass options file s :: s.methods.flatMap fun m =>
    messageUses (controllerPackage options file) m.input ++
      messageUses (controllerPackage options file) m.output

/-- All classes of the framework's annotations. -/
def springImport : String := "org.springframework.web.bind.annotation.*"

theorem imports_ofMessage (m : Message) : (Bean.ofMessage m).imports =
    ((m.fields.flatMap (fieldUses m.package)).map ClassName.path).eraseDups := by
  rw [Bean.ofMessage, List.map_flatMap]
  simp only [imports_ofField]

theorem mem_allImports_iff {m : Message} {path : String} :
    path ∈ (Bean.ofMessage m).allImports ↔ ∃ c ∈ beanUses m, c.path = path := by
  have hrequired : (Bean.ofMessage m).properties.any (·.required) = m.fields.any (·.required) := by
    rw [Bean.ofMessage, List.any_map]
    rfl
  rw [← List.mem_map, Bean.allImports, hrequired, imports_ofMessage, beanUses, List.map_append,
    List.map_append, List.mem_append, List.mem_append, List.mem_append, List.mem_append,
    List.mem_eraseDups]
  by_cases h : m.fields.any (·.required) = true
  · rw [if_pos h, if_pos h]
    rfl
  · rw [if_neg h, if_neg h]
    rfl

section

variable {options : Options} {file : File} {s : Service}

theorem mem_interfaceImports_iff {i : ServiceInterface}
    (h : ServiceInterface.ofService options file s = .ok i) {path : String} :
    path ∈ i.imports ↔ ∃ c ∈ interfaceUses s, c.path = path := by
  obtain ⟨operations, -, rfl⟩ := ServiceInterface.ofService_eq_ok_iff.mp h
  rw [← List.mem_map, interfaceUses, List.map_flatMap, List.mem_eraseDups]
  rfl

theorem mem_controllerImports_iff {c : Controller}
    (h : Controller.ofService options file s = .ok c) {path : String} :
    path ∈ c.imports ↔ path = springImport ∨
      ∃ u ∈ controllerUses options file s, u.path = path := by
  obtain ⟨endpoints, -, rfl⟩ := Controller.ofService_eq_ok_iff.mp h
  have huses : ([serviceImport options file s] ++
      s.methods.flatMap fun m => messageImports (controllerPackage options file) m.input ++
        messageImports (controllerPackage options file) m.output) =
      (controllerUses options file s).map ClassName.path := by
    simp only [controllerUses, List.map_cons, List.map_flatMap, List.map_append, messageImports_eq]
    rfl
  show path ∈ controllerImports options file s ↔ _
  simp only [controllerImports]
  rw [huses, List.mem_eraseDups, List.mem_append, List.mem_map, List.mem_singleton, or_comm]
  rfl

end

/-! ### Import lines -/

/-- No class of the message has a dot in its name. -/
def PlainMessage (m : Message) : Prop :=
  ∀ c ∈ messageClasses m, c.Plain

/-- No declaration that the service mentions has a dot in its name. -/
def PlainService (s : Service) : Prop :=
  '.' ∉ s.name.toList ∧ ∀ m ∈ s.methods, PlainMessage m.input ∧ PlainMessage m.output

instance (m : Message) : Decidable (PlainMessage m) :=
  inferInstanceAs (Decidable (∀ c ∈ messageClasses m, c.Plain))

instance (s : Service) : Decidable (PlainService s) :=
  inferInstanceAs (Decidable (_ ∧ _))

/-- An artifact has an import line for the class, if it must import it. -/
def ImportsClass (a : Artifact) (c : ClassName) : Prop :=
  c.Foreign a.package → HasLine a.text (importLine c.path)

/-- The import lines of the bean of a message. -/
structure BeanImports (m : Message) : Prop where
  /-- Every class that the type of a field names is imported. -/
  complete : ∀ f ∈ m.fields, ∀ c ∈ fieldClasses f, ImportsClass (.bean (.ofMessage m)) c
  /-- Every entry is there for a field that uses it. -/
  justified : ∀ path ∈ (Bean.ofMessage m).imports,
    ∃ f ∈ m.fields, ∃ c ∈ fieldUses m.package f, c.path = path
  once : (Bean.ofMessage m).imports.Nodup
  /-- Entries stand in the order in which the fields use them. -/
  ordered : FirstUseOrder ((m.fields.flatMap (fieldUses m.package)).map ClassName.path)
    (Bean.ofMessage m).imports

/-- The import lines of the interface of a service. -/
structure InterfaceImports (s : Service) (i : ServiceInterface) : Prop where
  requests : ∀ m ∈ s.methods, ImportsClass (.serviceInterface i) (className m.input.ref)
  responses : ∀ m ∈ s.methods, ImportsClass (.serviceInterface i) (className m.output.ref)

/-- The import lines of the controller of a service. -/
structure ControllerImports (options : Options) (file : File) (s : Service) (c : Controller) :
    Prop where
  /-- Every class that the type of a handler's parameter names is imported. -/
  parameters : ∀ e ∈ c.endpoints, ∀ p ∈ e.parameters, ∀ u ∈ p.type.classes,
    ImportsClass (.controller c) u
  /-- Every class that the return type of a handler names is imported. -/
  replies : ∀ e ∈ c.endpoints, ∀ u ∈ e.reply.type.classes, ImportsClass (.controller c) u
  /-- The class of the request that a handler makes is imported. -/
  requests : ∀ e ∈ c.endpoints, ImportsClass (.controller c) (className e.operation.request)
  service : ImportsClass (.controller c) (serviceClass options file s)

theorem importsClass_of_mem {a : Artifact} {c : ClassName} (hc : c.Plain)
    (h : c.Foreign a.package → c.path ∈ a.imports) : ImportsClass a c := by
  intro hforeign
  refine Artifact.hasLine_text (mem_importedPaths.mpr ⟨h hforeign, ?_⟩)
  exact (isImported_path_iff hc).mpr hforeign

theorem beanImports_of_plain {m : Message} (hm : PlainMessage m) : BeanImports m where
  complete := by
    intro f hf c hc
    have hclass : c ∈ messageClasses m :=
      List.mem_cons_of_mem _ (List.mem_flatMap.mpr ⟨f, hf, hc⟩)
    refine importsClass_of_mem (hm c hclass) fun hforeign => ?_
    refine mem_allImports_iff.mpr ⟨c, List.mem_append_right _ ?_, rfl⟩
    exact List.mem_flatMap.mpr ⟨f, hf, mem_fieldUses_of_ne hc hforeign.1⟩
  justified := by
    intro path hpath
    rw [imports_ofMessage, List.mem_eraseDups] at hpath
    obtain ⟨c, hc, rfl⟩ := List.mem_map.mp hpath
    obtain ⟨f, hf, huse⟩ := List.mem_flatMap.mp hc
    exact ⟨f, hf, c, huse, rfl⟩
  once := by
    rw [imports_ofMessage]
    exact (firstUseOrder_eraseDups _).nodup
  ordered := by
    rw [imports_ofMessage]
    exact firstUseOrder_eraseDups _

section

variable {options : Options} {file : File} {s : Service}

theorem interfaceImports_of_plain (hs : PlainService s) {i : ServiceInterface}
    (h : ServiceInterface.ofService options file s = .ok i) : InterfaceImports s i := by
  have hmember : ∀ m ∈ s.methods, ∀ c ∈ [className m.input.ref, className m.output.ref],
      c.Plain → ImportsClass (.serviceInterface i) c := by
    intro m hm c hc hplain
    refine importsClass_of_mem hplain fun _ => ?_
    exact (mem_interfaceImports_iff h).mpr ⟨c, List.mem_flatMap.mpr ⟨m, hm, hc⟩, rfl⟩
  refine ⟨fun m hm => ?_, fun m hm => ?_⟩
  · exact hmember m hm _ (by simp) ((hs.2 m hm).1 _ List.mem_cons_self)
  · exact hmember m hm _ (by simp) ((hs.2 m hm).2 _ List.mem_cons_self)

theorem plain_serviceClass (h : '.' ∉ s.name.toList) : (serviceClass options file s).Plain := by
  show '.' ∉ (serviceName s).toList
  unfold serviceName
  split
  · exact h
  · rw [String.toList_append, List.mem_append, not_or]
    exact ⟨h, by decide⟩

theorem controllerImports_of_plain (hs : PlainService s) {c : Controller}
    (h : Controller.ofService options file s = .ok c) : ControllerImports options file s c := by
  obtain ⟨endpoints, hall, hc⟩ := Controller.ofService_eq_ok_iff.mp h
  have hpackage : c.package = controllerPackage options file := by rw [hc]
  have hendpoints : c.endpoints = endpoints := by rw [hc]
  -- The classes of both messages of a method are used by the controller.
  have hmessage : ∀ m ∈ s.methods, ∀ message, message = m.input ∨ message = m.output →
      ∀ u ∈ messageClasses message, ImportsClass (.controller c) u := by
    intro m hm message hmessage u hu
    have hplain : u.Plain := by
      rcases hmessage with rfl | rfl
      · exact (hs.2 m hm).1 u hu
      · exact (hs.2 m hm).2 u hu
    refine importsClass_of_mem hplain fun hforeign => ?_
    have hforeign : u.package ≠ controllerPackage options file := hpackage ▸ hforeign.1
    have huse := mem_messageUses_of_ne hu hforeign
    refine (mem_controllerImports_iff h).mpr (Or.inr ⟨u, ?_, rfl⟩)
    refine List.mem_cons_of_mem _ (List.mem_flatMap.mpr ⟨m, hm, ?_⟩)
    rcases hmessage with rfl | rfl
    · exact List.mem_append_left _ huse
    · exact List.mem_append_right _ huse
  have hmethod : ∀ e ∈ c.endpoints, ∃ m ∈ s.methods, Endpoint.ofMethod m = .ok e := by
    rw [hendpoints]
    exact exists_left_of_forall₂ hall
  refine ⟨?_, ?_, ?_, ?_⟩
  · intro e he p hp u hu
    obtain ⟨m, hm, hok⟩ := hmethod e he
    exact hmessage m hm _ (Or.inl rfl) u ((Endpoint.isTypeOf_input hok hp).mem_messageClasses hu)
  · intro e he u hu
    obtain ⟨m, hm, hok⟩ := hmethod e he
    exact hmessage m hm _ (Or.inr rfl) u ((Endpoint.isTypeOf_output hok).mem_messageClasses hu)
  · intro e he
    obtain ⟨m, hm, hok⟩ := hmethod e he
    obtain ⟨-, vars, path, body, reply, -, -, -, -, rfl⟩ := Endpoint.ofMethod_eq_ok_iff.mp hok
    exact hmessage m hm _ (Or.inl rfl) _ List.mem_cons_self
  · refine importsClass_of_mem (plain_serviceClass hs.1) fun _ => ?_
    exact (mem_controllerImports_iff h).mpr (Or.inr ⟨_, List.mem_cons_self, rfl⟩)

end

/-- **Imports are complete.** Where no declared name has a dot, the bean of every message and the
two classes of every service that can be made import what they name; the imports of a bean are
those of its fields, each once, in the order of first use. -/
theorem imports_complete :
    (∀ m : Message, PlainMessage m → BeanImports m) ∧
    ∀ (options : Options) (file : File) (s : Service) (i : ServiceInterface) (c : Controller),
      PlainService s → ServiceInterface.ofService options file s = .ok i →
        Controller.ofService options file s = .ok c →
          InterfaceImports s i ∧ ControllerImports options file s c := by
  refine ⟨fun m hm => beanImports_of_plain hm, ?_⟩
  intro options file s i c hs hi hc
  exact ⟨interfaceImports_of_plain hs hi, controllerImports_of_plain hs hc⟩

/-- A message with a list, a map, bytes and a field of another package's type. -/
def loanMessage : Message where
  name := "Loan"
  fullName := "lib.Loan"
  file := "lib.proto"
  package := "lib.dto"
  fields :=
    [⟨"pages", .scalar .bytes, .list, false, ""⟩,
     ⟨"shelf", .message ⟨"Shelf", "store.Shelf", "store.dto"⟩, .single, true, ""⟩,
     ⟨"genres", .message ⟨"GenresEntry", "lib.Loan.GenresEntry", "lib.dto"⟩,
       .map (.scalar .string) (.enumeration ⟨"Genre", "lib.Genre", "lib.dto"⟩), false, ""⟩]

/-- A service with one method, which takes a field from the body and returns a field. -/
def loanService : Service where
  name := "Loans"
  fullName := "lib.Loans"
  methods := [{
    name := "Renew"
    fullName := "lib.Loans.Renew"
    input := loanMessage
    output := loanMessage
    rule := some {
      pattern := some ⟨.post, "/v1/loans"⟩
      body := "shelf"
      responseBody := "genres" } }]

theorem imports_complete_loanService : ∃ i c,
    ServiceInterface.ofService {} { package := "lib" } loanService = .ok i ∧
    Controller.ofService {} { package := "lib" } loanService = .ok c ∧
    (PlainMessage loanMessage ∧ BeanImports loanMessage) ∧
    PlainService loanService ∧ InterfaceImports loanService i ∧
    ControllerImports {} { package := "lib" } loanService c ∧
    HasLine (Artifact.bean (.ofMessage loanMessage)).text "import store.dto.Shelf;" := by
  obtain ⟨i, hi⟩ : ∃ i, ServiceInterface.ofService {} { package := "lib" } loanService = .ok i :=
    exists_ok_of_isOk (by decide +kernel)
  obtain ⟨c, hc⟩ : ∃ c, Controller.ofService {} { package := "lib" } loanService = .ok c :=
    exists_ok_of_isOk (by decide +kernel)
  have hm : PlainMessage loanMessage := by decide +kernel
  have hs : PlainService loanService := by decide +kernel
  have hbean : BeanImports loanMessage := imports_complete.1 loanMessage hm
  obtain ⟨hinterface, hcontroller⟩ := imports_complete.2 _ _ _ i c hs hi hc
  refine ⟨i, c, hi, hc, ⟨hm, hbean⟩, hs, hinterface, hcontroller, ?_⟩
  have hshelf : (⟨"store.dto", "Shelf"⟩ : ClassName).Foreign "lib.dto" := by decide +kernel
  exact hbean.complete ⟨"shelf", .message ⟨"Shelf", "store.Shelf", "store.dto"⟩, .single, true, ""⟩
    (by decide +kernel) ⟨"store.dto", "Shelf"⟩ (by decide +kernel) hshelf

end RestScaffold.Target
