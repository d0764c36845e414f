import RestScaffold.Proofs.Placement

/-! # Flattened declarations

A contract has the messages and enumerations of a file beside each other, however deep they are
declared. None is lost, none is there twice, and their order is that of the file.

* `Naming.dotted`, `Descriptor.File.namesTo`: full names as names with dots between them;
* `InPreOrder`: what it means to list places in pre-order;
* `forall₂_namedMessages`: the messages of a file, at their index paths and with their full names;
* `Flattened`, `flattened_of_contractFiles`: the files of a contract and those of the request. -/

namespace RestScaffold

/-! ### Dotted names -/

namespace Naming

/-- Names with dots between them. Empty names at the front have no dot behind them. -/
def dotted (names : List String) : String :=
  ".".intercalate (names.dropWhile (· = ""))

theorem dotted_of_empty (names : List String) : dotted ("" :: names) = dotted names := rfl

theorem dotted_of_ne_empty {name : String} (h : name ≠ "") (names : List String) :
    dotted (name :: names) = ".".intercalate (name :: names) := by
  rw [dotted, List.dropWhile_cons_of_neg (by simpa using h)]

theorem dotted_qualify (scope name : String) (names : List String) :
    dotted (qualify scope name :: names) = dotted (scope :: name :: names) := by
  by_cases h : scope = ""
  · rw [h, qualify_empty, dotted_of_empty]
  · have hne : scope ++ "." ++ name ≠ "" := by
      simp
    rw [qualify_of_ne_empty h, dotted_of_ne_empty hne, dotted_of_ne_empty h]
    rfl

theorem foldl_qualify (names : List String) : ∀ scope : String,
    names.foldl qualify scope = dotted (scope :: names) := by
  induction names with
  | nil =>
      intro scope
      by_cases h : scope = ""
      · rw [h]
        rfl
      · rw [dotted_of_ne_empty h]
        rfl
  | cons name names ih =>
      intro scope
      rw [List.foldl_cons, ih, dotted_qualify]

theorem qualify_dotted (names : List String) (name : String) :
    qualify (dotted names) name = dotted (names ++ [name]) := by
  cases names with
  | nil => exact foldl_qualify [] name
  | cons scope names =>
      rw [← foldl_qualify, List.cons_append, ← foldl_qualify, List.foldl_append]
      rfl

end Naming

/-! ### Names of nested messages -/

namespace Descriptor

/-- The names of a message and of the nested ones that indices lead through. -/
def Message.namesTo : IndexPath → Message → List String
  | [], m => [m.name]
  | i :: is, m => m.name :: (m.nested[i]?).elim [] (Message.namesTo is)

/-- The names of the messages that an index path leads through. -/
def File.namesTo (f : File) : IndexPath → List String
  | [] => []
  | i :: is => (f.messages[i]?).elim [] (Message.namesTo is)

mutual

theorem Message.forall₂_named : ∀ (scope : String) (m : Message),
    List.Forall₂ (fun is p => m.at? is = some p.2 ∧
      p.1 = (m.namesTo is).foldl Naming.qualify scope) m.paths (m.named scope)
  | scope, m@{ nested, .. } => by
      rw [Message.paths_eq, Message.named]
      refine List.Forall₂.cons ⟨rfl, rfl⟩ ?_
      refine (Message.forall₂_namedAll _ 0 nested).imp fun is p h => ?_
      obtain ⟨i, below, inner, rfl, hi, hat, hname⟩ := h
      rw [Nat.zero_add]
      refine ⟨Option.bind_eq_some_iff.mpr ⟨inner, hi, hat⟩, ?_⟩
      rw [hname, Message.namesTo, hi]
      rfl

theorem Message.forall₂_namedAll : ∀ (scope : String) (index : Nat) (ms : List Message),
    List.Forall₂ (fun is p => ∃ i below m, is = (index + i) :: below ∧ ms[i]? = some m ∧
      m.at? below = some p.2 ∧ p.1 = (m.namesTo below).foldl Naming.qualify scope)
        (Message.pathsAll index ms) (Message.namedAll scope ms)
  | scope, index, [] => List.Forall₂.nil
  | scope, index, m :: ms => by
      rw [Message.pathsAll, Message.namedAll]
      refine List.rel_append ?_ ?_
      · rw [List.forall₂_map_left_iff]
        refine (Message.forall₂_named scope m).imp fun is p h => ?_
        exact ⟨0, is, m, rfl, rfl, h⟩
      · refine (Message.forall₂_namedAll scope (index + 1) ms).imp fun is p h => ?_
        obtain ⟨i, below, inner, rfl, hi, h⟩ := h
        exact ⟨i + 1, below, inner, by rw [Nat.add_right_comm, Nat.add_assoc], hi, h⟩

end

/-- The named messages of a file are those at its index paths, and the full name of each is its
package and the names on the way. -/
theorem File.forall₂_namedMessages (f : File) :
    List.Forall₂ (fun path p => f.message? path = some p.2 ∧
      p.1 = Naming.dotted (f.package :: f.namesTo path)) f.messagePaths f.namedMessages := by
  refine (Message.forall₂_namedAll f.package 0 f.messages).imp fun path p h => ?_
  obtain ⟨i, below, m, rfl, hi, hat, hname⟩ := h
  rw [Nat.zero_add]
  refine ⟨Option.bind_eq_some_iff.mpr ⟨m, hi, hat⟩, ?_⟩
  rw [hname, Naming.foldl_qualify, File.namesTo, hi]
  rfl

end Descriptor

namespace Contract

/-! ### What a flattened contract is -/

/-- The index paths with a property in pre-order: each once, a message before those that are nested
in it, and these before the next message. -/
structure InPreOrder (p : IndexPath → Prop) (paths : List IndexPath) : Prop where
  ascending : paths.Pairwise (· < ·)
  all : ∀ path, path ∈ paths ↔ p path

/-- A field under its name, with the type that it refers to. -/
structure FieldOf (registry : Registry) (referrer : String) (f : Descriptor.Field)
    (field : Field) : Prop where
  name : field.name = f.name
  kind : (kindOf registry referrer f).result = .ok field.kind
  cardinality : (cardinalityOf registry referrer f).result = .ok field.cardinality

/-- The message at an index path, which is no map entry, with its fields in order. -/
structure MessageFlattened (registry : Registry) (file : Descriptor.File) (path : IndexPath)
    (message : Message) : Prop where
  declared : ∃ m, file.message? path = some m ∧ m.isMapEntry = false ∧ message.name = m.name ∧
    List.Forall₂ (FieldOf registry message.fullName) m.fields message.fields
  fullName : message.fullName = Naming.dotted (file.package :: file.namesTo path)
  file : message.file = file.name

/-- All messages of a file but the map entries, in pre-order. -/
def MessagesFlattened (registry : Registry) (file : Descriptor.File) (messages : List Message) :
    Prop :=
  ∃ paths, InPreOrder (fun path => ∃ m, file.message? path = some m ∧ m.isMapEntry = false) paths ∧
    List.Forall₂ (MessageFlattened registry file) paths messages

/-- An enumeration that is declared within `scope`, with its values in order. -/
structure EnumerationFlattened (scope : List String) (e : Descriptor.Enumeration)
    (enumeration : Enumeration) : Prop where
  name : enumeration.name = e.name
  fullName : enumeration.fullName = Naming.dotted (scope ++ [e.name])
  values : ByIndex (fun i name value => value.name = name ∧ value.index = i) e.values
    enumeration.values

/-- The enumerations of a file: its own, then those nested in any of its messages, by the pre-order
of the messages. -/
def EnumerationsFlattened (file : Descriptor.File) (enumerations : List Enumeration) : Prop :=
  ∃ own paths nested, enumerations = own ++ List.flatten nested ∧
    List.Forall₂ (EnumerationFlattened [file.package]) file.enumerations own ∧
    InPreOrder (fun path => ∃ m, file.message? path = some m) paths ∧
    List.Forall₂ (fun path inner => ∃ m, file.message? path = some m ∧
      List.Forall₂ (EnumerationFlattened (file.package :: file.namesTo path)) m.enumerations inner)
        paths nested

/-- The message that a method refers to. It is the only one of its name if no two messages have
one name. -/
structure Takes (walked : List Message) (typeName : String) (message : Message) : Prop where
  mem : message ∈ walked
  named : message.fullName = referredName typeName
  only : (walked.map (·.fullName)).Nodup →
    ∀ m ∈ walked, m.fullName = referredName typeName → m = message

/-- A method of the service with the full name `scope`. -/
structure MethodFlattened (walked : List Message) (scope : List String) (m : Descriptor.Method)
    (method : Method) : Prop where
  name : method.name = m.name
  fullName : method.fullName = Naming.dotted (scope ++ [m.name])
  input : Takes walked m.input method.input
  output : Takes walked m.output method.output

/-- A service with its methods in order. -/
structure ServiceFlattened (walked : List Message) (file : Descriptor.File)
    (descriptor : Descriptor.Service) (service : Service) : Prop where
  name : service.name = descriptor.name
  fullName : service.fullName = Naming.dotted [file.package, descriptor.name]
  methods : List.Forall₂ (MethodFlattened walked [file.package, descriptor.name])
    descriptor.methods service.methods

/-- A file of the contract, made of a file of the request and its messages. -/
structure FileFlattened (walked : List Message) (descriptor : Descriptor.File)
    (messages : List Message) (file : File) : Prop where
  name : file.name = descriptor.name
  messages : file.messages = messages
  enumerations : EnumerationsFlattened descriptor file.enumerations
  services : List.Forall₂ (ServiceFlattened walked descriptor) descriptor.services file.services

/-- The files of a contract. `walked` has the files of the request, each with its messages. -/
structure Flattened (registry : Registry) (request : Descriptor.Request)
    (walked : List (Descriptor.File × List Message)) (files : List File) : Prop where
  all : walked.map (·.1) = request.files
  messages : ∀ p ∈ walked, MessagesFlattened registry p.1 p.2
  listed : List.Forall₂ (fun p => FileFlattened (walked.flatMap (·.2)) p.1 p.2)
    (walked.filter fun p => p.1.name ∈ request.listed) files
  names : files.map (·.name) = (request.files.map (·.name)).filter (· ∈ request.listed)

/-! ### Contracts are flattened -/

variable {registry : Registry} {s : SourceFile} {all : List Message}

theorem inPreOrder_messagePaths (file : Descriptor.File) :
    InPreOrder (fun path => ∃ m, file.message? path = some m) file.messagePaths :=
  ⟨file.pairwise_lt_messagePaths, fun _ => Descriptor.File.mem_messagePaths⟩

theorem inPreOrder_beanPaths (file : Descriptor.File) :
    InPreOrder (fun path => ∃ m, file.message? path = some m ∧ m.isMapEntry = false)
      (beanPaths file) :=
  ⟨file.pairwise_lt_messagePaths.filter _, fun _ => mem_beanPaths⟩

/-- A declared message is the one at an index path, under its full name. -/
structure DeclaredAt (file : Descriptor.File) (path : IndexPath) (d : DeclaredMessage) : Prop where
  descriptor : file.message? path = some d.descriptor
  fullName : d.fullName = Naming.dotted (file.package :: file.namesTo path)

theorem forall₂_declared (s : SourceFile) :
    List.Forall₂ (DeclaredAt s.descriptor) s.descriptor.messagePaths s.declared := by
  have hnamed := s.descriptor.forall₂_namedMessages
  rw [← declaredMessages_map s.descriptor s.annotated, List.forall₂_map_right_iff] at hnamed
  exact hnamed.imp fun _ _ h => ⟨h.1, h.2⟩

theorem forall₂_beans (s : SourceFile) : List.Forall₂
    (fun path d => DeclaredAt s.descriptor path d ∧ d.descriptor.isMapEntry = false)
    (beanPaths s.descriptor) (s.declared.filter (!·.descriptor.isMapEntry)) := by
  have hbeans : List.Forall₂ (DeclaredAt s.descriptor) (beanPaths s.descriptor)
      (s.declared.filter (!·.descriptor.isMapEntry)) :=
    List.rel_filter (fun path d hd => by simp [hd.descriptor]) (forall₂_declared s)
  have hentries : ∀ path ∈ beanPaths s.descriptor, ∃ m, s.descriptor.message? path = some m ∧
      m.isMapEntry = false :=
    fun _ => mem_beanPaths.mp
  refine ((List.forall₂_and_left _ _).mpr ⟨hentries, hbeans⟩).imp ?_
  rintro path d ⟨⟨found, hfound, he⟩, hd⟩
  obtain rfl := Option.some.inj (hfound.symm.trans hd.descriptor)
  exact ⟨hd, he⟩

theorem messageFlattened_of_contractMessage {path : IndexPath} {d : DeclaredMessage} {m : Message}
    (hd : DeclaredAt s.descriptor path d) (he : d.descriptor.isMapEntry = false)
    (h : (contractMessage registry s d).result = .ok m) :
    MessageFlattened registry s.descriptor path m := by
  obtain ⟨fields, hfields, rfl⟩ := contractMessage_eq_ok_iff.mp h
  have hall : List.Forall₂ (FieldOf registry d.fullName) d.descriptor.fields fields := by
    refine ByIndex.forall₂ (fun j f field hf => ?_) hfields
    obtain ⟨kind, cardinality, hk, hc, rfl⟩ := contractField_eq_ok_iff.mp hf
    exact ⟨rfl, hk, hc⟩
  exact ⟨⟨d.descriptor, hd.descriptor, he, rfl, hall⟩, hd.fullName, rfl⟩

theorem messagesFlattened_of_contractMessages {messages : List Message}
    (h : (s.contractMessages registry).result = .ok messages) :
    MessagesFlattened registry s.descriptor messages := by
  refine ⟨beanPaths s.descriptor, inPreOrder_beanPaths s.descriptor, ?_⟩
  refine (forall₂_comp (forall₂_beans s) (contractMessages_eq_ok_iff.mp h)).imp ?_
  rintro path m ⟨d, ⟨hd, he⟩, hm⟩
  exact messageFlattened_of_contractMessage hd he hm

theorem enumerationFlattened_contractEnumeration (scope : List String) (place : Path)
    (e : Descriptor.Enumeration) :
    EnumerationFlattened scope e (contractEnumeration s (Naming.dotted scope) place e) :=
  ⟨rfl, Naming.qualify_dotted scope e.name, byIndex_mapIdx (fun _ _ => ⟨rfl, rfl⟩) e.values⟩

theorem forall₂_contractEnumeration (scope : List String) (place : Nat → Path)
    (es : List Descriptor.Enumeration) :
    List.Forall₂ (EnumerationFlattened scope) es
      (es.mapIdx fun i e => contractEnumeration s (Naming.dotted scope) (place i) e) :=
  ByIndex.forall₂ (R := fun _ => EnumerationFlattened scope) (fun _ _ _ h => h) <|
    byIndex_mapIdx (fun i e => enumerationFlattened_contractEnumeration scope (place i) e) es

theorem enumerationsFlattened_contractEnumerations :
    EnumerationsFlattened s.descriptor s.contractEnumerations := by
  have hpackage : Naming.dotted [s.descriptor.package] = s.descriptor.package :=
    (Naming.foldl_qualify [] _).symm
  refine ⟨_, s.descriptor.messagePaths, _, congrArg (_ ++ ·) List.flatMap_def, ?_,
    inPreOrder_messagePaths s.descriptor, ?_⟩
  · have hown := forall₂_contractEnumeration (s := s) [s.descriptor.package] .enumeration
      s.descriptor.enumerations
    rwa [hpackage] at hown
  · rw [List.forall₂_map_right_iff]
    refine (forall₂_declared s).imp ?_
    intro path d hd
    refine ⟨d.descriptor, hd.descriptor, ?_⟩
    rw [hd.fullName]
    exact forall₂_contractEnumeration _ d.path.nestedEnumeration d.descriptor.enumerations

theorem takes_of_messageOf {referrer typeName : String} {m : Message}
    (h : messageOf all referrer typeName = .ok m) : Takes all typeName m := by
  obtain ⟨hmem, hname⟩ := messageOf_eq_ok h
  refine ⟨hmem, hname, fun hn other hother hsame => ?_⟩
  exact List.inj_on_of_nodup_map hn hother hmem (hsame.trans hname.symm)

theorem serviceFlattened_of_contractService {index : Nat} {descriptor : Descriptor.Service}
    {service : Service} (h : contractService all s index descriptor = .ok service) :
    ServiceFlattened all s.descriptor descriptor service := by
  have hscope : Naming.qualify s.descriptor.package descriptor.name =
      Naming.dotted [s.descriptor.package, descriptor.name] :=
    Naming.foldl_qualify [descriptor.name] _
  obtain ⟨methods, hmethods, rfl⟩ := contractService_eq_ok_iff.mp h
  refine ⟨rfl, hscope, ByIndex.forall₂ (fun i m method hm => ?_) hmethods⟩
  obtain ⟨input, output, hi, ho, rfl⟩ := contractMethod_eq_ok_iff.mp hm
  have hname : Naming.qualify (Naming.qualify s.descriptor.package descriptor.name) m.name =
      Naming.dotted [s.descriptor.package, descriptor.name, m.name] :=
    Naming.foldl_qualify [descriptor.name, m.name] _
  exact ⟨rfl, hname, takes_of_messageOf hi, takes_of_messageOf ho⟩

theorem fileFlattened_of_contractFile {messages : List Message} {file : File}
    (h : contractFile all s messages = .ok file) :
    FileFlattened all s.descriptor messages file := by
  obtain ⟨services, hservices, rfl⟩ := contractFile_eq_ok_iff.mp h
  refine ⟨rfl, rfl, enumerationsFlattened_contractEnumerations, ?_⟩
  exact ByIndex.forall₂ (fun _ _ _ hs => serviceFlattened_of_contractService hs)
    (contractServices_eq_ok_iff.mp hservices)

/-- **Flattening.** The contract of a request has the listed files in order. Of each it has all
messages but the map entries, all enumerations, and all services with their methods, and what a
method refers to is a message of some file of the request. -/
theorem flattened_of_contractFiles {options : Options} {request : Descriptor.Request}
    {annotations : Annotated.Request} {files : List File}
    (h : (contractFiles options request annotations).result = .ok files) :
    ∃ walked, Flattened (registryOf options request annotations) request walked files := by
  obtain ⟨resolved, hresolved, hfiles⟩ := contractFiles_eq_ok_iff.mp h
  rw [sourceFiles, List.forall₂_map_left_iff] at hresolved
  have hfrom : ∀ p ∈ resolved, ∃ d, p.1 = .ofDescriptor options request annotations d ∧
      (p.1.contractMessages (registryOf options request annotations)).result = .ok p.2 := by
    intro p hp
    obtain ⟨d, -, hd, hm⟩ := exists_left_of_forall₂ hresolved p hp
    exact ⟨d, hd, hd ▸ hm⟩
  let walked := resolved.map fun p => (p.1.descriptor, p.2)
  have hall : walked.map (·.1) = request.files := by
    rw [List.map_map, ← List.map_id request.files]
    refine (map_eq_map_of_forall₂ (hresolved.imp fun d p hp => ?_)).symm
    rw [Function.comp_apply, hp.1]
    rfl
  have hflat : walked.flatMap (·.2) = resolved.flatMap (·.2) := by
    rw [List.flatMap_map]
  have hlisted : List.Forall₂ (fun p => FileFlattened (walked.flatMap (·.2)) p.1 p.2)
      (walked.filter fun p => p.1.name ∈ request.listed) files := by
    have hfilter : resolved.filter (·.1.isListed) =
        resolved.filter fun p => p.1.descriptor.name ∈ request.listed := by
      apply List.filter_congr
      intro p hp
      obtain ⟨d, hd, -⟩ := hfrom p hp
      rw [hd]
      simp [SourceFile.ofDescriptor]
    rw [hfilter] at hfiles
    rw [List.filter_map, List.forall₂_map_left_iff, hflat]
    exact hfiles.imp fun p file hfile => fileFlattened_of_contractFile hfile
  refine ⟨walked, hall, ?_, hlisted, ?_⟩
  · intro p hp
    obtain ⟨q, hq, rfl⟩ := List.mem_map.mp hp
    obtain ⟨d, -, hm⟩ := hfrom q hq
    exact messagesFlattened_of_contractMessages hm
  · rw [← hall, List.map_map, List.filter_map]
    exact (map_eq_map_of_forall₂ (hlisted.imp fun p file hfile => hfile.name.symm)).symm

/-- Two listed files around one that is not. A map entry has a message and an enumeration nested in
it, and a method refers to messages of the other files with dots in front. -/
def gardenRequest : Descriptor.Request where
  listed := ["tools.proto", "beds.proto"]
  files := [{
      name? := some "beds.proto"
      package := "garden"
      messages := [{
          name := "Bed"
          fields :=
            [{ name := "rows", label := 3, type := some 11, typeName := ".garden.Bed.RowsEntry" },
             { name := "length", type := some 5 }]
          nested := [{
              name := "RowsEntry"
              isMapEntry := true
              fields :=
                [{ name := "key", number := 1, type := some 9 },
                 { name := "value", number := 2, type := some 9 }]
              nested := [{ name := "Mark" }]
              enumerations := [⟨"Side", ["LEFT", "RIGHT"]⟩] },
            { name := "Plant", enumerations := [⟨"Stage", ["SEED", "GROWN"]⟩] }] },
        { name := "Border" }]
      enumerations := [⟨"Season", ["SPRING", "AUTUMN"]⟩] },
    { name? := some "seeds.proto", package := "seeds", messages := [{ name := "Seed" }] },
    { name? := some "tools.proto",
      services :=
        [⟨"Gardening", [⟨"Sow", "..seeds.Seed", ".garden.Bed.Plant"⟩]⟩] }]

/-- The messages of the first file are `garden.Bed`, `garden.Bed.RowsEntry.Mark`,
`garden.Bed.Plant` and `garden.Border`. -/
theorem flattened_gardenRequest : ∃ files,
    (contractFiles {} gardenRequest {}).result = .ok files ∧
      ∃ walked, Flattened (registryOf {} gardenRequest {}) gardenRequest walked files := by
  obtain ⟨files, h⟩ : ∃ files, (contractFiles {} gardenRequest {}).result = .ok files :=
    exists_ok_of_isOk (by decide +kernel)
  exact ⟨files, h, flattened_of_contractFiles h⟩

end Contract

end RestScaffold
