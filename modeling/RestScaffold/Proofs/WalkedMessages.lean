import RestScaffold.Proofs.ClassPackages
import RestScaffold.Proofs.Flattening

/-! # Messages of a run

The messages that are resolved for a contract: those of every file of the request but the map
entries, each made of the one at its place.

* `MessagesOf`: the messages of a file, and what is said of each and of the one it is made of;
* `walked_of_contractFiles`: the messages that a contract has are among them;
* `EveryMessage`, `everyMessage_of_contractFiles`: what each message has of the one it is made of,
  all messages of the run have. -/

namespace RestScaffold.Contract

/-- The messages of a file in the order of their places, map entries left out. `P` says what each
has of the one that it is made of. -/
def MessagesOf (P : Descriptor.Message → Message → Prop) (file : Descriptor.File)
    (messages : List Message) : Prop :=
  List.Forall₂ (fun path m => ∃ declared, file.message? path = some declared ∧
    declared.isMapEntry = false ∧ m.fullName = Naming.dotted (file.package :: file.namesTo path) ∧
      P declared m) (beanPaths file) messages

section

variable (options : Options) (request : Descriptor.Request) (annotations : Annotated.Request)
  (P : Descriptor.Message → Message → Prop) (files : List File)

/-- The contract has the message, or one of its methods takes or gives it. -/
def InContract (m : Message) : Prop :=
  ∃ file ∈ files, m ∈ file.messages ∨ ∃ s ∈ file.services, ∃ method ∈ s.methods,
    m = method.input ∨ m = method.output

/-- All files of a request have their messages, and the contract has no others. -/
structure EveryMessage : Prop where
  resolved : ∀ d ∈ request.files, ∃ messages,
    ((SourceFile.ofDescriptor options request annotations d).contractMessages
      (registryOf options request annotations)).result = .ok messages ∧ MessagesOf P d messages
  contract : ∀ m, InContract files m → Walked options request annotations m

end

variable {options : Options} {request : Descriptor.Request} {annotations : Annotated.Request}
  {P : Descriptor.Message → Message → Prop} {files : List File}

theorem messagesOf_of_contractMessages {registry : Registry} {s : SourceFile}
    (hP : ∀ d m, (contractMessage registry s d).result = .ok m → P d.descriptor m)
    {messages : List Message} (h : (s.contractMessages registry).result = .ok messages) :
    MessagesOf P s.descriptor messages := by
  refine (forall₂_comp (forall₂_beans s) (contractMessages_eq_ok_iff.mp h)).imp ?_
  rintro path m ⟨d, ⟨hd, he⟩, hm⟩
  have hproperty := hP d m hm
  obtain ⟨fields, -, rfl⟩ := contractMessage_eq_ok_iff.mp hm
  exact ⟨d.descriptor, hd.descriptor, he, hd.fullName, hproperty⟩

/-- The messages of a contract, and those that its methods take and give, are resolved. -/
theorem walked_of_contractFiles
    (h : (contractFiles options request annotations).result = .ok files) {m : Message}
    (hm : InContract files m) : Walked options request annotations m := by
  obtain ⟨all, hall, hfiles⟩ := forall₂_of_contractFiles h
  obtain ⟨file, hfile, hm⟩ := hm
  obtain ⟨d, hd, messages, hms, hok⟩ := exists_left_of_forall₂ hfiles file hfile
  obtain ⟨services, hservices, rfl⟩ := contractFile_eq_ok_iff.mp hok
  rcases hm with hm | ⟨s, hs, method, hmethod, hm⟩
  · exact ⟨d, (List.mem_filter.mp hd).1, messages, hms, hm⟩
  · obtain ⟨hinput, houtput⟩ := mem_of_contractServices hservices hs hmethod
    rcases hm with rfl | rfl
    · exact hall _ hinput
    · exact hall _ houtput

/-- What every resolved message has of the one that it is made of, all messages of a run have. -/
theorem everyMessage_of_contractFiles
    (hP : ∀ s d m, (contractMessage (registryOf options request annotations) s d).result = .ok m →
      P d.descriptor m)
    (h : (contractFiles options request annotations).result = .ok files) :
    EveryMessage options request annotations P files where
  resolved := by
    intro d hd
    obtain ⟨messages, hms⟩ := exists_contractMessages h hd
    exact ⟨messages, hms, messagesOf_of_contractMessages (hP _) hms⟩
  contract := fun _ hm => walked_of_contractFiles h hm

end RestScaffold.Contract
