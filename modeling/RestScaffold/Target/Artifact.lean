import RestScaffold.Target.Bean
import RestScaffold.Target.Controller
import RestScaffold.Target.EnumClass

/-! # Artifacts

The sources that are generated: `Artifact.path` says where one goes and `Artifact.text` what is
in it, without blanks around it. `artifactsOf` lists those of a contract file. -/

namespace RestScaffold.Target

open Contract (File)

/-- A source to be generated. -/
inductive Artifact where
  | bean (b : Bean)
  | enumClass (e : EnumClass)
  | serviceInterface (i : ServiceInterface)
  | controller (c : Controller)

namespace Artifact

/-- The package that the source is in. -/
def package : Artifact → String
  | .bean b => b.package
  | .enumClass e => e.package
  | .serviceInterface i => i.package
  | .controller c => c.package

/-- The name of the class that the source declares. -/
def name : Artifact → String
  | .bean b => b.name
  | .enumClass e => e.name
  | .serviceInterface i => i.name
  | .controller c => c.name

/-- Where the source goes. -/
def path (a : Artifact) : String :=
  sourcePath a.package a.name

/-- The source. -/
def text (a : Artifact) : String :=
  Text.trim <| match a with
    | .bean b => b.text
    | .enumClass e => e.text
    | .serviceInterface i => i.text
    | .controller c => c.text

end Artifact

/-- An artifact with the full name of the declaration that it is generated for. -/
structure Generated where
  artifact : Artifact
  origin : String

/-- The interface and the controller of a service. -/
def serviceArtifacts (options : Options) (file : File) (s : Contract.Service) :
    Except Fault (List Generated) := do
  let interface ← ServiceInterface.ofService options file s
  let controller ← Controller.ofService options file s
  return [⟨.serviceInterface interface, s.fullName⟩, ⟨.controller controller, s.fullName⟩]

/-- The artifacts of a file: beans, enum classes, then the two of each service. -/
def artifactsOf (options : Options) (file : File) : Except Fault (List Generated) := do
  let services ← file.services.mapM (serviceArtifacts options file)
  return file.messages.map (fun m => ⟨.bean (.ofMessage m), m.fullName⟩) ++
    file.enumerations.map (fun e => ⟨.enumClass (.ofEnumeration e), e.fullName⟩) ++
    services.flatten

end RestScaffold.Target
