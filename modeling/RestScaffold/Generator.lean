import RestScaffold.Contract.Resolution
import RestScaffold.Target.Artifact
import RestScaffold.Response

/-! # Generation

From a request and its annotations to the generated files.

* `banner`: the comment at the head of every file;
* `publish`: adds an artifact to those that are done, unless its path is taken;
* `generate`: all files of a run;
* `respond`: the response to a run, with the fault in place of the files. -/

namespace RestScaffold

open Contract (File contractFiles)
open Target (Generated artifactsOf)

/-! ### The banner -/

/-- The name of the generator. -/
def generatorName : String := "protoc-gen-spring"

/-- The version of the generator. -/
def generatorVersion : String := "0.1.0"

/-- The compiler and its version. -/
def compilerText : Option Descriptor.Version → String
  | none => "protoc (unknown)"
  | some v =>
    "protoc v" ++ toString v.major.toInt ++ "." ++ toString v.minor.toInt ++ "." ++
      toString v.patch.toInt ++ (if v.suffix = "" then "" else "-" ++ v.suffix)

/-- The comment at the head of every file: who made it, and from what. -/
def banner (compiler : Option Descriptor.Version) : String :=
  Text.joinLines
    ["// Code generated by " ++ generatorName ++ ". DO NOT EDIT.",
     "// versions:",
     "// \t" ++ generatorName ++ " v" ++ generatorVersion,
     "// \t" ++ compilerText compiler]

/-! ### Files -/

/-- An output file with the full name of the declaration that claimed its path. -/
structure Published where
  output : OutputFile
  origin : String

/-- Adds an artifact of `file` to what is done. A path belongs to its first claimant. -/
def publish (head : String) (verbose : Bool) (file : File) (done : List Published)
    (g : Generated) : Run (List Published) :=
  let path := g.artifact.path
  match done.find? (·.output.name = path) with
  | some first => Run.ofExcept (.error (.outputClash path first.origin g.origin))
  | none => do
    if verbose then Run.notify (.generating path file.name)
    return done ++ [⟨⟨path, head ++ "\n\n" ++ g.artifact.text⟩, g.origin⟩]

/-- Adds the artifacts of a file to what is done; all of them are made before any is added. -/
def publishFile (options : Options) (head : String) (done : List Published) (file : File) :
    Run (List Published) := do
  let artifacts ← Run.ofExcept (artifactsOf options file)
  artifacts.foldlM (publish head options.verbose file) done

/-- The generated files of a request. -/
def generate (request : Descriptor.Request) (annotations : Annotated.Request) :
    Run (List OutputFile) := do
  let options ← Run.ofExcept (Options.parse request.parameter)
  let files ← contractFiles options request annotations
  let published ← files.foldlM (publishFile options (banner request.compiler)) []
  return published.map (·.output)

/-- The response that a run comes to: its files, or the text of its fault and no files. -/
def respond (run : Run (List OutputFile)) : Response :=
  match run.result with
  | .ok files => { files := files }
  | .error fault => { error := some fault.message }

end RestScaffold
