import RestScaffold.Contract.Declared
import RestScaffold.Options
import RestScaffold.Text.Blank

/-! # Source files

A contract file with what the run as a whole decides about it: whether sources are generated for
it, the packages that they are in, and the annotations that belong to it.

* `SourceFile.ofDescriptor`: those decisions;
* `SourceFile.comment`: the comment of the declaration at a place. -/

namespace RestScaffold.Contract

/-- A file of a run. -/
structure SourceFile where
  descriptor : Descriptor.File
  annotated : Option Annotated.File
  /-- Are sources generated for the file? -/
  isListed : Bool
  /-- The base package. -/
  package : String
  /-- The package of beans and enum classes. -/
  beanPackage : String

/-- The base package of a file: what the options say counts for listed files only, then what the
file asks for, then the package of its declarations. -/
def basePackage (options : Options) (isListed : Bool) (file : Descriptor.File) : String :=
  let own := file.javaPackage.getD file.package
  if isListed then options.basePackage.getD own else own

/-- The package of a file's beans. The classes of a file that is not listed come from elsewhere,
so that a package that it asks for is taken as it is. -/
def beanPackage (options : Options) (isListed : Bool) (file : Descriptor.File) : String :=
  match file.javaPackage, isListed with
  | some package, false => package
  | _, _ => Naming.qualify (basePackage options isListed file) options.beanPackage

/-- A file of a request, with its part in the run. -/
def SourceFile.ofDescriptor (options : Options) (request : Descriptor.Request)
    (annotations : Annotated.Request) (file : Descriptor.File) : SourceFile :=
  let isListed := request.listed.contains file.name
  { descriptor := file
    annotated := annotations.file? file.name
    isListed := isListed
    package := basePackage options isListed file
    beanPackage := Contract.beanPackage options isListed file }

/-- The comment at a place: of several that are not blank the last counts. -/
def SourceFile.comment (s : SourceFile) (path : Path) : String :=
  let atPath := (s.descriptor.locations.filter (·.path = path)).map fun l =>
    Text.trimMarks l.leadingComment
  ((atPath.filter (· ≠ "")).getLast?).getD ""

/-- All messages of the file. -/
def SourceFile.declared (s : SourceFile) : List DeclaredMessage :=
  declaredMessages s.descriptor s.annotated

end RestScaffold.Contract
