import RestScaffold.Target.Layout
import RestScaffold.Target.Type

/-! # Skeletons

A skeleton is a source with placeholders such as `<name>`.

* `fill`: every placeholder replaced by its value in one pass; values are not searched again;
* `header`: the package line and the import lines of a source;
* `sourcePath`: the path of the source of a class. -/

namespace RestScaffold.Target

/-! ### Placeholders -/

/-- Replaces placeholders from left to right. `skip` counts the characters that still belong to
the placeholder just replaced. Where several placeholders fit, the first of the list counts. -/
def fillFrom (values : List (List Char × List Char)) (skip : Nat) : List Char → List Char
  | [] => []
  | c :: cs =>
    match skip with
    | skip + 1 => fillFrom values skip cs
    | 0 =>
      if c = '<' then
        match values.find? fun v => v.1.isPrefixOf (c :: cs) with
        | some (placeholder, value) => value ++ fillFrom values (placeholder.length - 1) cs
        | none => c :: fillFrom values 0 cs
      else c :: fillFrom values 0 cs

/-- The skeleton with each placeholder replaced by its value. -/
def fill (skeleton : String) (values : List (String × String)) : String :=
  String.ofList
    (fillFrom (values.map fun v => (v.1.toList, v.2.toList)) 0 skeleton.toList)

/-! ### What stands around a class -/

/-- The package in front of the last dot of an import. -/
def importOwner (path : String) : String :=
  match Text.cutAtLast '.' path with
  | some (owner, _) => owner
  | none => ""

/-- The import lines of a source of `package`: its own package and `java.lang` need none. -/
def importLines (package : String) (imports : List String) : List String :=
  (imports.filter fun path =>
    importOwner path ≠ package && importOwner path ≠ "java.lang").map fun path =>
      "import " ++ path ++ ";"

/-- The package line, if there is a package, and the import lines, if there are any. -/
def header (package : String) (imports : List String) : String :=
  let packageLine := if package = "" then [] else ["package " ++ package ++ ";"]
  let lines := importLines package imports
  let importBlock := if lines = [] then [] else [Text.joinLines lines]
  "\n\n".intercalate (packageLine ++ importBlock)

/-- The documentation comment of a class, with the line feed that ends it. -/
def classComment (comment : String) : String :=
  if comment = "" then "" else layout 0 [.doc comment] ++ "\n"

/-- The path of the source of a class. -/
def sourcePath (package name : String) : String :=
  if package = "" then name ++ ".java"
  else Naming.packagePath package ++ "/" ++ name ++ ".java"

end RestScaffold.Target
