import LivePreview.Asset
import LivePreview.Sources
import LivePreview.Text.NameSet

/-!
What the name in an import stands for: a file of the project, an asset, an installed package, or
nothing that is known, which is left to the page as if it were a package.
-/

namespace LivePreview

/-- What an import name stands for. -/
inductive Resolution where
  | file (path : String)
  /-- An asset, known by `id`, whose stand-in is the module `source`. -/
  | asset (id source : String)
  | package (name : String)
  | unknown (name : String)
deriving DecidableEq, Repr

/-- The path a name leads to from the file that mentions it, if the name is relative. -/
def Path.follow? (importer name : String) : Option String :=
  if isRelative name then some (join (directory importer) name) else none

/-- What a name stands for in the file `importer`. The file called so from the root wins over the
one called so from the directory of the importer. -/
def Sources.resolve (files : Sources) (importer name : String) : Resolution :=
  let followed := Path.follow? importer name
  match (files.locate? (Path.normalize name)).or (followed.bind files.locate?) with
  | some path => .file path
  | none =>
    if Asset.isAsset name then
      .asset ("asset:" ++ followed.getD (Path.normalize name)) (Asset.standInModule name)
    else if Path.isBare name then .package name
    else .unknown name

/-- What a project needs from outside: the packages it names, and a warning for each import of
something unknown, in the order of the imports. -/
structure Outside where
  packages : NameSet
  warnings : List String
deriving DecidableEq, Repr, Inhabited

namespace Outside

/-- Nothing needed yet. -/
def empty : Outside := ⟨.empty, []⟩

/-- The warning about a name that stands for nothing known. -/
def unknownWarning (importer name : String) : String :=
  s!"Could not resolve \"{name}\" from \"{importer}\"; treating it as external"

/-- The needs with those of one more import. -/
def note (outside : Outside) (importer : String) : Resolution → Outside
  | .package name => { outside with packages := outside.packages.insert name }
  | .unknown name =>
    { outside with warnings := outside.warnings ++ [unknownWarning importer name] }
  | _ => outside

end Outside

end LivePreview
