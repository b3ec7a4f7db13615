import LivePreview.Json.Reader
import LivePreview.Linking.ScriptBody
import LivePreview.Script.ExportSet
import LivePreview.Script.Structure
import LivePreview.Script.Tags

/-!
The walk through the modules of a project, breadth first from its entry. Each module is taken once;
it brings definitions, styles and findings, and the modules it mentions wait their turn.
-/

namespace LivePreview.Linking

/-- What keeps a project from being linked. -/
inductive Problem where
  | missingFile (path : String)
  | invalidData (error : Json.Error)
  | broken (problem : Script.Problem)
  | undeclared (component : String)
  | missingExport (target name : String)
deriving DecidableEq, Repr

/-- What a problem is called. -/
def Problem.message : Problem → String
  | missingFile path => s!"Could not load \"{path}\""
  | invalidData error => s!"Invalid JSON: {error.message}"
  | broken problem => problem.message
  | undeclared component => s!"ReferenceError: {component} is not defined"
  | missingExport target name => s!"No matching export in \"{target}\" for import \"{name}\""

/-- A problem and where it shows. -/
structure Finding where
  problem : Problem
  path : String
  place? : Option Text.Place
deriving DecidableEq, Repr

/-- A problem at a byte offset of a file. -/
def Finding.at (problem : Problem) (path : String) (source : List Char) (offset : Nat) : Finding :=
  ⟨problem, path, Text.placeAt? source offset⟩

/-- A style sheet that takes part in a bundle. -/
structure StyleSheet where
  path : String
  content : String
deriving DecidableEq, Repr

/-- The section of a style sheet in the styles of a page. -/
def StyleSheet.section (sheet : StyleSheet) : String :=
  s!"/* {sheet.path} */\n" ++ String.ofList (Text.trimEnd sheet.content.toList) ++ "\n"

/-- How far the walk has come. -/
structure Walk where
  /-- Modules that wait for their turn. -/
  waiting : List String
  /-- The identifiers of all modules that were ever put in line or defined. -/
  seen : List String
  /-- The files taken, in order. -/
  modules : List String
  /-- The modules of the registry by identifier. -/
  definitions : List (String × List Char)
  styles : List StyleSheet
  findings : List Finding
  outside : Outside
  /-- The number of imports bound so far. -/
  count : Nat
deriving DecidableEq, Repr

namespace Walk

/-- The start of a walk. -/
def start (entry : String) : Walk := ⟨[entry], [entry], [], [], [], [], .empty, 0⟩

/-- Put a module in line, unless it was seen before. -/
def visit (walk : Walk) (path : String) : Walk :=
  if walk.seen.contains path then walk
  else { walk with waiting := walk.waiting ++ [path], seen := walk.seen ++ [path] }

/-- Define a module. -/
def define (walk : Walk) (id : String) (body : List Char) : Walk :=
  { walk with definitions := walk.definitions ++ [(id, body)] }

/-- Add findings. -/
def report (walk : Walk) (findings : List Finding) : Walk :=
  { walk with findings := walk.findings ++ findings }

/-- Add a style sheet, unless it is there. -/
def style (walk : Walk) (path content : String) : Walk :=
  if walk.styles.any (·.path == path) then walk
  else { walk with styles := walk.styles ++ [⟨path, content⟩] }

/-- A finding for each required export that the target does not provide. -/
def missingExports (files : Sources) (importer : String) (source : List Char) (target : String)
    (mention : Mention) : List Finding :=
  match files.get? target with
  | none => []
  | some content =>
    if mention.required = [] then []
    else
      let exports := Script.ExportSet.ofSource content.toList
      (mention.required.filter (!exports.provides ·)).map fun name =>
        .at (.missingExport target name) importer source mention.offset

/-- Follow a mention of a module. -/
def follow (files : Sources) (importer : String) (source : List Char) (walk : Walk)
    (mention : Mention) : Walk :=
  let target := files.resolve importer mention.name
  let walk := { walk with outside := walk.outside.note importer target }
  match target with
  | .file path =>
    match FileKind.ofPath? path with
    | some .style =>
      match files.get? path with
      | some content => { walk.style path content with modules := walk.modules ++ [path] }
      | none => walk
    | some .script => (walk.report (missingExports files importer source path mention)).visit path
    | _ => walk.visit path
  | .asset id source =>
    if walk.seen.contains id then walk
    else { walk with seen := walk.seen ++ [id] }.define id (assignExports source.toList)
  | .package _ => walk
  | .unknown _ => walk

/-- Take a script. What is not balanced is not read any further. -/
def takeScript (files : Sources) (walk : Walk) (path : String) (source : List Char) : Walk :=
  match Script.structureIssue? source with
  | some issue => walk.report [.at (.broken issue.problem) path source issue.offset]
  | none =>
    let undeclared := (Script.undeclaredComponents source).map fun tag =>
      Finding.at (.undeclared (String.ofList tag.1)) path source tag.2
    let script := Importing.ofScript (registered? files path) walk.count source
    let walk := { walk.report undeclared with count := script.count }
    (script.mentions.foldl (follow files path source) walk).define path (assignExports script.body)

/-- Take a data file, whose text is the value it exports. -/
def takeData (walk : Walk) (path content : String) : Walk :=
  match Json.parse content with
  | .ok _ =>
    walk.define path ("module.exports = ".toList ++ Text.trim content.toList ++ [';'])
  | .error e => walk.report [⟨.invalidData e, path, some ⟨e.line, e.column⟩⟩]

/-- Take the module at a path. -/
def take (files : Sources) (walk : Walk) (path : String) : Walk :=
  match files.get? path with
  | none => walk.report [⟨.missingFile path, path, none⟩]
  | some content =>
    let walk := { walk with modules := walk.modules ++ [path] }
    match FileKind.ofPath? path with
    | some .data => walk.takeData path content
    | some .style => walk.style path content
    | _ => takeScript files walk path content.toList

/-- Take the modules in line, at most as many as given. -/
def run (files : Sources) : (most : Nat) → Walk → Walk
  | 0, walk => walk
  | most + 1, walk =>
    match walk.waiting with
    | [] => walk
    | path :: waiting => run files most (take files { walk with waiting := waiting } path)

end Walk

/-- The whole walk from an entry. Only files of the project are put in line, each once, so that no
more than these and the entry are taken. -/
def walkFrom (files : Sources) (entry : String) : Walk :=
  Walk.run files (files.size + 1) (.start entry)

end LivePreview.Linking
