import LivePreview.CommandLine.FileAccess

/-!
A tree of files in memory, and access to it. Every path starts at the root of the tree, and a path
with a slash at its end leads to a directory.
-/

namespace LivePreview.CommandLine

/-- A tree of files: the paths of its directories, but for the root, and of its files with their
content. -/
structure FileTree where
  directories : List (List String)
  files : List (List String × ByteArray)

namespace FileTree

/-- A tree without files. -/
def empty : FileTree := ⟨[], []⟩

/-- What stands at a path. -/
def kindAt? (tree : FileTree) (parts : List String) : Option EntryKind :=
  if parts = [] ∨ tree.directories.contains parts then some .directory
  else (tree.files.lookup parts).map fun _ => .file

/-- The tree with a directory and those that it lies in. -/
def addDirectory (tree : FileTree) : (above parts : List String) → FileTree
  | _, [] => tree
  | above, part :: parts =>
    let path := above ++ [part]
    let tree := if tree.directories.contains path then tree else
      { tree with directories := tree.directories ++ [path] }
    addDirectory tree path parts

/-- The tree with a file. -/
def put (tree : FileTree) (parts : List String) (content : ByteArray) : FileTree :=
  { tree with files := tree.files.filter (·.1 != parts) ++ [(parts, content)] }

/-- The tree with a file and the directories that it lies in. -/
def add (tree : FileTree) (parts : List String) (content : ByteArray) : FileTree :=
  (tree.addDirectory [] parts.dropLast).put parts content

/-- The parts of a path as it is written. -/
def partsOf (path : String) : List String := (Text.pieces ['/'] path.toList).map String.ofList

/-- Go from a directory along the parts of a path. -/
def walk (tree : FileTree) : (start parts : List String) → Except FileError (List String)
  | place, [] => .ok place
  | place, part :: parts =>
    if tree.kindAt? place ≠ some .directory then .error .notDirectory
    else if part = "" ∨ part = "." then walk tree place parts
    else if part = ".." then walk tree place.dropLast parts
    else
      let inner := place ++ [part]
      match tree.kindAt? inner with
      | none => .error .notFound
      | some .directory => walk tree inner parts
      | some .file => if parts = [] then .ok inner else .error .notDirectory

/-- Where a path leads. -/
def locate (tree : FileTree) (path : String) : Except FileError (List String) :=
  if path = "" ∨ path.startsWith "/" then .error .notFound else tree.walk [] (partsOf path)

/-- The directory in which something is to be made, its name there, and whether it can only be a
directory. -/
def locateNew (tree : FileTree) (path : String) : Except FileError (List String × String × Bool) := do
  let parts := partsOf path
  let named := parts.reverse.dropWhile (· == "")
  match named with
  | [] => .error .notFound
  | name :: before =>
    let place ← if path.startsWith "/" then .error .notFound else tree.walk [] before.reverse
    if tree.kindAt? place ≠ some .directory then .error .notDirectory
    else .ok (place, name, named.length < parts.length)

/-- What a path leads to, if to anything. -/
def kind? (tree : FileTree) (path : String) : Option EntryKind :=
  match tree.locate path with
  | .ok parts => tree.kindAt? parts
  | .error _ => none

/-- The text in a file. -/
def read (tree : FileTree) (path : String) : Except FileError String := do
  let parts ← tree.locate path
  match tree.files.lookup parts with
  | none => .error .isDirectory
  | some content =>
    match String.fromUTF8? content with
    | some s => .ok s
    | none => .error .notText

/-- The names in a directory. -/
def entries (tree : FileTree) (path : String) : List (String × EntryKind) :=
  match tree.locate path with
  | .error _ => []
  | .ok place =>
    let named (kind : EntryKind) (parts : List String) : Option (String × EntryKind) :=
      if parts.dropLast = place then parts.getLast?.map fun name => (name, kind) else none
    tree.directories.filterMap (named .directory) ++
      (tree.files.map (·.1)).filterMap (named .file)

/-- A name that does not stand for something new. -/
def isDots (name : String) : Bool := name == "." || name == ".."

/-- The tree with a new directory. -/
def makeDirectory (tree : FileTree) (path : String) : Except FileError FileTree := do
  let (place, name, _) ← tree.locateNew path
  if isDots name ∨ (tree.kindAt? (place ++ [name])).isSome then .error .alreadyThere
  else .ok { tree with directories := tree.directories ++ [place ++ [name]] }

/-- The tree with a text in a file. A path to a directory is no place for it. -/
def write (tree : FileTree) (path content : String) : Except FileError FileTree := do
  let (place, name, isForDirectory) ← tree.locateNew path
  let parts := place ++ [name]
  if isForDirectory ∨ isDots name ∨ tree.kindAt? parts = some .directory then .error .isDirectory
  else .ok (tree.put parts content.toUTF8)

/-- Make a change that may fail. -/
def change (step : FileTree → Except FileError FileTree) :
    StateM FileTree (Except FileError Unit) := fun tree =>
  match step tree with
  | .ok tree => (.ok (), tree)
  | .error e => (.error e, tree)

/-- Access to a tree, with a text on the standard input. -/
def access (input : String) : FileAccess (StateM FileTree) where
  kind? path := fun tree => (tree.kind? path, tree)
  read path := fun tree => (tree.read path, tree)
  entries path := fun tree => (tree.entries path, tree)
  makeDirectory path := change fun tree => tree.makeDirectory path
  write path content := change fun tree => tree.write path content
  input := pure (.ok input)

end FileTree

end LivePreview.CommandLine
