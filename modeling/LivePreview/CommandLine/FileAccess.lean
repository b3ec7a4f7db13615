import LivePreview.Text.Search

/-!
Access to files, which the commands are given as a record of operations: it may be that of the
machine or that of a tree of files in memory.
-/

namespace LivePreview.CommandLine

/-- What a path leads to. -/
inductive EntryKind where
  | file
  | directory
deriving DecidableEq, Repr

/-- Why an operation on files fails. -/
inductive FileError where
  | notFound
  | alreadyThere
  | notDirectory
  | isDirectory
  /-- The content of the file is no text. -/
  | notText
  | other (message : String)
deriving DecidableEq, Repr

/-- What a file error is called. -/
def FileError.message : FileError → String
  | notFound => "No such file or directory (os error 2)"
  | alreadyThere => "File exists (os error 17)"
  | notDirectory => "Not a directory (os error 20)"
  | isDirectory => "Is a directory (os error 21)"
  | notText => "stream did not contain valid UTF-8"
  | other message => message

/-- Operations on files. -/
structure FileAccess (m : Type → Type) where
  /-- What a path leads to, if to anything. -/
  kind? : (path : String) → m (Option EntryKind)
  /-- The text in a file. -/
  read : (path : String) → m (Except FileError String)
  /-- What is in a directory, without what leads elsewhere. -/
  entries : (path : String) → m (List (String × EntryKind))
  makeDirectory : (path : String) → m (Except FileError Unit)
  write : (path content : String) → m (Except FileError Unit)
  /-- All that stands on the standard input. -/
  input : m (Except FileError String)

/-- A path below another one. -/
def joinPath (path name : String) : String :=
  if path = "" ∨ path.endsWith "/" then path ++ name else s!"{path}/{name}"

/-- The parts of a path that count: neither empty nor a dot that stands behind others. -/
def pathParts (path : String) : List (List Char) :=
  let parts := (Text.pieces ['/'] path.toList).filter (· ≠ [])
  parts.take 1 ++ (parts.drop 1).filter (· ≠ ['.'])

/-- The directory that a path lies in; it is empty for a name alone. -/
def parentPath? (path : String) : Option String :=
  let parts := (pathParts path).map String.ofList
  let start := if path.startsWith "/" then "/" else ""
  if parts = [] then none else some (start ++ "/".intercalate parts.dropLast)

namespace FileAccess

variable {m : Type → Type} [Monad m]

/-- Make a directory and those that it lies in; at most `depth` of them are missing. A directory that
is there already will do. -/
def makeDirectories (access : FileAccess m) :
    (depth : Nat) → (path : String) → m (Except FileError Unit)
  | 0, _ => pure (.error .notFound)
  | depth + 1, path => do
    if path = "" then return .ok ()
    match ← make path with
    | .error .notFound =>
      match parentPath? path with
      | none => pure (.error .notFound)
      | some parent =>
        match ← access.makeDirectories depth parent with
        | .ok () => make path
        | .error e => pure (.error e)
    | result => pure result
where
  /-- Make one directory. -/
  make (path : String) : m (Except FileError Unit) := do
    match ← access.makeDirectory path with
    | .ok () => pure (.ok ())
    | .error e =>
      if (← access.kind? path) = some .directory ∧ e ≠ .notFound then pure (.ok ())
      else pure (.error e)

/-- Directories that hold no sources. -/
def skipped : List String := ["node_modules", ".git", "dist"]

/-- The texts in the files below a directory, with their paths from there; directories may be nested
`depth` deep. What is no text is passed over, and so are certain directories. -/
def texts (access : FileAccess m) :
    (depth : Nat) → (path key : String) → m (List (String × String))
  | 0, _, _ => pure []
  | depth + 1, path, key => do
    let found ← (← access.entries path).mapM fun entry => do
      let inner := joinPath path entry.1
      let innerKey := joinPath key entry.1
      match entry.2 with
      | .directory =>
        if skipped.contains entry.1 then pure [] else access.texts depth inner innerKey
      | .file =>
        match ← access.read inner with
        | .ok content => pure [(innerKey, content)]
        | .error _ => pure []
    pure found.flatten

/-- No path has more parts than this. -/
def deepest : Nat := 4096

end FileAccess

end LivePreview.CommandLine
