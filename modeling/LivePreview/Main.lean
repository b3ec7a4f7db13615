import LivePreview.CommandLine.Session

/-!
The program on the files and the standard streams of the machine.
-/

namespace LivePreview.CommandLine

/-- What an operation of the machine fails with. -/
def FileError.ofError : IO.Error → FileError
  | .noFileOrDirectory .. => .notFound
  | .alreadyExists .. => .alreadyThere
  | .inappropriateType _ code _ => if code = 20 then .notDirectory else .isDirectory
  | .permissionDenied _ code details
  | .invalidArgument _ code details
  | .resourceExhausted _ code details
  | .otherError code details => .other s!"{details} (os error {code})"
  | e => .other (toString e)

/-- The result of an operation of the machine. -/
def attempt {α : Type} (step : IO α) : IO (Except FileError α) := do
  match ← step.toBaseIO with
  | .ok a => pure (.ok a)
  | .error e => pure (.error (.ofError e))

/-- What a file of the machine is. -/
def EntryKind.ofType? : IO.FS.FileType → Option EntryKind
  | .file => some .file
  | .dir => some .directory
  | _ => none

/-- Access to the files of the machine. -/
def machineAccess : FileAccess IO where
  kind? path := do
    let found ← attempt (do ((← IO.currentDir) / path).metadata)
    match found with
    | .ok data => pure (some (if data.type == .dir then .directory else .file))
    | .error _ => pure none
  read path := do
    let found ← attempt (do IO.FS.readBinFile ((← IO.currentDir) / path))
    match found with
    | .ok content => pure (match String.fromUTF8? content with
      | some s => .ok s
      | none => .error .notText)
    | .error e => pure (.error e)
  entries path := do
    let found ← attempt (do
      let listed ← ((← IO.currentDir) / path).readDir
      listed.toList.filterMapM fun entry => do
        let kind? := EntryKind.ofType? (← entry.path.symlinkMetadata).type
        pure (kind?.map fun kind => (entry.fileName, kind)))
    match found with
    | .ok names => pure names
    | .error _ => pure []
  makeDirectory path := attempt (do IO.FS.createDir ((← IO.currentDir) / path))
  write path content := attempt (do IO.FS.writeFile ((← IO.currentDir) / path) content)
  input := do
    let found ← attempt (do (← IO.getStdin).readBinToEnd)
    match found with
    | .ok content => pure (match String.fromUTF8? content with
      | some s => .ok s
      | none => .error .notText)
    | .error e => pure (.error e)

end LivePreview.CommandLine

open LivePreview.CommandLine in
/-- Run the program. -/
def main (arguments : List String) : IO UInt32 := do
  let outcome ← Outcome.ofArguments machineAccess arguments
  IO.print outcome.printed
  if let some complaint := outcome.complaint? then IO.eprintln complaint
  pure (UInt32.ofNat outcome.exitCode)
