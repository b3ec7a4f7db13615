import LivePreview.Config.Wire
import LivePreview.Toml.Layout
import LivePreview.Toml.Statement
import LivePreview.Yaml.Layout
import LivePreview.Yaml.Node

/-!
The formats in which a configuration is kept, told by the extension of a file's name.
-/

namespace LivePreview.Config

/-- A format of configurations. -/
inductive Format where
  | toml
  | yaml
deriving DecidableEq, Repr

/-- Why a text gives no configuration. -/
inductive ReadError where
  /-- The text is not well formed, or its values have the wrong types. -/
  | malformed (format : Format)
  | invalid (e : ConfigError)
deriving DecidableEq, Repr

namespace Format

/-- The name of the file that a path leads to: its last part that is not just a dot. -/
def fileName? (path : List Char) : Option (List Char) :=
  let parts := (Text.pieces ['/'] path).filter fun part => part ≠ [] ∧ part ≠ ['.']
  parts.getLast?.filter (· ≠ ['.', '.'])

/-- The extension of a file's name: what follows its last point, unless that is its first
character. -/
def extensionOf? (name : List Char) : Option (List Char) :=
  let stem := (name.reverse.dropWhile (· ≠ '.')).drop 1
  if stem = [] then none else some (name.reverse.takeWhile (· ≠ '.')).reverse

/-- The format of a file. -/
def ofPath? (path : String) : Option Format := do
  let suffix ← extensionOf? (← fileName? path.toList)
  if suffix = "toml".toList then pure toml
  else if suffix = "yaml".toList ∨ suffix = "yml".toList then pure yaml
  else none

/-- What is said of a file whose format is not known. -/
def unsupportedMessage (path : String) : String := s!"Unsupported config format: {path}"

end Format

/-- Read a configuration that need not make sense. A YAML text of blanks is an empty one. -/
def ofText? (format : Format) (content : String) : Option Config :=
  match format with
  | .toml => (Toml.parse? content).bind ofDocument?
  | .yaml =>
    if Text.trim content.toList = [] then some {} else (Yaml.parse? content).bind ofDocument?

/-- Read a configuration and check it. -/
def parse (format : Format) (content : String) : Except ReadError Config :=
  match ofText? format content with
  | none => .error (.malformed format)
  | some config =>
    match config.problem? with
    | some e => .error (.invalid e)
    | none => .ok config

/-- The text of a configuration. TOML cannot hold integers of more than 64 bits with a sign. -/
def render? (config : Config) (format : Format) : Option String :=
  match config.toJson, format with
  | .record fields, .toml => Toml.render? fields
  | .record fields, .yaml => some (Yaml.render fields)
  | _, _ => none

end LivePreview.Config
