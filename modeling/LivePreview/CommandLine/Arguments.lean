import LivePreview.Config.Format
import LivePreview.Text.Search

/-!
The arguments of the program: flags with one letter or a whole name, with or without a value, then a
command with flags and words of its own. Arguments are read from left to right, and the first one that
asks for help or for the version, or that makes no sense, decides.
-/

namespace LivePreview.CommandLine

/-- What the program is asked to do. -/
inductive Command where
  | bundle (dir : String) (out? config? : Option String) (json : Bool)
  | classify (errors : List String) (stdin json : Bool)
  | heal (dir : String) (config? : Option String) (write json : Bool)
  | config (output? : Option String) (format : Config.Format)
deriving DecidableEq, Repr

/-- What help is asked about. -/
inductive Topic where
  | program (spelledOut : Bool)
  | command (name : String)
  /-- The help command itself. -/
  | help
deriving DecidableEq, Repr

/-- What comes of the arguments. -/
inductive Request where
  | run (command : Command)
  /-- Tell the version of the program or of a command. -/
  | version (name : String)
  | help (topic : Topic)
  | refused
deriving DecidableEq, Repr

/-- The values that a flag takes. -/
structure FlagValue where
  name : String
  /-- A remark on the values for the reader of the help. -/
  remark : String
  accepts : String → Bool

/-- A flag. -/
structure Flag where
  name : String
  letter? : Option Char
  about : String
  /-- What values the flag takes, if it takes one. -/
  value? : Option FlagValue

/-- How a flag was given. -/
structure FlagUse where
  flag : Flag
  value : String
  /-- The flag was given by its name, not by its letter. -/
  byName : Bool

/-- Which words there may be besides the flags. -/
inductive Words where
  | no
  /-- One path. -/
  | path (name about : String)
  | any (name about : String)
deriving DecidableEq, Repr

/-- Which flags, in the order in which the help tells them, and which words there may be. -/
structure Grammar where
  about : String
  words : Words
  flags : List Flag

/-- The flags and words that were given. -/
structure Given where
  flags : List (String × String)
  words : List String
deriving DecidableEq, Repr

/-- Why reading the arguments ends early. -/
inductive Stop where
  | help (spelledOut : Bool)
  | version
  | refused
deriving DecidableEq, Repr

/-- One more word fits behind `count` words. -/
def Words.accepts (count : Nat) (word : String) : Words → Bool
  | no => false
  | path _ _ => count = 0 ∧ word ≠ ""
  | any _ _ => true

namespace Given

/-- A flag was given. -/
def has (given : Given) (name : String) : Bool := (given.flags.lookup name).isSome

/-- The value of a flag. -/
def value? (given : Given) (name : String) : Option String := given.flags.lookup name

/-- Flags that exclude each other were given. -/
def isContradictory (given : Given) : Bool := given.has "verbose" && given.has "quiet"

/-- One more flag. A flag is given once, and with a value that it takes. -/
def addFlag (given : Given) (use : FlagUse) : Except Stop Given :=
  if use.flag.name = "help" then .error (.help use.byName)
  else if use.flag.name = "version" then .error .version
  else if given.has use.flag.name then .error .refused
  else if use.flag.value?.all (·.accepts use.value) then
    .ok { given with flags := given.flags ++ [(use.flag.name, use.value)] }
  else .error .refused

/-- One more word. -/
def addWord (words : Words) (given : Given) (word : String) : Except Stop Given :=
  if words.accepts given.words.length word then .ok { given with words := given.words ++ [word] }
  else .error .refused

end Given

/-- What a single argument is. -/
inductive Piece where
  | word
  /-- Flags that are complete. -/
  | flags (uses : List FlagUse)
  /-- Flags that are complete, and one whose value is the next argument. -/
  | unfinished (uses : List FlagUse) (last : Flag)
  | refused

namespace Grammar

/-- Flags by their letters, behind the dash. What follows the letter of a flag that takes a value is
the value. -/
def letters (grammar : Grammar) (uses : List FlagUse) : List Char → Piece
  | [] => .flags uses
  | c :: rest =>
    match grammar.flags.find? (·.letter? == some c) with
    | none => .refused
    | some flag =>
      if flag.value?.isNone then grammar.letters (uses ++ [⟨flag, "", false⟩]) rest
      else match rest with
        | [] => .unfinished uses flag
        | '=' :: value => .flags (uses ++ [⟨flag, String.ofList value, false⟩])
        | value => .flags (uses ++ [⟨flag, String.ofList value, false⟩])

/-- A flag by its name, behind the dashes. -/
def named (grammar : Grammar) (content : List Char) : Piece :=
  let (name, value?) := match Text.cut? ['='] content with
    | some (name, value) => (name, some (String.ofList value))
    | none => (content, none)
  match grammar.flags.find? (·.name.toList == name) with
  | none => .refused
  | some flag =>
    match flag.value?.isSome, value? with
    | false, none => .flags [⟨flag, "", true⟩]
    | false, some _ => .refused
    | true, none => .unfinished [] flag
    | true, some value => .flags [⟨flag, value, true⟩]

/-- What an argument is. -/
def piece (grammar : Grammar) (argument : String) : Piece :=
  match argument.toList with
  | '-' :: '-' :: name => grammar.named name
  | ['-'] => .word
  | '-' :: letters => grammar.letters [] letters
  | _ => .word

/-- An argument can be a value: it does not look like a flag. -/
def isValue (argument : String) : Bool := argument == "-" || !argument.startsWith "-"

/-- Read arguments. If there are to be no words, the first one ends the reading. -/
def read (grammar : Grammar) : List String → Given → Except Stop (Given × List String)
  | [], given => .ok (given, [])
  | "--" :: rest, given => do
    pure (← rest.foldlM (Given.addWord grammar.words) given, [])
  | argument :: rest, given =>
    match grammar.piece argument with
    | .refused => .error .refused
    | .word =>
      if grammar.words = .no then .ok (given, argument :: rest)
      else do grammar.read rest (← given.addWord grammar.words argument)
    | .flags uses => do grammar.read rest (← uses.foldlM Given.addFlag given)
    | .unfinished uses last => do
      let given ← uses.foldlM Given.addFlag given
      match rest with
      | [] => .error .refused
      | value :: rest =>
        if isValue value then grammar.read rest (← given.addFlag ⟨last, value, true⟩)
        else .error .refused

/-- A flag without a value. -/
def switch (name : String) (letter? : Option Char) (about : String) : Flag :=
  ⟨name, letter?, about, none⟩

/-- A flag whose value is a path. -/
def pathFlag (name : String) (letter : Char) (about : String) : Flag :=
  ⟨name, some letter, about, some ⟨name.toUpper, "", (· != "")⟩⟩

/-- The flag that asks for more lines in the log. -/
def verbose : Flag := switch "verbose" (some 'v') "Enable verbose output"

/-- The flag that asks for fewer lines in the log. -/
def quiet : Flag := switch "quiet" (some 'q') "Suppress non-essential output"

/-- The flags that are answered at once. -/
def answers (help : String) : List Flag :=
  [switch "help" (some 'h') help, switch "version" (some 'V') "Print version"]

/-- What stands before the command. -/
def front : Grammar where
  about := "previewforge - live-preview build and self-healing core"
  words := .no
  flags := [verbose, quiet] ++ answers "Print help"

/-- The words for the formats of configurations. -/
def formats : List (String × Config.Format) := [("toml", .toml), ("yaml", .yaml)]

/-- The flag that names a format. -/
def format : Flag where
  name := "format"
  letter? := none
  about := "Format used when printing to stdout"
  value? := some {
    name := "FORMAT"
    remark := "[default: toml] [possible values: toml, yaml]"
    accepts := fun s => (formats.lookup s).isSome }

/-- The flag that names a file with a configuration. -/
def configFlag : Flag :=
  pathFlag "config" 'c' "Configuration file (defaults to <DIR>/forge.toml)"

/-- The grammars of the commands. -/
def commands : List (String × Grammar) := [
  ("bundle", {
    about := "Bundle a project directory"
    words := .path "DIR" "Project directory to bundle"
    flags := [pathFlag "out" 'o' "Directory to write bundle.js and bundle.css into", verbose,
      configFlag, quiet, switch "json" none "Print the full result as JSON"] ++
      answers "Print help" }),
  ("classify", {
    about := "Classify raw error text"
    words := .any "ERRORS" "Raw error texts to classify"
    flags := [switch "stdin" none "Also read errors from stdin, separated by blank lines", verbose,
      switch "json" none "Print diagnoses as JSON", quiet] ++ answers "Print help" }),
  ("heal", {
    about := "Repair a project until it bundles"
    words := .path "DIR" "Project directory to heal"
    flags := [configFlag, verbose, quiet,
      switch "write" (some 'w') "Write patched files back into DIR",
      switch "json" none "Print the heal report as JSON"] ++ answers "Print help" }),
  ("config", {
    about := "Print or write the default configuration"
    words := .no
    flags := [pathFlag "output" 'o'
      "Write the configuration to this file instead of stdout (format from extension)", verbose,
      format, quiet] ++ answers "Print help" })]

end Grammar

/-- The command that flags and words ask for. -/
def Command.ofGiven? (name : String) (given : Given) : Option Command :=
  if given.isContradictory then none
  else match name, given.words with
    | "bundle", [dir] =>
      some (.bundle dir (given.value? "out") (given.value? "config") (given.has "json"))
    | "classify", errors => some (.classify errors (given.has "stdin") (given.has "json"))
    | "heal", [dir] =>
      some (.heal dir (given.value? "config") (given.has "write") (given.has "json"))
    | "config", [] =>
      let format := ((given.value? "format").bind fun s => Grammar.formats.lookup s).getD .toml
      some (.config (given.value? "output") format)
    | _, _ => none

namespace Request

/-- The name of the program. -/
def program : String := "forge"

/-- What comes of the arguments behind the name of a command. -/
def ofCommand (name : String) (arguments : List String) : Request :=
  match Grammar.commands.lookup name with
  | none => .refused
  | some grammar =>
    match grammar.read arguments ⟨[], []⟩ with
    | .error (.help _) => .help (.command name)
    | .error .version => .version s!"{program}-{name}"
    | .error .refused => .refused
    | .ok (given, rest) =>
      match rest, Command.ofGiven? name given with
      | [], some command => .run command
      | _, _ => .refused

/-- What comes of the arguments. -/
def ofArguments (arguments : List String) : Request :=
  match Grammar.front.read arguments ⟨[], []⟩ with
  | .error (.help spelledOut) => .help (.program spelledOut)
  | .error .version => .version program
  | .error .refused | .ok (_, []) => .refused
  | .ok (_, ["help"]) => .help (.program true)
  | .ok (_, ["help", name]) =>
    if name = "help" then .help .help
    else if (Grammar.commands.lookup name).isSome then .help (.command name)
    else .refused
  | .ok (given, name :: rest) =>
    match ofCommand name rest with
    | .run command => if given.isContradictory then .refused else .run command
    | other => other

end Request

end LivePreview.CommandLine
