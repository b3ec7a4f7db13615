import LivePreview.CommandLine.Arguments

/-!
The help that the program prints: what it is about, how it is used, and a table of its commands, words
and flags, each with what it stands for in a second column.
-/

namespace LivePreview.CommandLine.Help

/-- What the program is about, at length. -/
def overview : String :=
  "previewforge bundles AI-generated front-end projects from memory, classifies\n" ++
  "what goes wrong and repairs it.\n\n" ++
  "COMMANDS:\n" ++
  "  bundle    → Bundle a project directory into bundle.js / bundle.css\n" ++
  "  classify  → Classify raw compiler or runtime error text\n" ++
  "  heal      → Bundle, diagnose and patch until the project builds\n" ++
  "  config    → Print or write the default configuration\n\n" ++
  "EXIT CODES:\n" ++
  "  0 - Success\n" ++
  "  1 - General error\n" ++
  "  2 - Invalid arguments\n" ++
  "  3 - Build failure\n" ++
  "  4 - Configuration error\n"

/-- The command that prints help. -/
def helpCommand : String × Grammar :=
  ("help", {
    about := "Print this message or the help of the given subcommand(s)"
    words := .any "COMMAND" "Print help for the subcommand(s)"
    flags := [] })

/-- A flag as it is written. -/
def flagLabel (flag : Flag) : String :=
  let start := match flag.letter? with
    | some letter => s!"-{letter}, "
    | none => "    "
  let value := match flag.value? with
    | some value => s!" <{value.name}>"
    | none => ""
  s!"{start}--{flag.name}{value}"

/-- What a flag stands for. -/
def flagAbout (flag : Flag) : String :=
  match flag.value? with
  | some value => if value.remark = "" then flag.about else s!"{flag.about} {value.remark}"
  | none => flag.about

/-- The words that may be given, and what they stand for. -/
def wordRow? : Words → Option (String × String)
  | .no => none
  | .path name about => some (s!"<{name}>", about)
  | .any name about => some (s!"[{name}]...", about)

/-- A part of the help: a heading and a table. -/
def table (heading : String) (rows : List (String × String)) : String :=
  let width := (rows.map (·.1.length)).foldl max 0
  let row (entry : String × String) : String :=
    let padding := String.ofList (List.replicate (width - entry.1.length) ' ')
    s!"\n  {entry.1}{padding}  {entry.2}"
  if rows = [] then "" else s!"\n\n{heading}:{String.join (rows.map row)}"

/-- How the program or one of its commands is used. -/
def usage (name : String) (grammar : Grammar) (rest : String) : String :=
  let options := if grammar.flags.isEmpty then "" else " [OPTIONS]"
  s!"Usage: {name}{options}{rest}"

/-- The help on a command. -/
def ofCommand (name : String) (grammar : Grammar) : String :=
  let words := (wordRow? grammar.words).toList
  let flags := grammar.flags.map fun flag => (flagLabel flag, flagAbout flag)
  let rest := String.join (words.map fun row => " " ++ row.1)
  let usage := usage s!"{Request.program} {name}" grammar rest
  s!"{grammar.about}\n\n{usage}" ++ table "Arguments" words ++ table "Options" flags ++ "\n"

/-- The flags in front of a command, with a hint at the other help. -/
def frontFlags (hint : String) : List (String × String) :=
  Grammar.front.flags.map fun flag =>
    (flagLabel flag, if flag.name = "help" then s!"{flag.about} ({hint})" else flagAbout flag)

/-- The table of the commands. -/
def commandTable : String :=
  let rows := (Grammar.commands ++ [helpCommand]).map fun entry => (entry.1, entry.2.about)
  table "Commands" rows

/-- How the whole program is used. -/
def programUsage : String := usage Request.program Grammar.front " <COMMAND>"

/-- The help on the whole program. -/
def short : String :=
  let options := table "Options" (frontFlags "see more with '--help'")
  s!"{Grammar.front.about}\n\n{programUsage}{commandTable}{options}\n"

/-- The help on the whole program, at length: what a flag stands for has a line of its own. -/
def long : String :=
  let entry (row : String × String) : String := s!"  {row.1}\n          {row.2}"
  let flags := (frontFlags "see a summary with '-h'").map entry
  s!"{overview}\n\n{programUsage}{commandTable}\n\nOptions:\n" ++ "\n\n".intercalate flags ++ "\n"

/-- The help on a topic. -/
def ofTopic : Topic → String
  | .program true => long
  | .program false => short
  | .command name => ((Grammar.commands.lookup name).map (ofCommand name)).getD ""
  | .help => ofCommand helpCommand.1 helpCommand.2

end LivePreview.CommandLine.Help
