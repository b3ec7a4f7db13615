import LivePreview.Path
import LivePreview.Text.Blank
import LivePreview.Text.Numeric

/-!
Kinds of files that can take part in a bundle, told by their extension, and the tests that keep out
what only looks like a file of the project: build settings, shell commands that were recorded as file
names, and content that cannot be source of its kind.
-/

namespace LivePreview

/-- What a file of a bundle holds. -/
inductive FileKind where
  | script
  | style
  | data
deriving DecidableEq, Repr

namespace FileKind

/-- The kind of a file with the given extension. -/
def ofExtension? (extension : String) : Option FileKind :=
  if ["tsx", "ts", "jsx", "js", "mjs", "cjs"].contains extension then some script
  else if extension = "css" then some style
  else if extension = "json" then some data
  else none

/-- The kind of the file at a path. -/
def ofPath? (path : String) : Option FileKind := (Path.extension? path).bind ofExtension?

/-- Texts that occur only in names that were shell commands. -/
def commandMarkers : List String :=
  ["&&", "||", " | ", "npm ", "npx ", "yarn ", "pnpm ", "bun ", "$ "]

/-- Names of files that configure tools. -/
def settingsNames : List String :=
  ["package.json", "package-lock.json", "tsconfig.json", "tsconfig.node.json", "tsconfig.app.json",
    "jsconfig.json", "components.json", "vite.config.ts", "vite.config.js", "tailwind.config.ts",
    "tailwind.config.js", "postcss.config.js", "postcss.config.cjs", "eslint.config.js",
    ".eslintrc.json", "next.config.js"]

/-- The file at the path may take part in a bundle. -/
def isCandidate (path : String) : Bool :=
  (ofPath? path).isSome &&
    !commandMarkers.any (fun marker => Text.contains marker.toList path.toList) &&
    !settingsNames.contains (Path.baseName path)

/-- The punctuation with which content of the kind may start. -/
def openingPunctuation : FileKind → List Char
  | script => ['_', '$', '/', '\'', '"', '`', '(', '[', '{', '<', '@', '#', '!', ';']
  | style => ['@', '.', '#', ':', '*', '/', '[', '-', '_']
  | data => ['{', '[']

/-- Content of the kind may start with the character. -/
def mayStartWith (kind : FileKind) (c : Char) : Bool :=
  (kind != data && Text.isAlphanumeric c) || kind.openingPunctuation.contains c

/-- The content can be source of the kind, judged by its first character that is not blank. A fence
of three backticks is never source. -/
def mayHold (kind : FileKind) (content : String) : Bool :=
  let trimmed := Text.trimStart content.toList
  !Text.startsWith "```".toList trimmed && trimmed.head?.any kind.mayStartWith

end FileKind

end LivePreview
