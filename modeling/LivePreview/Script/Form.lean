import LivePreview.Pattern.Basic

/-!
The forms in which a script imports and exports, as patterns. A statement starts its line; an
expression may stand anywhere.
-/

namespace LivePreview.Script.Form

open Pattern

/-- Blanks within a line. -/
def indent : Pattern := star (anyOf " \t")

/-- A word that may or may not stand here, with the blanks behind it. -/
def maybeWord (word : String) : Pattern := maybe (seq (text word) blanks)

/-- A quoted name of a module, which is the group with the given index. -/
def moduleName (index : Nat) : Pattern :=
  all [quoteMark, group index (plus (noneOf "'\"\n")), quoteMark]

/-- What ends a statement. -/
def statementEnd : Pattern := all [indent, maybe (char ';')]

/-- An import statement. Group 1 stands in an import of types only, group 2 is the clause if there
is one, group 3 the module. -/
def importStatement : Pattern :=
  let clauseChar : Pattern :=
    .set (.union .word (.union .blank (.ofList ['$', '*', '\x7b', '\x7d', ','])))
  all [lineStart, indent, text "import", blanks, maybe (group 1 (seq (text "type") blanks)),
    maybe (all [group 2 (plusLazy clauseChar), blanks, text "from", blanks]), moduleName 3,
    statementEnd]

/-- An export of what another module exports. Group 1 stands in an export of types only, group 2 is
the star or the list, group 3 the module. -/
def reexportStatement : Pattern :=
  let everything := seq (char '*') (maybe (all [blanks, text "as", blanks, name]))
  let list := all [char '\x7b', star (noneOf "\x7d"), char '\x7d']
  all [lineStart, indent, text "export", blanks, maybe (group 1 (seq (text "type") blanks)),
    group 2 (oneOf [everything, list]), blanks?, text "from", blanks?, moduleName 3, statementEnd]

/-- A module named in parentheses behind a word; group 1 is the module. -/
def call (word : String) : Pattern :=
  all [edge, text word, char '(', blanks?, moduleName 1, blanks?, char ')']

/-- An import when it is asked for; group 1 is the module. -/
def deferredImport : Pattern := call "import"

/-- A `require` call; group 1 is the module. -/
def requireCall : Pattern := call "require"

/-- The word `export` and the blanks behind it. -/
def exportWord : Pattern := all [edge, text "export", blanks]

/-- The words that open the declaration of a value. -/
def valueKeyword : Pattern :=
  oneOf [all [text "function", blanks?, maybe (char '*')], text "class", text "const", text "let",
    text "var", text "enum"]

/-- The export of a declared value; group 1 is its name. -/
def exportedValue : Pattern :=
  all [exportWord, maybeWord "declare", maybeWord "async", maybeWord "abstract", valueKeyword, blanks,
    group 1 name]

/-- The export of a declared type; group 1 is its name. -/
def exportedType : Pattern :=
  all [exportWord, maybeWord "declare", oneOf [text "type", text "interface"], blanks, group 1 name]

/-- A list of exported names; group 1 is what stands between its braces. -/
def exportedList : Pattern :=
  all [exportWord, maybeWord "type", char '\x7b', group 1 (star (noneOf "\x7d")), char '\x7d']

/-- The export of everything under one name, which is group 1. -/
def exportedNamespace : Pattern :=
  all [exportWord, char '*', blanks, text "as", blanks, group 1 name]

/-- An export of which the text does not tell the names. -/
def opaqueExport : Pattern :=
  oneOf [all [exportWord, char '*', blanks, text "from", edge],
    all [exportWord, oneOf [text "const", text "let", text "var"], blanks?, anyOf "\x7b["],
    all [edge, text "module.exports", edge],
    all [edge, text "exports.", nameStart]]

/-- The export of a default value. -/
def exportedDefault : Pattern := all [exportWord, text "default", edge]

/-- A statement that declares a named function or class and exports it as the default. Group 1 is
the indent, group 2 the declaration, group 3 or 4 the name. -/
def defaultDeclaration : Pattern :=
  let function := all [maybeWord "async", text "function", blanks?, maybe (char '*'), blanks?,
    group 3 name]
  let class_ := all [text "class", blanks, group 4 name]
  all [lineStart, group 1 indent, text "export", blanks, text "default", blanks,
    group 2 (oneOf [function, class_])]

/-- What stands before an expression that is exported as the default. -/
def defaultExpression : Pattern := all [exportWord, text "default", blanks]

/-- A statement that declares a value and exports it. Group 1 is the indent, group 2 the
declaration, group 3 the name. -/
def valueDeclaration : Pattern :=
  all [lineStart, group 1 indent, text "export", blanks,
    group 2 (all [maybeWord "async", maybeWord "abstract", valueKeyword, blanks, group 3 name])]

/-- A statement that declares a type and exports it. Group 1 is the indent, group 2 what stands
before the name. -/
def typeDeclaration : Pattern :=
  all [lineStart, group 1 indent, text "export", blanks,
    group 2 (all [maybeWord "declare", oneOf [text "type", text "interface"], Pattern.set .blank])]

/-- A whole statement that lists exported names. Group 1 stands in a list of types only, group 2 is
what stands between the braces. -/
def listStatement : Pattern :=
  all [exportWord, maybe (group 1 (seq (text "type") blanks)), char '\x7b',
    group 2 (star (noneOf "\x7d")), char '\x7d', statementEnd]

end LivePreview.Script.Form
