import LivePreview.Pattern.Basic

/-!
The forms of error messages, as patterns.
-/

namespace LivePreview.Diagnosis.Form

open Pattern

/-- Characters of a name as a message quotes it; group `index`. -/
def quotedName (index : Nat) : Pattern := group index (plus nameChar)

/-- Anything up to a quotation mark of either sort; group `index`. -/
def unquoted (index : Nat) : Pattern := group index (plus (noneOf "'\""))

/-- Anything up to a single quotation mark; group `index`. -/
def untilSingle (index : Nat) : Pattern := group index (plus (noneOf "'"))

/-- Anything up to a double quotation mark; group `index`. -/
def untilDouble (index : Nat) : Pattern := group index (plus (noneOf "\""))

/-- A module that lacks an export; group 1 is the export. -/
def noExportNamed : Pattern :=
  all [text "does not provide an export named ", maybe quoteMark, quotedName 1, maybe quoteMark]

/-- A module that was asked for an export that it lacks; group 1 is the module if it is named, group 2
the export. -/
def refusedExport : Pattern :=
  all [maybe (all [text "requested module ", quoteMark, unquoted 1, quoteMark, char ' ']),
    text "does not provide an export named ", maybe quoteMark, quotedName 2]

/-- An import without an export; group 1 is the module, group 2 the name. -/
def unmatchedExport : Pattern :=
  all [text "No matching export in \"", untilDouble 1, text "\" for import \"", untilDouble 2,
    char '"']

/-- One or two quotation marks. -/
def quoteMarks : Pattern := rounds quoteMark 1 (some 2) true

/-- A module without a member; group 1 is the module, group 2 the member. -/
def unknownMember : Pattern :=
  all [text "Module ", quoteMarks, unquoted 1, quoteMarks, text " has no exported member ",
    quoteMark, quotedName 2, quoteMark]

/-- A module that is not found, as the diagnosis knows it; group 1 is the module. -/
def moduleNotFound : Pattern :=
  let notFound :=
    all [text "Module not found:", starLazy (.set .exceptNewline), text "Can't resolve"]
  all [oneOf [text "Cannot find module", text "Could not resolve", text "Failed to resolve import",
    notFound], blanks, quoteMark, unquoted 1, quoteMark]

/-- A module that is not found, as the remedy knows it; group 1 is the module. -/
def importNotFound : Pattern :=
  all [oneOf [text "Cannot find module", text "Could not resolve", text "Failed to resolve import",
    text "Can't resolve"], blanks, quoteMark, unquoted 1, quoteMark]

/-- A name that the type checker does not find; group `index` is the name. -/
def nameNotFound (index : Nat) : Pattern :=
  all [text "Cannot find name ", quoteMark, quotedName index, quoteMark]

/-- A name without a definition; group 1 is the name. -/
def notDefined : Pattern := all [edge, group 1 name, text " is not defined"]

/-- A name without a definition or one that is not found; group 1 or 2 is the name. -/
def undefinedName : Pattern := oneOf [notDefined, nameNotFound 2]

/-- A hook and its name, which is group 1. -/
def namedHook : Pattern := all [text "React Hook ", maybe (char '"'), quotedName 1, maybe (char '"')]

/-- A hook that is called on a condition; group 1 is its name. -/
def conditionalHook : Pattern := all [namedHook, text " is called conditionally"]

/-- A hook that is called elsewhere than in a component; group 1 is its name. -/
def misplacedHook : Pattern :=
  all [namedHook, char ' ', oneOf [text "is called in function", text "cannot be called"]]

/-- Renders that differ in the number of hooks; group 1 is `more` or `fewer`. -/
def hookCount : Pattern :=
  all [text "Rendered ", group 1 (oneOf [text "more", text "fewer"]), text " hooks than"]

/-- A property read from nothing; group 1 is the nothing, group 2 the property if it is named. -/
def emptyAccess : Pattern :=
  all [text "Cannot read propert", oneOf [char 'y', text "ies"], text " of ",
    group 1 (oneOf [text "undefined", text "null"]),
    maybe (all [text " (reading ", quoteMark, unquoted 2, quoteMark, char ')'])]

/-- Something called that is no function; group 1 is the expression. -/
def notFunction : Pattern :=
  all [group 1 (plus (.set (.union .word (.ofList ['$', '.', '[', ']'])))),
    text " is not a function"]

/-- A type given for another one, which are groups 1 and 2. -/
def typeMismatch : Pattern :=
  all [text "Type '", untilSingle 1, text "' is not assignable to type '", untilSingle 2, char '\'']

/-- A property that a type lacks; group 1 is the property, group 2 the type. -/
def unknownProperty : Pattern :=
  all [text "Property '", quotedName 1, text "' does not exist on type '", untilSingle 2, char '\'']

/-- A string or a template that does not end. -/
def unterminated : Pattern :=
  all [text "Unterminated ", oneOf [text "string", text "template"],
    maybe (oneOf [text " literal", text " constant"])]

/-- A text that ends too early. -/
def unexpectedEnd : Pattern := all [text "Unexpected end of ", oneOf [text "input", text "file"]]

/-- A token that is not expected; group 1 or 2 is the token. -/
def strayToken : Pattern :=
  let mark := maybe (anyOf "'\"`")
  let letters : Pattern := .star (.set (.not (.union .blank (.ofList ['\'', '"', '`']))))
  all [text "Unexpected ", oneOf [all [text "token", blanks?, mark, group 1 letters, mark],
    all [char '"', untilDouble 2, char '"']]]

/-- A recursion without end. -/
def endlessRecursion : Pattern :=
  oneOf [text "Maximum call stack size exceeded", text "too much recursion"]

/-- A name used before its declaration; group 1 is the name. -/
def usedTooEarly : Pattern :=
  all [text "Cannot access ", maybe quoteMark, quotedName 1, maybe quoteMark,
    text " before initialization"]

/-- The characters of a property in markup. -/
def propertyName (index : Nat) : Pattern :=
  group index (plus (.set (.union .word (.one '-'))))

/-- A property that markup does not know; group 1 is the property, group 2 the right one if it is
known. -/
def invalidProperty : Pattern :=
  all [text "Invalid DOM property `", propertyName 1, char '`',
    maybe (all [text ". Did you mean `", propertyName 2, char '`'])]

/-- A class that the styles do not have; group 1 is the class. -/
def missingClass : Pattern :=
  all [text "The `", group 1 (plus (noneOf "`")), text "` class does not exist"]

/-- A literal text in letters of either case. -/
def anyCaseText (s : String) : Pattern := all (s.toList.map fun c => .set (.anyCase (.one c)))

/-- A style property or rule that is not known. -/
def unknownStyle : Pattern :=
  oneOf [all [anyCaseText "unknown ", maybe (anyCaseText "css "), anyCaseText "property"],
    anyCaseText "unknown at rule", anyCaseText "Unsupported style property"]

end LivePreview.Diagnosis.Form
