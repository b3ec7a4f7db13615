import LivePreview.Pattern.Basic
import LivePreview.Text.Digit
import LivePreview.Text.Letter
import LivePreview.Text.Numeric

/-!
Reading patterns in their written form. `Pattern.read?` knows literals, classes in brackets and by
letter, groups with and without a number or a name, flags, alternatives, counted and reluctant
repetition and conditions on the place. A form it does not know is refused.
-/

namespace LivePreview.Pattern

/-- How the letters of a pattern are to be read. -/
structure Flags where
  anyCase : Bool
  /-- The dot takes a line feed too. -/
  dotAll : Bool
  /-- `^` and `$` hold at each line. -/
  multiline : Bool
  /-- Repetition is reluctant unless it is marked. -/
  reluctant : Bool
deriving DecidableEq, Repr

/-- No flag is set. -/
def Flags.none : Flags := ⟨false, false, false, false⟩

/-- What is ahead of the reader, and the groups that were opened: their number, and the names of those
that have one. -/
structure ReadState where
  rest : List Char
  groups : Nat
  names : List (List Char)
deriving DecidableEq, Repr

/-- A class as the flags want it. -/
def Flags.fold (flags : Flags) (chars : CharClass) : CharClass :=
  if flags.anyCase then .anyCase chars else chars

/-- The set or the condition that an escaped letter stands for. -/
inductive Escaped where
  | char (c : Char)
  | chars (set : CharClass)
  | condition (assertion : Assertion)
deriving DecidableEq, Repr

/-- The character with a code of at least one hexadecimal digit. -/
def codeChar? (digits : List Char) : Option Char :=
  if digits = [] then none else (Text.number? 16 digits).bind Text.charOfCode?

/-- A character by its code: `size` digits, or any number of them in braces. -/
def readCode? (size : Nat) (rest : List Char) : Option (Char × List Char) :=
  match rest with
  | '\x7b' :: rest =>
    let digits := rest.takeWhile (· != '\x7d')
    if digits.length = rest.length then none
    else (codeChar? digits).map fun c => (c, rest.drop (digits.length + 1))
  | _ => Text.codeChar? size rest

/-- What stands behind a backslash. -/
def readEscape? : List Char → Option (Escaped × List Char)
  | 'd' :: rest => some (.chars .digit, rest)
  | 'D' :: rest => some (.chars (.not .digit), rest)
  | 's' :: rest => some (.chars .blank, rest)
  | 'S' :: rest => some (.chars (.not .blank), rest)
  | 'w' :: rest => some (.chars .word, rest)
  | 'W' :: rest => some (.chars (.not .word), rest)
  | 'b' :: rest => some (.condition .wordBoundary, rest)
  | 'B' :: rest => some (.condition .noWordBoundary, rest)
  | '<' :: rest => some (.condition .wordStart, rest)
  | '>' :: rest => some (.condition .wordEnd, rest)
  | 'A' :: rest => some (.condition .textStart, rest)
  | 'z' :: rest => some (.condition .textEnd, rest)
  | 'n' :: rest => some (.char '\n', rest)
  | 'r' :: rest => some (.char '\r', rest)
  | 't' :: rest => some (.char '\t', rest)
  | 'a' :: rest => some (.char '\x07', rest)
  | 'f' :: rest => some (.char '\x0c', rest)
  | 'v' :: rest => some (.char '\x0b', rest)
  | 'x' :: rest => (readCode? 2 rest).map fun r => (.char r.1, r.2)
  | 'u' :: rest => (readCode? 4 rest).map fun r => (.char r.1, r.2)
  | 'U' :: rest => (readCode? 8 rest).map fun r => (.char r.1, r.2)
  | c :: rest => if c.toNat < 128 ∧ ¬ c.isAlphanum then some (.char c, rest) else none
  | [] => none

/-- The class that has a name between colons. -/
def namedClass? (name : List Char) : Option CharClass :=
  let lower := CharClass.range 'a' 'z'
  let upper := CharClass.range 'A' 'Z'
  let numeral := CharClass.range '0' '9'
  [("alpha", CharClass.union lower upper), ("lower", lower), ("upper", upper), ("digit", numeral),
    ("alnum", .union numeral (.union lower upper)), ("ascii", .range '\x00' '\x7f'),
    ("blank", .ofList ['\t', ' ']), ("cntrl", .union (.range '\x00' '\x1f') (.one '\x7f')),
    ("graph", .range '!' '~'), ("print", .range ' ' '~'),
    ("punct", .union (.range '!' '/') (.union (.range ':' '@') (.union (.range '[' '`')
      (.range '\x7b' '~')))),
    ("space", .ofList ['\t', '\n', '\x0b', '\x0c', '\r', ' ']),
    ("word", .union numeral (.union lower (.union upper (.one '_')))),
    ("xdigit", .union numeral (.union (.range 'a' 'f') (.range 'A' 'F')))].lookup
      (String.ofList name)

/-- A class by name behind `[:`. -/
def readNamedClass? (rest : List Char) : Option (CharClass × List Char) :=
  let (negated, rest) := match rest with
    | '^' :: rest => (true, rest)
    | _ => (false, rest)
  let name := rest.takeWhile (· != ':')
  match rest.drop name.length with
  | ':' :: ']' :: rest =>
    (namedClass? name).map fun chars => (if negated then .not chars else chars, rest)
  | _ => none

/-- One character of a class, as an end of a range. -/
def readMember? : List Char → Option (Escaped × List Char)
  | '\\' :: rest => readEscape? rest
  | c :: rest => some (.char c, rest)
  | [] => none

/-- How the parts of a class are joined. -/
inductive Joint where
  | both
  | butNot
  | oneOnly
deriving DecidableEq, Repr

/-- Two classes joined. -/
def Joint.join (first second : CharClass) : Joint → CharClass
  | both => .inter first second
  | butNot => .inter first (.not second)
  | oneOnly => .union (.inter first (.not second)) (.inter second (.not first))

/-- The class so far: what stands before the last joint, and the union since. -/
structure ClassParts where
  before? : Option (CharClass × Joint)
  since : CharClass
deriving DecidableEq, Repr

namespace ClassParts

/-- The parts with one more member. -/
def add (parts : ClassParts) (chars : CharClass) : ClassParts :=
  { parts with since := .union parts.since chars }

/-- The class that the parts make up. -/
def total (parts : ClassParts) : CharClass :=
  match parts.before? with
  | some (before, joint) => joint.join before parts.since
  | none => parts.since

/-- The parts behind a joint. -/
def joinNext (parts : ClassParts) (joint : Joint) : ClassParts :=
  ⟨some (parts.total, joint), .none⟩

end ClassParts

/-- A class behind its opening bracket. -/
def readClass? (flags : Flags) : (fuel : Nat) → List Char → Option (CharClass × List Char)
  | 0, _ => none
  | fuel + 1, rest =>
    let (negated, rest) := match rest with
      | '^' :: rest => (true, rest)
      | _ => (false, rest)
    let hyphens := rest.takeWhile (· == '-')
    let (first, rest) := match hyphens, rest with
      | [], ']' :: rest => (CharClass.one ']', rest)
      | [], _ => (.none, rest)
      | _, _ => (.one '-', rest.drop hyphens.length)
    (members fuel ⟨none, first⟩ rest).map fun (chars, rest) =>
      let chars := flags.fold chars
      (if negated then .not chars else chars, rest)
where
  /-- The members of a class up to its closing bracket. -/
  members : (fuel : Nat) → ClassParts → List Char → Option (CharClass × List Char)
    | 0, _, _ => none
    | fuel + 1, parts, rest =>
      match rest with
      | [] => none
      | ']' :: rest => some (parts.total, rest)
      | '&' :: '&' :: rest => members fuel (parts.joinNext .both) rest
      | '-' :: '-' :: rest => members fuel (parts.joinNext .butNot) rest
      | '~' :: '~' :: rest => members fuel (parts.joinNext .oneOnly) rest
      | '[' :: rest =>
        match rest with
        | ':' :: named =>
          match readNamedClass? named with
          | some (chars, rest) => members fuel (parts.add chars) rest
          | none => nested fuel parts rest
        | _ => nested fuel parts rest
      | _ =>
        match readMember? rest with
        | some (.chars chars, rest) => members fuel (parts.add chars) rest
        | some (.char low, '-' :: rest) =>
          match rest with
          | ']' :: _ => members fuel (parts.add (.union (.one low) (.one '-'))) rest
          | '-' :: _ => members fuel (parts.add (.one low)) ('-' :: rest)
          | _ =>
            match readMember? rest with
            | some (.char high, rest) =>
              if low ≤ high then members fuel (parts.add (.range low high)) rest else none
            | _ => none
        | some (.char c, rest) => members fuel (parts.add (.one c)) rest
        | _ => none
  /-- A class within a class, and the members behind it. -/
  nested : (fuel : Nat) → ClassParts → List Char → Option (CharClass × List Char)
    | 0, _, _ => none
    | fuel + 1, parts, rest =>
      (readClass? flags fuel rest).bind fun (chars, rest) => members fuel (parts.add chars) rest

/-- A count in decimal digits. -/
def readCount? (rest : List Char) : Option (Nat × List Char) :=
  let digits := rest.takeWhile Char.isDigit
  if digits = [] ∨ 9 < digits.length then none
  else some (Text.decimal digits, rest.drop digits.length)

/-- The bounds of a counted repetition behind its opening brace. -/
def readBounds? (rest : List Char) : Option (Nat × Option Nat × List Char) :=
  match readCount? rest with
  | some (least, '\x7d' :: rest) => some (least, some least, rest)
  | some (least, ',' :: '\x7d' :: rest) => some (least, none, rest)
  | some (least, ',' :: rest) =>
    match readCount? rest with
    | some (most, '\x7d' :: rest) => if least ≤ most then some (least, some most, rest) else none
    | _ => none
  | _ => none

/-- The repetitions behind an item. -/
def readRepetitions? (flags : Flags) :
    (fuel : Nat) → Pattern → List Char → Option (Pattern × List Char)
  | 0, _, _ => none
  | fuel + 1, item, rest =>
    let repeated (least : Nat) (most : Option Nat) (rest : List Char) :=
      match rest with
      | '?' :: rest => readRepetitions? flags fuel (.rounds item least most flags.reluctant) rest
      | _ => readRepetitions? flags fuel (.rounds item least most (!flags.reluctant)) rest
    match rest with
    | '*' :: rest => repeated 0 none rest
    | '+' :: rest => repeated 1 none rest
    | '?' :: rest => repeated 0 (some 1) rest
    | '\x7b' :: rest =>
      match readBounds? rest with
      | some (least, most, rest) => repeated least most rest
      | none => none
    | _ => some (item, rest)

/-- The flags with the one of a letter set or cleared. Classes by letter know all of Unicode in any
case, which is what `u` asks for. -/
def Flags.set? (flags : Flags) (value : Bool) : Char → Option Flags
  | 'i' => some { flags with anyCase := value }
  | 's' => some { flags with dotAll := value }
  | 'm' => some { flags with multiline := value }
  | 'U' => some { flags with reluctant := value }
  | 'u' => if value then some flags else .none
  | _ => .none

/-- Flags up to the colon or the parenthesis that ends them. No letter stands twice (`seen` are those
before), and there is one hyphen at most, with a letter behind it. -/
def readFlags? (value : Bool) (seen : List Char) (flags : Flags) :
    List Char → Option (Flags × List Char)
  | [] => none
  | c :: rest =>
    if c = ')' ∨ c = ':' then some (flags, c :: rest)
    else if c = '-' then
      if value = false ∨ rest.head? = some ')' ∨ rest.head? = some ':' then none
      else readFlags? false seen flags rest
    else if c ∈ seen then none
    else match flags.set? value c with
      | some flags => readFlags? value (c :: seen) flags rest
      | none => none

/-- The name of a group up to its closing bracket: a letter or an underscore, and then also numeric
characters, dots and brackets. -/
def readGroupName? (rest : List Char) : Option (List Char × List Char) :=
  let name := rest.takeWhile fun c =>
    Text.isLetter c || Text.isNumeric c || ['_', '.', '[', ']'].contains c
  match name, rest.drop name.length with
  | c :: _, '>' :: rest => if Text.isLetter c || c == '_' then some (name, rest) else none
  | _, _ => none

/-- A pattern for one literal character. -/
def Flags.literal (flags : Flags) (c : Char) : Pattern := set (flags.fold (.one c))

mutual

/-- Alternatives up to a closing parenthesis or the end. -/
def readChoice? : (fuel : Nat) → Flags → ReadState → Option (Pattern × ReadState)
  | 0, _, _ => none
  | fuel + 1, flags, state => do
    let (first, flags, state) ← readSequence? fuel flags [] state
    match state.rest with
    | '|' :: rest =>
      let (others, state) ← readChoice? fuel flags { state with rest := rest }
      pure (alt first others, state)
    | _ => pure (first, state)

/-- Items up to the end of an alternative. Flags that are set on the way hold on behind it. -/
def readSequence? :
    (fuel : Nat) → Flags → List Pattern → ReadState → Option (Pattern × Flags × ReadState)
  | 0, _, _, _ => none
  | fuel + 1, flags, items, state => do
    let next (item : Pattern) (state : ReadState) := do
      let (item, rest) ← readRepetitions? flags (state.rest.length + 1) item state.rest
      readSequence? fuel flags (item :: items) { state with rest := rest }
    match state.rest with
    | [] => pure (all items.reverse, flags, state)
    | c :: rest =>
      let behind : ReadState := { state with rest := rest }
      if c = ')' ∨ c = '|' then pure (all items.reverse, flags, state)
      else if c = '*' ∨ c = '+' ∨ c = '?' ∨ c = '\x7b' then none
      else if c = '.' then next (set (if flags.dotAll then .any else .exceptNewline)) behind
      else if c = '^' then next (assert (if flags.multiline then .lineStart else .textStart)) behind
      else if c = '$' then next (assert (if flags.multiline then .lineEnd else .textEnd)) behind
      else if c = '\\' then
        let (escaped, rest) ← readEscape? rest
        let item := match escaped with
          | .char c => flags.literal c
          | .chars chars => set chars
          | .condition assertion => assert assertion
        next item { state with rest := rest }
      else if c = '[' then
        let (chars, rest) ← readClass? flags (2 * rest.length + 2) rest
        next (set chars) { state with rest := rest }
      else if c = '(' then
        match rest with
        | '?' :: 'P' :: '<' :: rest =>
          let (item, state) ← readNamedGroup? fuel flags { state with rest := rest }
          next item state
        | '?' :: '<' :: rest =>
          let (item, state) ← readNamedGroup? fuel flags { state with rest := rest }
          next item state
        | '?' :: rest =>
          match ← readFlags? true [] flags rest with
          | (flags, ')' :: after) =>
            if rest.head? = some ')' then none
            else readSequence? fuel flags items { state with rest := after }
          | (inner, ':' :: rest) =>
            let (item, state) ← readChoice? fuel inner { state with rest := rest }
            match state.rest with
            | ')' :: rest => next item { state with rest := rest }
            | _ => none
          | _ => none
        | _ =>
          let (item, state) ← readGroup? fuel flags behind
          next item state
      else next (flags.literal c) behind

/-- A group with a name behind the bracket that opens the name. No two groups have one name. -/
def readNamedGroup? : (fuel : Nat) → Flags → ReadState → Option (Pattern × ReadState)
  | 0, _, _ => none
  | fuel + 1, flags, state => do
    let (name, rest) ← readGroupName? state.rest
    if name ∈ state.names then none
    else readGroup? fuel flags { state with rest := rest, names := name :: state.names }

/-- A group with a number behind its opening parenthesis. -/
def readGroup? : (fuel : Nat) → Flags → ReadState → Option (Pattern × ReadState)
  | 0, _, _ => none
  | fuel + 1, flags, state => do
    let index := state.groups + 1
    let (body, state) ← readChoice? fuel flags { state with groups := index }
    match state.rest with
    | ')' :: rest => pure (group index body, { state with rest := rest })
    | _ => none

end

/-- The pattern that is written so, if any is. -/
def read? (source : String) : Option Pattern := do
  let source := source.toList
  let (pattern, state) ← readChoice? (4 * source.length + 4) .none ⟨source, 0, []⟩
  if state.rest = [] then pure pattern else none

end LivePreview.Pattern
