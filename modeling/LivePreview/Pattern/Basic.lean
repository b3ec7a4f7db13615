import LivePreview.Pattern.CharClass

/-!
Patterns over text: regular expressions with ordered choice, greedy and reluctant repetition,
capture groups and assertions about the place. Patterns are data, so that they can be built by
hand, read from their written form and reasoned about.
-/

namespace LivePreview

/-- A condition on a place in the text that consumes nothing. -/
inductive Assertion where
  | textStart
  | textEnd
  | lineStart
  | lineEnd
  | wordBoundary
  | noWordBoundary
  | wordStart
  | wordEnd
deriving DecidableEq, Repr

/-- A regular expression. -/
inductive Pattern where
  | empty
  | set (chars : CharClass)
  | assert (condition : Assertion)
  | seq (first second : Pattern)
  | alt (first second : Pattern)
  /-- At least `least` and at most `most` rounds of `body`, as many as possible when `greedy` and
  as few as possible otherwise. -/
  | rounds (body : Pattern) (least : Nat) (most : Option Nat) (greedy : Bool)
  | group (index : Nat) (body : Pattern)
deriving DecidableEq, Repr

namespace Pattern

/-- A pattern for one character. -/
def char (c : Char) : Pattern := set (.one c)

/-- A pattern for a word, letter by letter. -/
def chars : List Char → Pattern
  | [] => empty
  | [c] => char c
  | c :: cs => seq (char c) (chars cs)

/-- A pattern for a literal text. -/
def text (s : String) : Pattern := chars s.toList

/-- Patterns one after the other. -/
def all : List Pattern → Pattern
  | [] => empty
  | [p] => p
  | p :: ps => seq p (all ps)

/-- The first of several patterns that leads to a match. -/
def oneOf : List Pattern → Pattern
  | [] => set .none
  | [p] => p
  | p :: ps => alt p (oneOf ps)

/-- Any number of rounds, as many as possible. -/
def star (p : Pattern) : Pattern := rounds p 0 none true

/-- At least one round, as many as possible. -/
def plus (p : Pattern) : Pattern := rounds p 1 none true

/-- The pattern or nothing, rather the pattern. -/
def maybe (p : Pattern) : Pattern := rounds p 0 (some 1) true

/-- Any number of rounds, as few as possible. -/
def starLazy (p : Pattern) : Pattern := rounds p 0 none false

/-- At least one round, as few as possible. -/
def plusLazy (p : Pattern) : Pattern := rounds p 1 none false

/-- One of the characters listed. -/
def anyOf (s : String) : Pattern := set (.ofList s.toList)

/-- A character that is none of those listed. -/
def noneOf (s : String) : Pattern := set (.not (.ofList s.toList))

/-- One or more blanks. -/
def blanks : Pattern := plus (set .blank)

/-- Any number of blanks. -/
def blanks? : Pattern := star (set .blank)

/-- A run of decimal digits. -/
def digits : Pattern := plus (set .digit)

/-- The edge of a word. -/
def edge : Pattern := assert .wordBoundary

/-- The start of a line. -/
def lineStart : Pattern := assert .lineStart

/-- A straight quotation mark, single or double. -/
def quoteMark : Pattern := anyOf "'\""

/-- A character that may open a name: an ASCII letter, `_` or `$`. -/
def nameStart : Pattern :=
  set (.union (.range 'A' 'Z') (.union (.range 'a' 'z') (.ofList ['_', '$'])))

/-- A character that may stand in a name: a word character or `$`. -/
def nameChar : Pattern := set (.union .word (.one '$'))

/-- A name. -/
def name : Pattern := seq nameStart (star nameChar)

/-- The pattern can match without consuming a character. -/
def nullable : Pattern → Bool
  | empty => true
  | set _ => false
  | assert _ => true
  | seq p q => p.nullable && q.nullable
  | alt p q => p.nullable || q.nullable
  | rounds p least _ _ => least == 0 || p.nullable
  | group _ p => p.nullable

end Pattern

end LivePreview
