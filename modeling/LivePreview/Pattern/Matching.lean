import LivePreview.Pattern.Basic

/-!
Matching. A match is the one that the order of choice finds first: earlier alternatives before later
ones, more rounds before fewer when greedy. The search runs with a continuation for what follows, so
each pattern is read once and repetition ends because every further round consumes something.
-/

namespace LivePreview

/-- Where matching stands: the character before, the text ahead, and the byte offset between. -/
structure Spot where
  last : Option Char
  rest : List Char
  offset : Nat
deriving DecidableEq, Repr

namespace Spot

/-- The start of a text. -/
def start (text : List Char) : Spot := ⟨none, text, 0⟩

/-- One character further on. -/
def next (spot : Spot) (c : Char) (rest : List Char) : Spot :=
  ⟨some c, rest, spot.offset + c.utf8Size⟩

/-- The place after the given number of characters. -/
def skip : Nat → Spot → Spot
  | 0, spot => spot
  | n + 1, spot =>
    match spot.rest with
    | [] => spot
    | c :: rest => skip n (spot.next c rest)

end Spot

/-- A capture: the group, and the spots at which its text starts and ends. -/
structure Capture where
  index : Nat
  start : Spot
  stop : Spot
deriving DecidableEq, Repr

/-- The text of a capture. -/
def Capture.text (capture : Capture) : List Char :=
  capture.start.rest.take (capture.start.rest.length - capture.stop.rest.length)

/-- The captures made so far, the latest first. -/
abbrev Captures := List Capture

namespace Assertion

/-- The condition holds at the spot. -/
def holds (condition : Assertion) (spot : Spot) : Bool :=
  let left := spot.last.any Text.isWordCharacter
  let right := spot.rest.head?.any Text.isWordCharacter
  match condition with
  | textStart => spot.last.isNone
  | textEnd => spot.rest.isEmpty
  | lineStart => spot.last.all (· == '\n')
  | lineEnd => spot.rest.head?.all (· == '\n')
  | wordBoundary => left != right
  | noWordBoundary => left == right
  | wordStart => !left && right
  | wordEnd => left && !right

end Assertion

namespace Pattern

/-- What is left to match, with the spot reached and the captures made. -/
abbrev Continuation := Spot → Captures → Option (Spot × Captures)

/-- The first of two searches that succeeds, `greedy` telling which one is tried first. -/
def prefer (greedy : Bool) (more fewer : Unit → Option (Spot × Captures)) :
    Option (Spot × Captures) :=
  if greedy then (more ()).or (fewer ()) else (fewer ()).or (more ())

/-- Up to `most` more rounds, each of which must consume something. -/
def moreRounds (round : Spot → Captures → Continuation → Option (Spot × Captures))
    (greedy : Bool) : Nat → Spot → Captures → Continuation → Option (Spot × Captures)
  | 0, spot, found, finish => finish spot found
  | most + 1, spot, found, finish =>
    let more := fun _ => round spot found fun spot' found' =>
      if spot.offset < spot'.offset then
        moreRounds round greedy most spot' found' finish
      else none
    prefer greedy more fun _ => finish spot found

/-- Up to `most` more rounds that may be empty. -/
def optionalRounds (round : Spot → Captures → Continuation → Option (Spot × Captures))
    (greedy : Bool) : Nat → Spot → Captures → Continuation → Option (Spot × Captures)
  | 0, spot, found, finish => finish spot found
  | most + 1, spot, found, finish =>
    let more := fun _ => round spot found fun spot' found' =>
      optionalRounds round greedy most spot' found' finish
    prefer greedy more fun _ => finish spot found

/-- Exactly `count` rounds. -/
def exactRounds (round : Spot → Captures → Continuation → Option (Spot × Captures)) :
    Nat → Spot → Captures → Continuation → Option (Spot × Captures)
  | 0, spot, found, finish => finish spot found
  | count + 1, spot, found, finish =>
    round spot found fun spot' found' => exactRounds round count spot' found' finish

/-- One round that may be empty, then any number of rounds that consume something. -/
def someRounds (round : Spot → Captures → Continuation → Option (Spot × Captures))
    (greedy : Bool) (spot : Spot) (found : Captures) (finish : Continuation) :
    Option (Spot × Captures) :=
  round spot found fun spot' found' =>
    if spot.offset < spot'.offset then
      moreRounds round greedy spot'.rest.length spot' found' finish
    else finish spot' found'

/-- Match the pattern at the spot and go on with `finish`. -/
def run : Pattern → Spot → Captures → Continuation → Option (Spot × Captures)
  | empty, spot, found, finish => finish spot found
  | set chars, spot, found, finish =>
    match spot.rest with
    | [] => none
    | c :: rest => if chars.has c then finish (spot.next c rest) found else none
  | assert condition, spot, found, finish =>
    if condition.holds spot then finish spot found else none
  | seq first second, spot, found, finish =>
    first.run spot found fun spot' found' => second.run spot' found' finish
  | alt first second, spot, found, finish =>
    prefer true (fun _ => first.run spot found finish) fun _ => second.run spot found finish
  | rounds body least (some most) greedy, spot, found, finish =>
    exactRounds body.run least spot found fun spot' found' =>
      optionalRounds body.run greedy (most - least) spot' found' finish
  | rounds body 0 none greedy, spot, found, finish =>
    if body.nullable then
      prefer greedy (fun _ => someRounds body.run greedy spot found finish) fun _ =>
        finish spot found
    else moreRounds body.run greedy spot.rest.length spot found finish
  | rounds body (least + 1) none greedy, spot, found, finish =>
    exactRounds body.run least spot found fun spot' found' =>
      someRounds body.run greedy spot' found' finish
  | group index body, spot, found, finish =>
    body.run spot found fun spot' found' => finish spot' (⟨index, spot, spot'⟩ :: found')

/-- A match: where it starts and ends, and its captures. -/
structure Match where
  start : Spot
  stop : Spot
  captures : Captures
deriving DecidableEq, Repr

/-- The text that matched. -/
def Match.text (found : Match) : List Char :=
  found.start.rest.take (found.start.rest.length - found.stop.rest.length)

/-- The capture of a group, if the group took part in the match. -/
def Match.capture? (found : Match) (index : Nat) : Option Capture :=
  found.captures.find? (·.index == index)

/-- The text of a group, if the group took part in the match. -/
def Match.group? (found : Match) (index : Nat) : Option (List Char) :=
  (found.capture? index).map Capture.text

/-- The text of a group, empty if the group took no part. -/
def Match.group (found : Match) (index : Nat) : List Char := (found.group? index).getD []

/-- The string of a group, empty if the group took no part. -/
def Match.groupText (found : Match) (index : Nat) : String := String.ofList (found.group index)

/-- The group took part in the match. -/
def Match.has (found : Match) (index : Nat) : Bool := (found.capture? index).isSome

/-- The match that starts at the spot. -/
def matchAt (pattern : Pattern) (spot : Spot) : Option Match :=
  (pattern.run spot [] fun stop found => some (stop, found)).map fun r => ⟨spot, r.1, r.2⟩

/-- The first match at the spot or after it. -/
def findFrom (pattern : Pattern) (spot : Spot) : Option Match :=
  match pattern.matchAt spot with
  | some found => some found
  | none =>
    match _h : spot.rest with
    | [] => none
    | c :: rest => findFrom pattern (spot.next c rest)
termination_by spot.rest.length
decreasing_by simp [_h, Spot.next]

/-- The first match in a text. -/
def find? (pattern : Pattern) (text : List Char) : Option Match :=
  pattern.findFrom (.start text)

/-- The pattern matches somewhere in the text. -/
def occursIn (pattern : Pattern) (text : List Char) : Bool := (pattern.find? text).isSome

/-- The matches from a spot on, without overlap; an empty match does not stand directly after the
match before it. `most` bounds their number. -/
def matchesFrom (pattern : Pattern) : (most : Nat) → Spot → (touching : Bool) → List Match
  | 0, _, _ => []
  | most + 1, spot, touching =>
    match pattern.findFrom spot with
    | none => []
    | some found =>
      if spot.offset < found.stop.offset then
        found :: matchesFrom pattern most found.stop true
      else
        let here := if touching then [] else [found]
        match spot.rest with
        | [] => here
        | c :: rest => here ++ matchesFrom pattern most (spot.next c rest) false

/-- The matches in a text, from left to right and without overlap. -/
def findAll (pattern : Pattern) (text : List Char) : List Match :=
  pattern.matchesFrom (text.length + 1) (.start text) false

/-- The text with each of the given matches replaced, `spot` being where the text starts. -/
def splice (spot : Spot) : List (Match × List Char) → List Char
  | [] => spot.rest
  | (found, replacement) :: later =>
    spot.rest.take (spot.rest.length - found.start.rest.length) ++ replacement ++
      splice found.stop later

/-- The text with every match replaced. -/
def replaceAll (pattern : Pattern) (edit : Match → List Char) (text : List Char) : List Char :=
  splice (.start text) ((pattern.findAll text).map fun found => (found, edit found))

/-- The text with the first match replaced. -/
def replaceFirst (pattern : Pattern) (edit : Match → List Char) (text : List Char) : List Char :=
  splice (.start text) ((pattern.find? text).toList.map fun found => (found, edit found))

end Pattern

end LivePreview
