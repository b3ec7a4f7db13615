import LivePreview.Script.Structure
import Mathlib.Data.List.Basic

namespace LivePreview.Script

open Text (Cursor)
open Scan

-- What one turn of a reader comes to: the reader goes on from a scan, or it is done.
inductive Move (α : Type) where
  | on (t : Scan)
  | done (result : α)

def Move.resume {α : Type} (read : Scan → α) : Move α → α
  | on t => read t
  | done result => result

-- The readers, with nothing said of how much text their results leave ahead.

def readCode (base : Option Nat) (s : Scan) : Except Halt Scan := (code base s).map (·.1)

def readTemplate (opened : Nat) (s : Scan) : Except Halt Scan := (template opened s).map (·.1)

def readElement (s : Scan) : Option Scan := (element s).map (·.1)

def readAttributes (s : Scan) : Option Scan := (attributes s).map (·.1)

def readChildren (s : Scan) : Option Scan := (children s).map (·.1)

-- The turns of the readers, by the text ahead.

def bracketMove (base : Option Nat) (s : Scan) (c : Char) (rest : List Char) :
    Move (Except Halt Scan) :=
  if c = '(' ∨ c = '[' ∨ c = '\x7b' then .on (s.enter c rest)
  else if c = ')' ∨ c = ']' ∨ c = '\x7d' then
    match s.openings with
    | [] => .done (.error (.broken ⟨.unexpectedCloser c, s.offset⟩))
    | opening :: outer =>
      if closerOf opening.bracket = c then
        let t : Scan := ⟨⟨rest, s.offset + 1⟩, outer, some (.punctuation c)⟩
        if base.any (outer.length < ·) then .done (.ok t) else .on t
      else .done (.error (.broken ⟨.unexpectedCloser c, s.offset⟩))
  else .on (s.step c rest)

def tokenMove (base : Option Nat) (s : Scan) (c : Char) (rest : List Char) :
    Move (Except Halt Scan) :=
  if c = '"' ∨ c = '\'' ∧ s.opensString then
    match skipString c ⟨rest, s.offset + 1⟩ with
    | none => .done (.error (.broken ⟨.unterminatedString, s.offset⟩))
    | some d => .on (s.afterValue d.1)
  else if c = '`' then
    match readTemplate s.offset (s.moveTo ⟨rest, s.offset + 1⟩) with
    | .error halt => .done (.error halt)
    | .ok t => .on { t with last := some .value }
  else
    match (if c = '<' ∧ s.awaitsExpression ∧ opensElement rest.head? then
        readElement (s.moveTo ⟨rest, s.offset + 1⟩) else none) with
    | some t => .on { t with last := some .value }
    | none =>
      if inName c then
        .on { s.moveTo (s.toCursor.skipWhile inName) with
          last := some (.word (s.rest.takeWhile inName)) }
      else bracketMove base s c rest

def codeMove (base : Option Nat) (s : Scan) : List Char → Move (Except Halt Scan)
  | [] => .done (.error (.finished s.openings))
  | c :: rest =>
    if c = '/' ∧ rest.head? = some '/' then
      .on (s.moveTo ((⟨rest, s.offset + 1⟩ : Cursor).skipWhile (· != '\n')))
    else if c = '/' ∧ rest.head? = some '*' then
      match skipComment ⟨rest.tail, s.offset + 2⟩ with
      | none => .done (.error (.broken ⟨.unterminatedComment, s.offset⟩))
      | some d => .on (s.moveTo d.1)
    else
      match (if c = '/' ∧ rest.head? ≠ some '>' ∧ s.awaitsExpression then
          skipRegex false ⟨rest, s.offset + 1⟩ else none) with
      | some d => .on (s.afterValue d.1)
      | none => tokenMove base s c rest

def templateMove (opened : Nat) (s : Scan) : List Char → Move (Except Halt Scan)
  | [] => .done (.error (.broken ⟨.unterminatedTemplate, opened⟩))
  | c :: rest =>
    if c = '\\' then .on (s.moveTo ((⟨rest, s.offset + 1⟩ : Cursor).skip 1))
    else if c = '`' then .done (.ok (s.moveTo ⟨rest, s.offset + 1⟩))
    else if c = '$' ∧ rest.head? = some '\x7b' then
      let inner := (s.moveTo ⟨rest, s.offset + 1⟩).enter '\x7b' rest.tail
      match readCode (some inner.openings.length) inner with
      | .error halt => .done (.error halt)
      | .ok t => .on t
    else .on (s.moveTo ⟨rest, s.offset + c.utf8Size⟩)

def bracesMove (s : Scan) (rest : List Char) : Move (Option Scan) :=
  match readCode (some (s.openings.length + 1)) (s.enter '\x7b' rest) with
  | .error _ => .done none
  | .ok t => .on t

def elementMove (s : Scan) (rest : List Char) : Move (Option Scan) :=
  match readElement (s.moveTo ⟨rest, s.offset + 1⟩) with
  | none => .done none
  | some t => .on t

def valueMove (s : Scan) : List Char → Move (Option Scan)
  | [] => .done none
  | v :: inside =>
    if v = '"' ∨ v = '\'' then
      let close := (⟨inside, s.offset + 1⟩ : Cursor).skipWhile (· != v)
      if close.rest.isEmpty then .done none else .on (s.moveTo (close.skip 1))
    else if v = '\x7b' then bracesMove s inside
    else if v = '<' then elementMove s inside
    else .done none

def attributesMove (s : Scan) : List Char → Move (Option Scan)
  | [] => .done none
  | c :: rest =>
    if c = '/' ∧ rest.head? = some '>' then .done (some (s.moveTo ⟨rest.tail, s.offset + 2⟩))
    else if c = '>' then .done (readChildren (s.moveTo ⟨rest, s.offset + 1⟩))
    else if c = '\x7b' then bracesMove s rest
    else if opensName c then
      let name := s.moveTo ((⟨rest, s.offset + c.utf8Size⟩ : Cursor).skipWhile inAttributeName)
      let sign := name.moveTo (name.toCursor.skipWhile Text.isBlank)
      if sign.rest.head? = some '=' then
        let value := sign.moveTo ((sign.toCursor.skip 1).skipWhile Text.isBlank)
        valueMove value value.rest
      else .on sign
    else .done none

def childrenMove (s : Scan) : List Char → Move (Option Scan)
  | [] => .done none
  | c :: rest =>
    if c = '\x7b' then bracesMove s rest
    else if c = '<' then
      if rest.head? = some '/' then
        let close := s.toCursor.skipWhile (· != '>')
        if close.rest = [] then .done none else .done (some (s.moveTo (close.skip 1)))
      else if opensElement rest.head? then elementMove s rest
      else .done none
    else .on (s.moveTo ⟨rest, s.offset + c.utf8Size⟩)

section Lift

variable {s t : Scan} {h : t.rest.length ≤ s.rest.length}

theorem except_map_lift (result : Except Halt (Ahead t)) :
    (result.map (Ahead.lift h)).map (·.1) = result.map (·.1) := by
  cases result <;> rfl

theorem option_map_lift (result : Option (Ahead t)) :
    (result.map (Ahead.lift h)).map (·.1) = result.map (·.1) := by
  cases result <;> rfl

end Lift

theorem readCode_eq (base : Option Nat) (s : Scan) :
    readCode base s = (codeMove base s s.rest).resume (readCode base) := by
  generalize htext : s.rest = text
  change (code base s).map (·.1) = _
  unfold code
  split
  · rename_i hrest
    obtain rfl := htext.symm.trans hrest
    rfl
  rename_i c rest hrest
  obtain rfl := htext.symm.trans hrest
  dsimp only [codeMove, tokenMove, bracketMove]
  split
  · exact except_map_lift _
  split
  · cases skipComment ⟨rest.tail, s.offset + 2⟩ with
    | none => rfl
    | some d => exact except_map_lift _
  cases (if c = '/' ∧ rest.head? ≠ some '>' ∧ s.awaitsExpression then
    skipRegex false ⟨rest, s.offset + 1⟩ else none) with
  | some d => exact except_map_lift _
  | none =>
    dsimp only
    split
    · cases skipString c ⟨rest, s.offset + 1⟩ with
      | none => rfl
      | some d => exact except_map_lift _
    split
    · rw [readTemplate]
      cases template s.offset (s.moveTo ⟨rest, s.offset + 1⟩) with
      | error halt => rfl
      | ok t => exact except_map_lift _
    have hmap : (if c = '<' ∧ s.awaitsExpression ∧ opensElement rest.head? then
          readElement (s.moveTo ⟨rest, s.offset + 1⟩) else none) =
        (if c = '<' ∧ s.awaitsExpression ∧ opensElement rest.head? then
          element (s.moveTo ⟨rest, s.offset + 1⟩) else none).map (·.1) := by
      split <;> rfl
    rw [hmap]
    cases (if c = '<' ∧ s.awaitsExpression ∧ opensElement rest.head? then
      element (s.moveTo ⟨rest, s.offset + 1⟩) else none) with
    | some t => exact except_map_lift _
    | none =>
      dsimp only [Option.map_none]
      split
      · exact except_map_lift _
      split
      · exact except_map_lift _
      split
      · cases hopenings : s.openings with
        | nil => rfl
        | cons opening outer =>
          dsimp only
          split
          · split
            · rfl
            · exact except_map_lift _
          · rfl
      · exact except_map_lift _

theorem readTemplate_eq (opened : Nat) (s : Scan) :
    readTemplate opened s = (templateMove opened s s.rest).resume (readTemplate opened) := by
  generalize htext : s.rest = text
  change (template opened s).map (·.1) = _
  unfold template
  split
  · rename_i hrest
    obtain rfl := htext.symm.trans hrest
    rfl
  rename_i c rest hrest
  obtain rfl := htext.symm.trans hrest
  dsimp only [templateMove]
  split
  · exact except_map_lift _
  split
  · rfl
  split
  · rw [readCode]
    cases code _ ((s.moveTo ⟨rest, s.offset + 1⟩).enter '\x7b' rest.tail) with
    | error halt => rfl
    | ok t => exact except_map_lift _
  · exact except_map_lift _

theorem resume_bracesMove (s : Scan) (rest : List Char) (read : Scan → Option Scan) :
    (bracesMove s rest).resume read =
      match code (some (s.openings.length + 1)) (s.enter '\x7b' rest) with
      | .error _ => none
      | .ok t => read t.1 := by
  rw [bracesMove, readCode]
  cases code (some (s.openings.length + 1)) (s.enter '\x7b' rest) <;> rfl

theorem resume_elementMove (s : Scan) (rest : List Char) (read : Scan → Option Scan) :
    (elementMove s rest).resume read =
      match element (s.moveTo ⟨rest, s.offset + 1⟩) with
      | none => none
      | some t => read t.1 := by
  rw [elementMove, readElement]
  cases element (s.moveTo ⟨rest, s.offset + 1⟩) <;> rfl

theorem readChildren_eq (s : Scan) :
    readChildren s = (childrenMove s s.rest).resume readChildren := by
  generalize htext : s.rest = text
  change (children s).map (·.1) = _
  unfold children
  split
  · rename_i hrest
    obtain rfl := htext.symm.trans hrest
    rfl
  rename_i c rest hrest
  obtain rfl := htext.symm.trans hrest
  dsimp only [childrenMove]
  split
  · rw [resume_bracesMove]
    subst c
    cases code (some (s.openings.length + 1)) (s.enter '\x7b' rest) with
    | error => rfl
    | ok t => exact option_map_lift _
  split
  · split
    · split <;> rfl
    split
    · rw [resume_elementMove]
      cases element (s.moveTo ⟨rest, s.offset + 1⟩) with
      | none => rfl
      | some t => exact option_map_lift _
    · rfl
  · exact option_map_lift _

theorem readAttributes_eq (s : Scan) :
    readAttributes s =
      let here := s.moveTo (s.toCursor.skipWhile Text.isBlank)
      (attributesMove here here.rest).resume readAttributes := by
  extract_lets here
  generalize htext : here.rest = text
  change (attributes s).map (·.1) = _
  unfold attributes
  extract_lets _
  split
  · rename_i hrest
    obtain rfl := htext.symm.trans hrest
    rfl
  rename_i c rest hrest
  obtain rfl := htext.symm.trans hrest
  rw [attributesMove]
  extract_lets _ name _ sign _ value _
  split
  · rfl
  split
  · exact option_map_lift _
  split
  · rw [resume_bracesMove]
    subst c
    cases code (some (here.openings.length + 1)) (here.enter '\x7b' rest) with
    | error => rfl
    | ok t => exact option_map_lift _
  split
  · split
    · split
      · rename_i hvalue
        rw [congrArg (valueMove value) hvalue]
        rfl
      rename_i v inside hvalue
      rw [congrArg (valueMove value) hvalue, valueMove]
      extract_lets close _
      split
      · split
        · rfl
        · exact option_map_lift _
      split
      · rw [resume_bracesMove]
        subst v
        cases code (some (value.openings.length + 1)) (value.enter '\x7b' inside) with
        | error => rfl
        | ok t => exact option_map_lift _
      split
      · rw [resume_elementMove]
        cases element (value.moveTo ⟨inside, value.offset + 1⟩) with
        | none => rfl
        | some t => exact option_map_lift _
      · rfl
    · exact option_map_lift _
  · rfl

theorem readElement_eq (s : Scan) :
    readElement s =
      if s.rest.head? = some '>' then readChildren (s.moveTo ⟨s.rest.tail, s.offset + 1⟩)
      else readAttributes (s.moveTo (s.toCursor.skipWhile inTagName)) := by
  change (element s).map (·.1) = _
  unfold element
  split
  · rename_i rest hrest
    have htail : s.rest.tail = rest := congrArg List.tail hrest
    have hhead : s.rest.head? = some '>' := congrArg List.head? hrest
    rw [if_pos hhead, htail]
    exact option_map_lift _
  · rename_i hrest
    have hhead : ¬s.rest.head? = some '>' := fun h => hrest _ (List.eq_cons_of_mem_head? h)
    rw [if_neg hhead]
    exact option_map_lift _

-- The issue that reading a script comes to.
def conclude (source : List Char) : Except Halt Scan → Option Issue
  | .ok _ => none
  | .error (.broken issue) => some issue
  | .error (.finished []) => none
  | .error (.finished (opening :: _)) =>
    let line := ((Text.placeAt? source opening.offset).map Text.Place.line).getD 0
    some ⟨.unclosed opening.bracket line, Text.byteLength source⟩

theorem structureIssue?_eq (source : List Char) :
    structureIssue? source = conclude source (readCode none (.start source)) := by
  unfold structureIssue? readCode
  cases code none (.start source) with
  | ok t => rfl
  | error halt =>
      cases halt with
      | broken issue => rfl
      | finished openings => cases openings <;> rfl

end LivePreview.Script
