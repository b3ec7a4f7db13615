import LivePreview.Proofs.Bundle.Mounting
import LivePreview.Proofs.Json.Reading
import LivePreview.Proofs.Pattern.Scanning
import LivePreview.Proofs.Script.Brackets

namespace LivePreview

namespace Script

section Closed

variable {mode : Mode} {text word later : List Char}

theorem bracketsOutside?_append (h : bracketsOutside? mode text = some word) :
    bracketsOutside? mode (text ++ later) = (bracketsOutside? .plain later).map (word ++ ·) := by
  induction text generalizing mode word with
  | nil =>
      cases mode with
      | plain =>
          obtain rfl := Option.some.inj h
          simp
      | string => cases h
      | escape => cases h
  | cons c text ih =>
      rw [List.cons_append]
      cases mode with
      | escape => exact ih h
      | string =>
          rw [bracketsOutside?] at h ⊢
          split at h
          · cases h
          · rename_i hline
            rw [if_neg hline]
            exact ih h
      | plain =>
          rw [bracketsOutside?] at h ⊢
          split at h
          · rename_i hquote
            rw [if_pos hquote]
            exact ih h
          rename_i hquote
          rw [if_neg hquote]
          split at h
          · rename_i hbracket
            obtain ⟨more, hmore, rfl⟩ := Option.map_eq_some_iff.mp h
            rw [if_pos hbracket, ih hmore, Option.map_map]
            rfl
          · rename_i hother
            rw [if_neg hother]
            exact ih h

theorem knownOutside_append (h : bracketsOutside? mode text = some word)
    (hknown : knownOutside mode text = true) (hlater : knownOutside .plain later = true) :
    knownOutside mode (text ++ later) = true := by
  induction text generalizing mode word with
  | nil =>
      cases mode with
      | plain => exact hlater
      | string => cases h
      | escape => cases h
  | cons c text ih =>
      rw [List.cons_append]
      cases mode with
      | escape => exact ih h hknown
      | string =>
          rw [bracketsOutside?] at h
          split at h
          · cases h
          · exact ih h hknown
      | plain =>
          obtain ⟨hc, htext⟩ := knownOutside_plain.mp hknown
          refine knownOutside_plain.mpr ⟨hc, ?_⟩
          rw [bracketsOutside?] at h
          split at h
          · rename_i hquote
            rw [if_pos hquote] at htext ⊢
            exact ih h htext
          rename_i hquote
          rw [if_neg hquote] at htext ⊢
          split at h
          · obtain ⟨more, hmore, rfl⟩ := Option.map_eq_some_iff.mp h
            exact ih hmore htext
          · exact ih h htext

-- A text whose strings end in it, with these brackets outside the strings and nothing there that
-- the plain reading does not know.
structure Closed (text word : List Char) : Prop where
  known : knownOutside .plain text = true
  brackets : bracketsOutside? .plain text = some word

namespace Closed

variable {first second : List Char}

theorem nil : Closed [] [] := ⟨rfl, rfl⟩

theorem append (h : Closed text word) (hlater : Closed first second) :
    Closed (text ++ first) (word ++ second) where
  known := knownOutside_append h.brackets h.known hlater.known
  brackets := by rw [bracketsOutside?_append h.brackets, hlater.brackets]; rfl

theorem flatMap {α : Type} {items : List α} {texts words : α → List Char}
    (h : ∀ item ∈ items, Closed (texts item) (words item)) :
    Closed (items.flatMap texts) (items.flatMap words) := by
  induction items with
  | nil => exact nil
  | cons item items ih =>
      obtain ⟨hitem, hitems⟩ := List.forall_mem_cons.mp h
      rw [List.flatMap_cons, List.flatMap_cons]
      exact hitem.append (ih hitems)

-- The check says nothing of such a text where its brackets are balanced.
theorem structureIssue?_eq_none (h : Closed text word) (hword : Balanced word) :
    structureIssue? text = none :=
  (structureIssue?_eq_none_iff h.known).mpr ⟨word, h.brackets, hword⟩

end Closed

end Closed

-- Between the quotation marks of a literal no character ends the string or its line.
private theorem inside_escape (c : Char) (later : List Char) :
    bracketsOutside? .string (Text.escape c ++ later) = bracketsOutside? .string later ∧
      knownOutside .string (Text.escape c ++ later) = knownOutside .string later := by
  have hdigit : ∀ n < 16, Text.hexDigit n ≠ '\n' ∧
      Mode.inString (Text.hexDigit n) = .string := by decide
  rcases Text.escape_cases c with ⟨hescape, hquote, hbackslash, hcontrol⟩ | hletter | hcode
  · have hline : c ≠ '\n' := by
      rintro rfl
      exact hcontrol (by decide)
    rw [hescape, List.singleton_append, bracketsOutside?, knownOutside, Mode.inString,
      if_neg hline, if_neg hbackslash, if_neg hquote]
    exact ⟨rfl, rfl⟩
  · obtain ⟨letter, hescape, _⟩ := hletter
    rw [hescape]
    exact ⟨rfl, rfl⟩
  · obtain ⟨hfirst, hinFirst⟩ := hdigit (c.toNat / 16) (by omega)
    obtain ⟨hlast, hinLast⟩ := hdigit (c.toNat % 16) (by omega)
    rw [hcode.2]
    generalize Text.hexDigit (c.toNat / 16) = first at hfirst hinFirst
    generalize Text.hexDigit (c.toNat % 16) = last at hlast hinLast
    change bracketsOutside? .string (first :: last :: later) = _ ∧
      knownOutside .string (first :: last :: later) = _
    rw [bracketsOutside?, if_neg hfirst, hinFirst, bracketsOutside?, if_neg hlast, hinLast,
      knownOutside, hinFirst, knownOutside, hinLast]
    exact ⟨rfl, rfl⟩

theorem closed_quote (text : List Char) : Closed (Text.quote text) [] := by
  have hinside : bracketsOutside? .string (text.flatMap Text.escape ++ ['"']) = some [] ∧
      knownOutside .string (text.flatMap Text.escape ++ ['"']) = true := by
    induction text with
    | nil => exact ⟨rfl, rfl⟩
    | cons c text ih =>
        rw [List.flatMap_cons, List.append_assoc, (inside_escape c _).1, (inside_escape c _).2]
        exact ih
  exact ⟨knownOutside_plain.mpr ⟨by decide, hinside.2⟩, hinside.1⟩

theorem closed_quotes (names : List String) :
    Closed ([','].intercalate (names.map (Text.quote ·.toList))) [] := by
  cases names with
  | nil => exact .nil
  | cons first names =>
      have hcomma : Closed [','] [] := ⟨rfl, rfl⟩
      have hnames : Closed (names.flatMap fun name => ',' :: Text.quote name.toList)
          (names.flatMap fun _ => []) :=
        .flatMap fun name _ => hcomma.append (closed_quote name.toList)
      rw [List.flatMap_eq_nil_iff.mpr fun _ _ => rfl] at hnames
      rw [Json.intercalate_quotes]
      exact (closed_quote first.toList).append hnames

end Script

namespace Wrapper

open Script Pattern
open Spot (between)

section Brackets

-- The brackets of a piece outside its strings.
def Piece.brackets : Piece → List Char
  | .text s => (bracketsOutside? .plain s.toList).getD []
  | .slot .candidates => ['[', ']']
  | .slot _ => []

-- No string is cut at the end of a piece.
def Piece.isClosed : Piece → Bool
  | .text s => knownOutside .plain s.toList && (bracketsOutside? .plain s.toList).isSome
  | .slot _ => true

def brackets : List Char := template.flatMap fun line => line.flatMap Piece.brackets

theorem closed_piece (wrapper : Wrapper) {piece : Piece} (h : piece.isClosed = true) :
    Closed (wrapper.pieceChars piece) piece.brackets := by
  cases piece with
  | text s =>
      obtain ⟨hknown, hbrackets⟩ := Bool.and_eq_true_iff.mp h
      obtain ⟨word, hword⟩ := Option.isSome_iff_exists.mp hbrackets
      exact ⟨hknown, by rw [Piece.brackets, pieceChars, hword]; rfl⟩
  | slot slot =>
      cases slot with
      | entry => exact closed_quote _
      | channel => exact closed_quote _
      | mount => exact closed_quote _
      | candidates =>
          have hopen : Closed ['['] ['['] := ⟨rfl, rfl⟩
          have hclose : Closed [']'] [']'] := ⟨rfl, rfl⟩
          exact (hopen.append (closed_quotes _)).append hclose

end Brackets

section Slots

-- The name of a slot in the text of the template.
def Slot.name : Slot → String
  | .entry => "entry_specifier"
  | .candidates => "export_candidates"
  | .channel => "error_channel"
  | .mount => "mount_element_id"

-- The text of a piece in the template, where a slot is its name in double braces.
def Piece.mark : Piece → List Char
  | .text s => s.toList
  | .slot hole => "\x7b\x7b".toList ++ (hole.name.toList ++ "\x7d\x7d".toList)

-- The text of the template.
def templateText : List Char := template.flatMap fun line => line.flatMap Piece.mark ++ ['\n']

private def opensSlotName : CharClass :=
  .union (.range 'a' 'z') (.union (.range 'A' 'Z') (.one '_'))

private def inSlotName : CharClass :=
  .union (.range 'a' 'z') (.union (.range 'A' 'Z') (.union (.range '0' '9') (.one '_')))

-- A name in double braces.
def slotPattern : Pattern :=
  .seq (.text "\x7b\x7b")
    (.seq (.group 1 (.seq (.set opensSlotName) (.star (.set inSlotName)))) (.text "\x7d\x7d"))

-- The value of a slot.
def value (wrapper : Wrapper) : Slot → Json
  | .entry => .text ("./" ++ wrapper.entryPath)
  | .candidates => .texts wrapper.candidates
  | .channel => .text wrapper.channel
  | .mount => .text wrapper.mountElement

def slots : List Slot := [.entry, .candidates, .channel, .mount]

-- What a name in double braces gives way to. The name of a slot gives way to the JSON text of its
-- value, another one stays.
def fill (wrapper : Wrapper) (found : Match) : List Char :=
  match slots.find? fun slot => slot.name.toList == found.group 1 with
  | some slot => (wrapper.value slot).compact.toList
  | none => found.text

theorem pieceChars_slot (wrapper : Wrapper) (slot : Slot) :
    wrapper.pieceChars (.slot slot) = (wrapper.value slot).compact.toList := by
  rw [← toList_pieceText, pieceText]
  cases slot with
  | candidates => rw [literal, value, Json.compact_texts]
  | entry => rw [literal, value, Json.compact]
  | channel => rw [literal, value, Json.compact]
  | mount => rw [literal, value, Json.compact]

theorem takes_slot {spot : Spot} (slot : Slot) (later : List Char) :
    slotPattern.Takes spot (Piece.mark (.slot slot)) later [(1, slot.name.toList)] := by
  have hname : ∃ c more, slot.name.toList = [c] ++ more ∧ opensSlotName.has c = true ∧
      ∀ d ∈ more, inSlotName.has d = true := by
    cases slot with
    | entry => exact ⟨'e', "ntry_specifier".toList, by decide, by decide, by decide⟩
    | candidates => exact ⟨'e', "xport_candidates".toList, by decide, by decide, by decide⟩
    | channel => exact ⟨'e', "rror_channel".toList, by decide, by decide, by decide⟩
    | mount => exact ⟨'m', "ount_element_id".toList, by decide, by decide, by decide⟩
  obtain ⟨c, more, hsplit, hc, hmore⟩ := hname
  have hbehind : ∀ d ∈ ("\x7d\x7d".toList ++ later).head?, inSlotName.has d = false := by
    intro d hd
    obtain rfl : '\x7d' = d := Option.some.inj hd
    decide
  rw [Piece.mark, hsplit]
  have hgroup : (Pattern.seq (.set opensSlotName) (.star (.set inSlotName))).Takes
      (spot.skip "\x7b\x7b".toList.length) ([c] ++ more) ("\x7d\x7d".toList ++ later) [] :=
    (takes_set hc).seq (takes_star hmore hbehind)
  exact (takes_text _).seq ((hgroup.group 1).seq (takes_text _))

-- No match starts in a text without two braces together, not even with what follows.
theorem barren_text {read text later : List Char} (h : ¬['\x7b', '\x7b'] <:+: text)
    (hlater : text.getLast? = some '\x7b' → later.head? ≠ some '\x7b') :
    slotPattern.Barren read text later := by
  rintro passed more rfl hne
  refine matchAt_eq_none fun front behind hrest hreads => ?_
  obtain ⟨braces, back, rfl, hbraces, _⟩ := hreads.exists_seq
  obtain rfl : braces = ['\x7b', '\x7b'] := hbraces.eq_chars
  have hsplit : more ++ later = '\x7b' :: '\x7b' :: (back ++ behind) := hrest
  match more, hne with
  | [c], _ =>
      obtain ⟨rfl, hhead⟩ := List.cons.inj hsplit
      have hhead : later = '\x7b' :: (back ++ behind) := hhead
      exact hlater (by simp) (by rw [hhead]; rfl)
  | c :: d :: more, _ =>
      obtain ⟨rfl, hback⟩ := List.cons.inj hsplit
      obtain ⟨rfl, _⟩ := List.cons.inj hback
      exact h ⟨passed, more, by simp⟩

-- In no text of the line are two braces together, and before a slot stands no brace.
def isPlain : List Piece → Bool
  | [] => true
  | .slot _ :: pieces => isPlain pieces
  | .text s :: pieces =>
    !Text.contains ['\x7b', '\x7b'] s.toList &&
      (pieces.isEmpty || s.toList.getLast? != some '\x7b') && isPlain pieces

variable {read later out : List Char}

-- What is found at a slot gives way to the JSON text of its value.
theorem exists_match_slot (wrapper : Wrapper) (slot : Slot) (read later : List Char) :
    ∃ found, slotPattern.matchAt (between read (Piece.mark (.slot slot) ++ later)) = some found ∧
      found.stop = between (read ++ Piece.mark (.slot slot)) later ∧
      wrapper.fill found = wrapper.pieceChars (.slot slot) := by
  have htakes : slotPattern.Takes (between read (Piece.mark (.slot slot) ++ later))
      (Piece.mark (.slot slot)) later [(1, slot.name.toList)] := takes_slot slot later
  obtain ⟨captures, hcaptures, hmatch⟩ := htakes.exists_matchAt rfl
  refine ⟨_, hmatch, Spot.skip_between read _ later, ?_⟩
  have hfind : slots.find? (fun other => other.name.toList == slot.name.toList) = some slot := by
    cases slot <;> decide
  rw [fill, Match.group, Match.group?_eq, hcaptures, pieceChars_slot]
  change (match slots.find? (fun other => other.name.toList == slot.name.toList) with
    | some slot => (wrapper.value slot).compact.toList
    | none => _) = _
  rw [hfind]

theorem edits_line (wrapper : Wrapper) {line : List Piece} (h : isPlain line = true)
    (hout : Edits slotPattern wrapper.fill (fun _ => [])
      (read ++ (line.flatMap Piece.mark ++ ['\n'])) later out []) :
    Edits slotPattern wrapper.fill (fun _ => []) read (line.flatMap Piece.mark ++ ['\n'] ++ later)
      (line.flatMap wrapper.pieceChars ++ ['\n'] ++ out) [] := by
  induction line generalizing read with
  | nil =>
      refine .barren (barren_text (by decide) fun hlast => ?_) hout
      exact absurd hlast (by decide)
  | cons piece line ih =>
      rw [List.flatMap_cons, List.append_assoc, ← List.append_assoc read] at hout
      rw [List.flatMap_cons, List.flatMap_cons, List.append_assoc, List.append_assoc,
        List.append_assoc, List.append_assoc, ← List.append_assoc (List.flatMap _ line),
        ← List.append_assoc (List.flatMap _ line)]
      cases piece with
      | text s =>
          obtain ⟨hs, hline⟩ := Bool.and_eq_true_iff.mp h
          obtain ⟨hbraces, hlast⟩ := Bool.and_eq_true_iff.mp hs
          have hnone : Text.contains ['\x7b', '\x7b'] s.toList = false := by simpa using hbraces
          refine .barren (barren_text ?_ fun hbrace hhead => ?_) (ih hline hout)
          · rw [← Text.contains_iff, Bool.not_eq_true]
            exact hnone
          · cases line with
            | nil => cases hhead
            | cons next line =>
                rw [List.isEmpty_cons, Bool.false_or, bne_iff_ne] at hlast
                exact hlast hbrace
      | slot slot =>
          obtain ⟨found, hmatch, hstop, hfill⟩ := wrapper.exists_match_slot slot read
            (line.flatMap Piece.mark ++ ['\n'] ++ later)
          rw [← hfill]
          exact .matched hmatch hstop (ih h hout)

theorem edits_lines (wrapper : Wrapper) {lines : List (List Piece)}
    (h : ∀ line ∈ lines, isPlain line = true) :
    Edits slotPattern wrapper.fill (fun _ => []) read
      (lines.flatMap fun line => line.flatMap Piece.mark ++ ['\n'])
      (lines.flatMap fun line => line.flatMap wrapper.pieceChars ++ ['\n']) [] := by
  induction lines generalizing read with
  | nil => exact .ended barren_nil
  | cons line lines ih =>
      obtain ⟨hline, hlines⟩ := List.forall_mem_cons.mp h
      exact wrapper.edits_line hline (ih hlines)

end Slots

-- What the proofs need to know of the text of the template.
theorem template_checked : (∀ line ∈ template, (∀ piece ∈ line, piece.isClosed = true) ∧
    isPlain line = true) ∧ bracketsOutside? .plain brackets = some brackets ∧
      firstFault .plain 0 [] 0 1 brackets = none := by
  decide +kernel

theorem balanced_brackets : Balanced brackets := by
  obtain ⟨-, hword, hfault⟩ := template_checked
  obtain ⟨word, hsame, hunwinds⟩ := firstFault_eq_none_iff.mp hfault
  obtain rfl := Option.some.inj (hword.symm.trans hsame)
  exact unwinds_nil_left_iff.mp hunwinds

theorem closed_source (wrapper : Wrapper) : Closed wrapper.source.toList brackets := by
  have hnewline : Closed ['\n'] [] := ⟨rfl, rfl⟩
  rw [toList_source]
  refine .flatMap fun line hline => ?_
  have hpieces := Closed.flatMap fun piece hpiece =>
    wrapper.closed_piece ((template_checked.1 line hline).1 piece hpiece)
  have hclosed := hpieces.append hnewline
  rwa [List.append_nil] at hclosed

-- Whatever the values are, the check finds nothing wrong with a wrapper. Its source is the text of
-- the template, read once, with the JSON texts of the values in the slots. These are read as the
-- values again.
theorem source_filled (wrapper : Wrapper) :
    structureIssue? wrapper.source.toList = none ∧
      wrapper.source.toList = slotPattern.replaceAll wrapper.fill templateText ∧
      ∀ slot, Json.parse (wrapper.value slot).compact = .ok (wrapper.value slot) := by
  refine ⟨wrapper.closed_source.structureIssue?_eq_none balanced_brackets, ?_, fun slot => ?_⟩
  · have hplain : ∀ line ∈ template, isPlain line = true :=
      fun line hline => (template_checked.1 line hline).2
    rw [toList_source]
    exact ((wrapper.edits_lines hplain).splice_findAll rfl).1.symm
  · cases slot with
    | candidates => exact Json.parse_compact_texts wrapper.candidates
    | entry => exact Json.parse_compact_text _
    | channel => exact Json.parse_compact_text _
    | mount => exact Json.parse_compact_text _

end Wrapper

end LivePreview
