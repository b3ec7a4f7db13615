import LivePreview.Proofs.Script.Termination
import Mathlib.Logic.Relation

namespace LivePreview.Script

open Text (Cursor)
open Scan

-- A scan of the source in front of which the open brackets stand, each inner one behind the outer.
structure Scan.Stacked (source : List Char) (s : Scan) : Prop where
  within : s.Within source
  ordered : s.openings.Pairwise fun inner outer => outer.offset < inner.offset
  behind : ∀ opening ∈ s.openings, opening.offset < s.offset

section Steps

variable {source : List Char} {s t : Scan} {call call' : Call}

theorem Scan.stacked_start (source : List Char) : (Scan.start source).Stacked source :=
  ⟨within_start source, .nil, nofun⟩

namespace Scan.Stacked

theorem onward (h : s.Stacked source) (ht : t.Within source) (hoffset : s.offset ≤ t.offset)
    (hopenings : t.openings <:+ s.openings) : t.Stacked source where
  within := ht
  ordered := h.ordered.sublist hopenings.sublist
  behind opening hmem := Nat.lt_of_lt_of_le (h.behind opening (hopenings.subset hmem)) hoffset

theorem pushed (h : s.Stacked source) (ht : t.Within source) (hoffset : s.offset < t.offset)
    {bracket : Char} (hopenings : t.openings = ⟨bracket, s.offset⟩ :: s.openings) :
    t.Stacked source where
  within := ht
  ordered := hopenings ▸ List.pairwise_cons.mpr ⟨h.behind, h.ordered⟩
  behind := by
    rw [hopenings]
    exact List.forall_mem_cons.mpr
      ⟨hoffset, fun opening hmem => Nat.lt_trans (h.behind opening hmem) hoffset⟩

theorem shifted (h : s.Stacked source) {base : Option Nat} (ht : Further source s t)
    (hshifts : Shifts base s.offset s.openings t.openings) : t.Stacked source := by
  obtain ⟨hwithin, hoffset⟩ := ht
  generalize hopenings : t.openings = openings at hshifts
  cases hshifts with
  | same => exact h.onward hwithin (Nat.le_of_lt hoffset) (hopenings ▸ List.suffix_refl _)
  | pushed bracket => exact h.pushed hwithin hoffset hopenings
  | popped opening hbefore =>
      refine h.onward hwithin (Nat.le_of_lt hoffset) ?_
      rw [hbefore, hopenings]
      exact List.suffix_cons _ _

theorem moveTo (h : s.Stacked source) {d : Cursor} (hleads : s.toCursor.Leads d) :
    (s.moveTo d).Stacked source :=
  h.onward (h.within.moveTo hleads) hleads.offset_le (List.suffix_refl _)

theorem next (h : s.Stacked source) {c : Char} {rest : List Char} (hrest : s.rest = c :: rest) :
    (s.moveTo ⟨rest, s.offset + c.utf8Size⟩).Stacked source :=
  h.moveTo (Cursor.leads_of_cons hrest)

theorem enter (h : s.Stacked source) {c : Char} {rest : List Char} (hc : c ∈ ['(', '[', '\x7b'])
    (hrest : s.rest = c :: rest) : (s.enter c rest).Stacked source :=
  h.pushed (h.within.enter hc hrest) (Nat.lt_add_of_pos_right c.utf8Size_pos) rfl

theorem pastBlanks (h : s.Stacked source) : s.pastBlanks.Stacked source :=
  h.moveTo (Cursor.leads_skipWhile _ _)

theorem pastSign (h : s.Stacked source) {c : Char} {rest : List Char} (hrest : s.rest = c :: rest) :
    (s.pastSign c rest).Stacked source := by
  have hname : (s.pastName c rest).Stacked source :=
    ((h.next hrest).moveTo (Cursor.leads_skipWhile inAttributeName _)).pastBlanks
  exact hname.moveTo ((Cursor.leads_skip 1 _).trans (Cursor.leads_skipWhile _ _))

-- A turn that leaves the open brackets as they are goes forward.
theorem turned (h : s.Stacked source) {α : Type} {ended : Scan → α} {move : Move α}
    (hturn : Turn ended s move) (hmove : move = .on t) (ht : t.Within source) :
    t.Stacked source := by
  have hfurther := further_of_length_lt h.within ht (hturn.length_of_on hmove)
  exact h.onward ht (Nat.le_of_lt hfurther.2) (hturn.openings_of_on hmove ▸ List.suffix_refl _)

theorem part (h : s.Stacked source) (hpart : Call.Part s call) : call.scan.Stacked source := by
  cases hpart with
  | braces hrest => exact h.enter (by decide) hrest
  | element hrest => exact h.next hrest

end Scan.Stacked

-- The calls that a call makes are at such scans, if it is at one.
theorem stacked_of_makes (h : call.Makes call') (hs : call.scan.Stacked source) :
    call'.scan.Stacked source := by
  cases h with
  | code h =>
      obtain ⟨hlength, hshifts⟩ := (codeTurn (fun u _ => keeps u) _).of_on h
      have hwithin := within_codeMove hs.within h
      exact hs.shifted (further_of_length_lt hs.within hwithin hlength) hshifts
  | backtick h => exact hs.next h
  | trial h => exact hs.next h
  | template h =>
      exact hs.turned (turn_templateMove (fun u _ => keeps u) _) h (within_templateMove hs.within h)
  | placeholder h => exact (hs.next h).enter (by decide) rfl
  | fragment h => exact hs.next h
  | tag => exact hs.moveTo (Cursor.leads_skipWhile _ _)
  | attributes h =>
      exact hs.pastBlanks.turned (turn_attributesMove fun u _ => keeps u) h
        (within_attributesMove hs.pastBlanks.within h)
  | content h => exact hs.pastBlanks.next h
  | spread h => exact hs.pastBlanks.enter (by decide) h
  | value h _ _ hpart => exact (hs.pastBlanks.pastSign h).part hpart
  | children h =>
      exact hs.turned (turn_childrenMove fun u _ => keeps u) h (within_childrenMove hs.within h)
  | child hpart => exact hs.part hpart

-- A call that the check of the source comes to.
def Call.Reached (source : List Char) : Call → Prop :=
  Relation.ReflTransGen Makes (.code none (.start source))

theorem Call.Reached.stacked (h : call.Reached source) : call.scan.Stacked source := by
  induction h with
  | refl => exact stacked_start source
  | tail _ hmakes ih => exact stacked_of_makes hmakes ih

example : Call.Reached ['(', '`', '$', '\x7b', 'x'] (.code (some 2)
    ⟨⟨['x'], 4⟩, [⟨'\x7b', 3⟩, ⟨'(', 0⟩], some (.punctuation '\x7b')⟩) :=
  .tail (.tail (.tail .refl (.code rfl)) (.backtick rfl)) (.placeholder rfl)

end Steps

section Results

variable {source : List Char} {s t : Scan}

-- A scan further on, with the same brackets open.
def Restored (source : List Char) (s t : Scan) : Prop :=
  t.openings = s.openings ∧ Further source s t

variable (hs : s.Within source)

include hs

theorem restored_element {rest : List Char} (hrest : s.rest = '<' :: rest)
    (h : readElement (s.moveTo ⟨rest, s.offset + 1⟩) = some t) : Restored source s t := by
  have hlength := length_of_readElement h
  refine ⟨(keeps (s.moveTo ⟨rest, s.offset + 1⟩)).element t h, further_of_length_lt hs ?_ ?_⟩
  · exact within_readElement (hs.next hrest (.refl _)) h
  · exact Nat.lt_trans hlength (by simp [hrest])

theorem restored_children (h : readChildren s = some t) : Restored source s t := by
  have hopenings := (keeps s).children t h
  obtain ⟨u, hu, rfl⟩ := Option.map_eq_some_iff.mp h
  exact ⟨hopenings, further_of_length_lt hs ((reading_of_within hs).children u hu) u.2⟩

theorem restored_braces {rest : List Char} (hrest : s.rest = '\x7b' :: rest)
    (h : readCode (some (s.openings.length + 1)) (s.enter '\x7b' rest) = .ok t) :
    Restored source s t := by
  have hlength := length_of_readCode h
  refine ⟨(keeps _).openings_of_enter h, further_of_length_lt hs ?_ ?_⟩
  · exact within_readCode (hs.enter (by decide) hrest) h
  · exact Nat.lt_trans hlength (by simp [hrest])

theorem restored_template {rest : List Char} (hrest : s.rest = '`' :: rest)
    (h : readTemplate s.offset (s.moveTo ⟨rest, s.offset + 1⟩) = .ok t) : Restored source s t := by
  have hlength := length_of_readTemplate h
  have hinside := reading_of_within (hs.next hrest (.refl _))
  refine ⟨(keeps (s.moveTo ⟨rest, s.offset + 1⟩)).template _ t h, further_of_length_lt hs ?_ ?_⟩
  · exact within_of_map_eq_ok (hinside.template s.offset (hs.stands ['`'] hrest)) h
  · exact Nat.lt_trans hlength (by simp [hrest])

end Results

-- At each call that the check comes to, the open brackets stand in the source in front of the scan,
-- one behind the other. An element, its children, code in braces and a template leave them open and
-- go forward when they are read; code that is read to the innermost bracket closes that one alone;
-- and behind an element that fails, code is read on from where the trial began, with the `<` an
-- operator. No call is left out: what a turn comes to is settled by the calls that it makes.
theorem readers_restore (source : List Char) :
    (∀ call : Call, call.Reached source →
      let s := call.scan
      s.openings.Pairwise (fun inner outer => outer.offset < inner.offset) ∧
      (∀ opening ∈ s.openings, opening.StandsIn source ∧ opening.offset < s.offset) ∧
      (∀ rest t, s.rest = '<' :: rest →
        readElement (s.moveTo ⟨rest, s.offset + 1⟩) = some t → Restored source s t) ∧
      (∀ t, readChildren s = some t → Restored source s t) ∧
      (∀ rest t, s.rest = '\x7b' :: rest →
        readCode (some (s.openings.length + 1)) (s.enter '\x7b' rest) = .ok t →
        Restored source s t) ∧
      (∀ rest t, s.rest = '`' :: rest →
        readTemplate s.offset (s.moveTo ⟨rest, s.offset + 1⟩) = .ok t → Restored source s t) ∧
      (∀ t, readCode (some s.openings.length) s = .ok t →
        ∃ opening, s.openings = opening :: t.openings) ∧
      ∀ base rest, s.rest = '<' :: rest → readElement (s.moveTo ⟨rest, s.offset + 1⟩) = none →
        codeMove base s s.rest = .on (s.step '<' rest) ∧
          (s.step '<' rest).openings = s.openings ∧ (s.step '<' rest).offset = s.offset + 1) ∧
    ∀ (r : Readers) (call : Call), (∀ call', call.Makes call' → r.Knows call') →
      r.turn.Knows call := by
  refine ⟨fun call hcall => ?_, fun r call => Readers.knows_turn⟩
  have hstacked := hcall.stacked
  have hwithin := hstacked.within
  refine ⟨hstacked.ordered, fun opening hmem => ⟨hwithin.openings opening hmem,
    hstacked.behind opening hmem⟩, fun rest t => restored_element hwithin,
    fun t => restored_children hwithin, fun rest t => restored_braces hwithin,
    fun rest t => restored_template hwithin, fun t => exists_openings_eq_cons,
    fun base rest hrest hfailed => ?_⟩
  rw [hrest]
  exact ⟨codeMove_of_failed base hfailed, rfl, rfl⟩

end LivePreview.Script
