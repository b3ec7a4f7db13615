import LivePreview.Proofs.Script.Calls
import LivePreview.Proofs.Script.Issues

namespace LivePreview.Script

open Text (Cursor)
open Scan

namespace Readers

variable (r : Readers)

-- The readers that come to an end within so many turns, each inside the one before.
def within : Nat → Readers
  | 0 => ⟨fun _ _ => none, fun _ _ => none, fun _ => none, fun _ => none, fun _ => none⟩
  | turns + 1 => (within turns).turn

def issue? (source : List Char) : Option (Option Issue) :=
  (r.code none (.start source)).map (conclude source)

-- The readers come to what reading comes to wherever the measure is below the limit.
structure Serves (limit : Nat) : Prop where
  code : ∀ base s, 2 * s.rest.length < limit → r.code base s = some (readCode base s)
  template : ∀ opened s, 2 * s.rest.length < limit →
    r.template opened s = some (readTemplate opened s)
  element : ∀ s, 2 * s.rest.length + 1 < limit → r.element s = some (readElement s)
  attributes : ∀ s, 2 * s.rest.length < limit → r.attributes s = some (readAttributes s)
  children : ∀ s, 2 * s.rest.length < limit → r.children s = some (readChildren s)

-- The readers of so many turns know each call with a measure below that, since the measure is less
-- for the calls that it makes.
theorem knows_within {turns : Nat} (call : Call) (h : call.measure < turns) :
    (within turns).Knows call := by
  induction turns generalizing call with
  | zero => exact absurd h (Nat.not_lt_zero _)
  | succ turns ih =>
      refine knows_turn fun call' hmakes => ih call' ?_
      exact Nat.lt_of_lt_of_le hmakes.measure_lt (Nat.le_of_lt_succ h)

theorem serves_within (turns : Nat) : (within turns).Serves turns where
  code base s hs := knows_within (.code base s) hs
  template opened s hs := knows_within (.template opened s) hs
  element s hs := knows_within (.element s) hs
  attributes s hs := knows_within (.attributes s) hs
  children s hs := knows_within (.children s) hs

end Readers

section Within

variable {source : List Char} {s t : Scan}

theorem within_of_map_eq_ok {result : Except Halt (Ahead s)} (hresult : Sound source result)
    (h : result.map (·.1) = .ok t) : t.Within source := by
  cases result with
  | error halt => cases h
  | ok u => exact Except.ok.inj h ▸ hresult

theorem within_readCode (hs : s.Within source) {base : Option Nat}
    (h : readCode base s = .ok t) : t.Within source :=
  within_of_map_eq_ok ((reading_of_within hs).code base) h

theorem within_readElement (hs : s.Within source) (h : readElement s = some t) :
    t.Within source := by
  obtain ⟨u, hu, rfl⟩ := Option.map_eq_some_iff.mp h
  exact (reading_of_within hs).element u hu

theorem Scan.Within.next (hs : s.Within source) {c : Char} {rest : List Char}
    (hrest : s.rest = c :: rest) {d : Cursor}
    (hleads : (⟨rest, s.offset + c.utf8Size⟩ : Cursor).Leads d) : (s.moveTo d).Within source :=
  hs.moveTo ((Cursor.leads_of_cons hrest).trans hleads)

theorem Scan.Within.withLast (hs : s.Within source) (last : Option Token) :
    Scan.Within source { s with last := last } :=
  hs.onward (.refl _) (List.Subset.refl _)

variable (hs : s.Within source)

include hs

theorem within_bracketMove {base : Option Nat} {c : Char} {rest : List Char}
    (hrest : s.rest = c :: rest) (h : bracketMove base s c rest = .on t) : t.Within source := by
  unfold bracketMove at h
  split at h
  · rename_i hc
    obtain rfl := Move.on.inj h
    exact hs.enter (by simpa using hc) hrest
  split at h
  · rename_i hc
    split at h
    · cases h
    · rename_i opening outer hopenings
      split at h
      · dsimp only at h
        split at h
        · cases h
        · obtain rfl := Move.on.inj h
          have hsize : c.utf8Size = 1 := by rcases hc with rfl | rfl | rfl <;> rfl
          have hleads := hsize ▸ Cursor.leads_of_cons (c := s.toCursor) hrest
          exact hs.onward hleads (hopenings ▸ List.subset_cons_self opening outer)
      · cases h
  · obtain rfl := Move.on.inj h
    exact hs.onward (Cursor.leads_of_cons hrest) (List.Subset.refl _)

theorem within_tokenMove {base : Option Nat} {c : Char} {rest : List Char}
    (hrest : s.rest = c :: rest) (h : tokenMove base s c rest = .on t) : t.Within source := by
  unfold tokenMove at h
  split at h
  · rename_i hquote
    have hsize : c.utf8Size = 1 := by rcases hquote with rfl | ⟨rfl, _⟩ <;> rfl
    split at h
    · cases h
    · rename_i d hd
      obtain rfl := Move.on.inj h
      have hleads : (⟨rest, s.offset + c.utf8Size⟩ : Cursor).Leads d.1 := by
        rw [hsize]
        exact leads_skipString c _ d hd
      exact (hs.next hrest hleads).withLast _
  split at h
  · rename_i hc
    subst hc
    split at h
    · cases h
    · rename_i u hu
      obtain rfl := Move.on.inj h
      have hinside := reading_of_within (hs.next hrest (.refl _))
      exact (within_of_map_eq_ok (hinside.template s.offset (hs.stands ['`'] hrest)) hu).withLast _
  split at h
  · rename_i u hu
    obtain ⟨⟨rfl, _⟩, hread⟩ := Option.ite_none_right_eq_some.mp hu
    obtain rfl := Move.on.inj h
    exact (within_readElement (hs.next hrest (.refl _)) hread).withLast _
  split at h
  · obtain rfl := Move.on.inj h
    exact (hs.moveTo (Cursor.leads_skipWhile inName s.toCursor)).withLast _
  · exact within_bracketMove hs hrest h

theorem within_codeMove {base : Option Nat} (h : codeMove base s s.rest = .on t) :
    t.Within source := by
  cases hrest : s.rest with
  | nil => rw [hrest] at h; cases h
  | cons c rest =>
      rw [hrest, codeMove] at h
      split at h
      · rename_i hc
        obtain ⟨rfl, _⟩ := hc
        obtain rfl := Move.on.inj h
        exact hs.next hrest (Cursor.leads_skipWhile _ _)
      split at h
      · rename_i hc
        obtain ⟨rfl, hstar⟩ := hc
        split at h
        · cases h
        · rename_i d hd
          obtain rfl := Move.on.inj h
          have hstart : (⟨rest, s.offset + 1⟩ : Cursor).Leads ⟨rest.tail, s.offset + 2⟩ :=
            Cursor.leads_of_rest ['*'] (List.eq_cons_of_mem_head? hstar)
          exact hs.next hrest (hstart.trans (leads_skipComment _ d hd))
      split at h
      · rename_i d hd
        obtain ⟨⟨rfl, _⟩, hregex⟩ := Option.ite_none_right_eq_some.mp hd
        obtain rfl := Move.on.inj h
        exact (hs.next hrest (leads_skipRegex false _ d hregex)).withLast _
      · exact within_tokenMove hs hrest h

theorem within_templateMove {opened : Nat} (h : templateMove opened s s.rest = .on t) :
    t.Within source := by
  cases hrest : s.rest with
  | nil => rw [hrest] at h; cases h
  | cons c rest =>
      rw [hrest, templateMove] at h
      split at h
      · rename_i hc
        subst hc
        obtain rfl := Move.on.inj h
        exact hs.next hrest (Cursor.leads_skip 1 _)
      split at h
      · cases h
      split at h
      · rename_i hc
        obtain ⟨rfl, hbrace⟩ := hc
        dsimp only at h
        split at h
        · cases h
        · rename_i u hu
          obtain rfl := Move.on.inj h
          have hdollar : (s.moveTo ⟨rest, s.offset + 1⟩).Within source :=
            hs.next hrest (.refl _)
          have hinner : rest = '\x7b' :: rest.tail := List.eq_cons_of_mem_head? hbrace
          exact within_readCode (hdollar.enter (by decide) hinner) hu
      · obtain rfl := Move.on.inj h
        exact hs.next hrest (.refl _)

theorem within_bracesMove {rest : List Char} (hrest : s.rest = '\x7b' :: rest)
    (h : bracesMove s rest = .on t) : t.Within source := by
  unfold bracesMove at h
  split at h
  · cases h
  · rename_i u hu
    obtain rfl := Move.on.inj h
    exact within_readCode (hs.enter (by decide) hrest) hu

theorem within_elementMove {rest : List Char} (hrest : s.rest = '<' :: rest)
    (h : elementMove s rest = .on t) : t.Within source := by
  unfold elementMove at h
  split at h
  · cases h
  · rename_i u hu
    obtain rfl := Move.on.inj h
    exact within_readElement (hs.next hrest (.refl _)) hu

theorem within_valueMove (h : valueMove s s.rest = .on t) : t.Within source := by
  cases hrest : s.rest with
  | nil => rw [hrest] at h; cases h
  | cons v inside =>
      rw [hrest, valueMove] at h
      extract_lets close at h
      split at h
      · rename_i hquote
        have hsize : v.utf8Size = 1 := by rcases hquote with rfl | rfl <;> rfl
        split at h
        · cases h
        · obtain rfl := Move.on.inj h
          have hclose : (⟨inside, s.offset + v.utf8Size⟩ : Cursor).Leads (close.skip 1) := by
            rw [hsize]
            exact (Cursor.leads_skipWhile _ _).trans (Cursor.leads_skip 1 _)
          exact hs.next hrest hclose
      split at h
      · rename_i hv
        subst hv
        exact within_bracesMove hs hrest h
      split at h
      · rename_i hv
        subst hv
        exact within_elementMove hs hrest h
      · cases h

theorem within_attributesMove (h : attributesMove s s.rest = .on t) : t.Within source := by
  cases hrest : s.rest with
  | nil => rw [hrest] at h; cases h
  | cons c rest =>
      rw [hrest, attributesMove] at h
      extract_lets name sign value at h
      have hsign : (⟨rest, s.offset + c.utf8Size⟩ : Cursor).Leads sign.toCursor :=
        (Cursor.leads_skipWhile _ _).trans (Cursor.leads_skipWhile _ _)
      have hvalue : (⟨rest, s.offset + c.utf8Size⟩ : Cursor).Leads value.toCursor :=
        hsign.trans ((Cursor.leads_skip 1 _).trans (Cursor.leads_skipWhile _ _))
      split at h
      · cases h
      split at h
      · cases h
      split at h
      · rename_i hc
        subst hc
        exact within_bracesMove hs hrest h
      split at h
      · split at h
        · exact within_valueMove (hs.next hrest hvalue) h
        · obtain rfl := Move.on.inj h
          exact hs.next hrest hsign
      · cases h

theorem within_childrenMove (h : childrenMove s s.rest = .on t) : t.Within source := by
  cases hrest : s.rest with
  | nil => rw [hrest] at h; cases h
  | cons c rest =>
      rw [hrest, childrenMove] at h
      extract_lets close at h
      split at h
      · rename_i hc
        subst hc
        exact within_bracesMove hs hrest h
      split at h
      · rename_i hc
        subst hc
        split at h
        · split at h <;> cases h
        split at h
        · exact within_elementMove hs hrest h
        · cases h
      · obtain rfl := Move.on.inj h
        exact hs.next hrest (.refl _)

end Within

section Course

variable {source : List Char} {s t : Scan}

-- The second scan is further on in the source.
def Further (source : List Char) (s t : Scan) : Prop := t.Within source ∧ s.offset < t.offset

theorem further_of_length_lt (hs : s.Within source) (ht : t.Within source)
    (hlength : t.rest.length < s.rest.length) : Further source s t := by
  obtain ⟨front, hfront, hoffset⟩ := hs.cursor
  obtain ⟨front', hfront', hoffset'⟩ := ht.cursor
  have hlengths := congrArg List.length (hfront.symm.trans hfront')
  rw [List.length_append, List.length_append] at hlengths
  obtain ⟨between, rfl⟩ := List.prefix_of_prefix_length_le (hfront ▸ List.prefix_append _ _)
    (hfront' ▸ List.prefix_append _ _) (by omega)
  have hbetween : between ≠ [] := by
    rintro rfl
    rw [List.append_nil] at hlengths
    omega
  refine ⟨ht, ?_⟩
  rw [hoffset, hoffset', Text.byteLength_append]
  have := Text.byteLength_pos hbetween
  omega

-- A reader is a loop each turn of which ends it or goes on further in the source.
def Advances {α : Type} (source : List Char) (read : Scan → α) (move : Scan → Move α)
    (s : Scan) : Prop :=
  read s = (move s).resume read ∧ ∀ t, move s = .on t → Further source s t

theorem advances_code (hs : s.Within source) (base : Option Nat) :
    Advances source (readCode base) (fun s => codeMove base s s.rest) s := by
  refine ⟨readCode_eq base s, fun t h => ?_⟩
  have hturn := (codeTurn (fun u _ => keeps u) base).of_on h
  exact further_of_length_lt hs (within_codeMove hs h) hturn.1

theorem advances_template (hs : s.Within source) (opened : Nat) :
    Advances source (readTemplate opened) (fun s => templateMove opened s s.rest) s := by
  refine ⟨readTemplate_eq opened s, fun t h => ?_⟩
  have hturn := (turn_templateMove (fun u _ => keeps u) opened).length_of_on h
  exact further_of_length_lt hs (within_templateMove hs h) hturn

theorem advances_attributes (hs : s.Within source) :
    Advances source readAttributes (fun s =>
      let here := s.moveTo (s.toCursor.skipWhile Text.isBlank)
      attributesMove here here.rest) s := by
  refine ⟨readAttributes_eq s, fun t h => ?_⟩
  have hblanks := Cursor.leads_skipWhile Text.isBlank s.toCursor
  have hturn := (turn_attributesMove fun u _ => keeps u).length_of_on h
  exact further_of_length_lt hs (within_attributesMove (hs.moveTo hblanks) h)
    (Nat.lt_of_lt_of_le hturn hblanks.length_le)

theorem advances_children (hs : s.Within source) :
    Advances source readChildren (fun s => childrenMove s s.rest) s := by
  refine ⟨readChildren_eq s, fun t h => ?_⟩
  have hturn := (turn_childrenMove fun u _ => keeps u).length_of_on h
  exact further_of_length_lt hs (within_childrenMove hs h) hturn

-- Behind an element that fails, code is read on from the character after its `<`.
theorem codeMove_of_failed {rest : List Char} (base : Option Nat)
    (h : readElement (s.moveTo ⟨rest, s.offset + 1⟩) = none) :
    codeMove base s ('<' :: rest) = .on (s.step '<' rest) := by
  have hname : inName '<' = false := by decide
  simp [codeMove, tokenMove, bracketMove, h, hname]

theorem issue?_within {turns : Nat} (h : 2 * source.length < turns) :
    (Readers.within turns).issue? source = some (structureIssue? source) := by
  rw [Readers.issue?, (Readers.serves_within turns).code none (.start source) h,
    structureIssue?_eq]
  rfl

-- The check comes to an end: the turns that a reader takes, each inside the one before, are bounded
-- by twice the length of the text ahead. Every turn of a loop ends it or goes on further in the text,
-- and behind an element that fails code goes on after its `<`, with the same brackets open.
theorem structureIssue?_terminates (source : List Char) :
    (∀ turns, (Readers.within turns).Serves turns) ∧
    (∀ turns, 2 * source.length < turns →
      (Readers.within turns).issue? source = some (structureIssue? source)) ∧
    (∀ s : Scan, s.Within source →
      (∀ base, Advances source (readCode base) (fun s => codeMove base s s.rest) s) ∧
      (∀ opened, Advances source (readTemplate opened) (fun s => templateMove opened s s.rest) s) ∧
      Advances source readAttributes (fun s =>
        let here := s.moveTo (s.toCursor.skipWhile Text.isBlank)
        attributesMove here here.rest) s ∧
      Advances source readChildren (fun s => childrenMove s s.rest) s) ∧
    ∀ (s : Scan) (rest : List Char) (base : Option Nat), s.rest = '<' :: rest →
      readElement (s.moveTo ⟨rest, s.offset + 1⟩) = none →
      codeMove base s s.rest = .on (s.step '<' rest) ∧
        (s.step '<' rest).offset = s.offset + 1 ∧ (s.step '<' rest).openings = s.openings := by
  refine ⟨Readers.serves_within, fun turns h => issue?_within h, fun s hs => ?_,
    fun s rest base hrest h => ?_⟩
  · exact ⟨advances_code hs, advances_template hs, advances_attributes hs, advances_children hs⟩
  · rw [hrest]
    exact ⟨codeMove_of_failed base h, rfl, rfl⟩

end Course

end LivePreview.Script
