import LivePreview.Proofs.Script.Moves

namespace LivePreview.Script

open Text (Cursor)
open Scan

section Length

variable {s t : Scan}

theorem length_of_map_eq_ok {result : Except Halt (Ahead s)} (h : result.map (·.1) = .ok t) :
    t.rest.length < s.rest.length := by
  cases result with
  | error halt => cases h
  | ok u => exact Except.ok.inj h ▸ u.2

theorem length_of_readCode {base : Option Nat} (h : readCode base s = .ok t) :
    t.rest.length < s.rest.length :=
  length_of_map_eq_ok h

theorem length_of_readTemplate {opened : Nat} (h : readTemplate opened s = .ok t) :
    t.rest.length < s.rest.length :=
  length_of_map_eq_ok h

theorem length_of_readElement (h : readElement s = some t) : t.rest.length < s.rest.length := by
  obtain ⟨u, _, rfl⟩ := Option.map_eq_some_iff.mp h
  exact u.2

end Length

-- How the open brackets change while code is read from the offset on to the bracket that takes
-- their number below `base`.
inductive Shifts (base : Option Nat) (offset : Nat) (before : List Opening) : List Opening → Prop
  | same : Shifts base offset before before
  | pushed (bracket : Char) : Shifts base offset before (⟨bracket, offset⟩ :: before)
  | popped {after : List Opening} (opening : Opening) (h : before = opening :: after)
      (hbase : base.any (after.length < ·) = false) : Shifts base offset before after

namespace Shifts

variable {base : Option Nat} {offset : Nat} {before after inner : List Opening}

theorem bounded (h : Shifts base offset before after)
    (hbase : ∀ depth ∈ base, depth ≤ before.length) :
    ∀ depth ∈ base, depth ≤ after.length := by
  intro depth hdepth
  have hbefore := hbase depth hdepth
  cases h with
  | same => exact hbefore
  | pushed bracket => exact Nat.le_succ_of_le hbefore
  | popped opening h hopen =>
      rw [Option.any_eq_false] at hopen
      simpa using hopen depth hdepth

theorem suffix (h : Shifts base offset before after) (hinner : inner <:+ after)
    (hlength : inner.length < before.length) : inner <:+ before := by
  cases h with
  | same => exact hinner
  | pushed bracket =>
      rcases List.suffix_cons_iff.mp hinner with rfl | hinner
      · exact absurd hlength (by simp)
      · exact hinner
  | popped opening h _ => exact h ▸ hinner.trans (List.suffix_cons _ _)

end Shifts

-- A turn of the code reader goes forward in the text, and code ends where the bracket closes that
-- takes the number of open brackets below `base`.
inductive CodeTurn (base : Option Nat) (s : Scan) : Move (Except Halt Scan) → Prop
  | on {t : Scan} (hlength : t.rest.length < s.rest.length)
      (h : Shifts base s.offset s.openings t.openings) : CodeTurn base s (.on t)
  | closed {t : Scan} (opening : Opening) (h : s.openings = opening :: t.openings)
      (hbase : base.any (t.openings.length < ·) = true) : CodeTurn base s (.done (.ok t))
  | halted (halt : Halt) : CodeTurn base s (.done (.error halt))

-- A turn of another reader goes forward in the text too, and it leaves the brackets open that are.
inductive Turn {α : Type} (ended : Scan → α) (s : Scan) : Move α → Prop
  | on {t : Scan} (hlength : t.rest.length < s.rest.length) (h : t.openings = s.openings) :
      Turn ended s (.on t)
  | ended {t : Scan} (h : t.openings = s.openings) : Turn ended s (.done (ended t))
  | failed {result : α} (h : ∀ t, result ≠ ended t) : Turn ended s (.done result)

theorem CodeTurn.of_on {base : Option Nat} {s t : Scan} {move : Move (Except Halt Scan)}
    (h : CodeTurn base s move) (hmove : move = .on t) :
    t.rest.length < s.rest.length ∧ Shifts base s.offset s.openings t.openings := by
  subst hmove
  cases h with
  | on hlength h => exact ⟨hlength, h⟩

namespace Turn

variable {α : Type} {ended : Scan → α} {s t : Scan} {move : Move α}

theorem length_of_on (h : Turn ended s move) (hmove : move = .on t) :
    t.rest.length < s.rest.length := by
  subst hmove
  cases h with
  | on hlength => exact hlength

theorem openings_of_on (h : Turn ended s move) (hmove : move = .on t) :
    t.openings = s.openings := by
  subst hmove
  cases h with
  | on _ h => exact h

theorem of_onward (h : Turn ended t move) (hlength : t.rest.length ≤ s.rest.length)
    (hopenings : t.openings = s.openings) : Turn ended s move := by
  cases h with
  | on hshorter h => exact .on (Nat.lt_of_lt_of_le hshorter hlength) (h.trans hopenings)
  | ended h => exact .ended (h.trans hopenings)
  | failed h => exact .failed h

-- What a turn comes to in the end, if this is so of the turns after it.
theorem openings_of_resume (h : Turn ended s move) (hended : Function.Injective ended)
    {read : Scan → α} (hread : ∀ u : Scan, u.rest.length < s.rest.length →
      ∀ t, read u = ended t → t.openings = u.openings) (hresult : move.resume read = ended t) :
    t.openings = s.openings := by
  cases h with
  | on hlength h => exact (hread _ hlength t hresult).trans h
  | ended h => exact hended hresult ▸ h
  | failed h => exact absurd hresult (h t)

end Turn

-- Whatever is read from the scan on leaves the brackets open that were open around it.
structure Keeps (s : Scan) : Prop where
  code : ∀ depth t, depth < s.openings.length → readCode (some (depth + 1)) s = .ok t →
    t.openings <:+ s.openings ∧ t.openings.length = depth
  template : ∀ opened t, readTemplate opened s = .ok t → t.openings = s.openings
  element : ∀ t, readElement s = some t → t.openings = s.openings
  attributes : ∀ t, readAttributes s = some t → t.openings = s.openings
  children : ∀ t, readChildren s = some t → t.openings = s.openings

theorem Keeps.openings_of_cons {s t : Scan} {opening : Opening} {outer : List Opening}
    (h : Keeps s) (hopenings : s.openings = opening :: outer)
    (hcode : readCode (some (outer.length + 1)) s = .ok t) : t.openings = outer := by
  have hdepth : outer.length < s.openings.length := by simp [hopenings]
  obtain ⟨hsuffix, hlength⟩ := h.code outer.length t hdepth hcode
  rcases List.suffix_cons_iff.mp (hopenings ▸ hsuffix) with heq | hsuffix
  · rw [heq, List.length_cons] at hlength
    omega
  · exact hsuffix.eq_of_length hlength

-- Code in brackets leaves those open that are open around them.
theorem Keeps.openings_of_enter {s t : Scan} {bracket : Char} {rest : List Char}
    (h : Keeps (s.enter bracket rest))
    (hcode : readCode (some (s.openings.length + 1)) (s.enter bracket rest) = .ok t) :
    t.openings = s.openings :=
  h.openings_of_cons rfl hcode

section Turns

variable {s : Scan} (ih : ∀ t : Scan, t.rest.length < s.rest.length → Keeps t)

include ih

omit ih in
theorem codeTurn_bracketMove (base : Option Nat) {c : Char} {rest : List Char}
    (hrest : rest.length < s.rest.length) : CodeTurn base s (bracketMove base s c rest) := by
  unfold bracketMove
  split
  · exact .on hrest (.pushed _)
  split
  · split
    · exact .halted _
    · rename_i opening outer hopenings
      split
      · dsimp only
        split
        · rename_i hbase
          exact .closed opening hopenings hbase
        · rename_i hbase
          exact .on hrest (.popped opening hopenings (by simpa using hbase))
      · exact .halted _
  · exact .on hrest .same

theorem codeTurn_tokenMove (base : Option Nat) {c : Char} {rest : List Char}
    (hrest : s.rest = c :: rest) : CodeTurn base s (tokenMove base s c rest) := by
  have hnext : rest.length < s.rest.length := by simp [hrest]
  unfold tokenMove
  split
  · split
    · exact .halted _
    · rename_i d _
      exact .on (Nat.lt_of_le_of_lt d.2 hnext) .same
  split
  · split
    · exact .halted _
    · rename_i t ht
      have hlength : t.rest.length < rest.length := length_of_readTemplate ht
      have hopenings : t.openings = s.openings :=
        (ih (s.moveTo ⟨rest, s.offset + 1⟩) hnext).template _ t ht
      exact .on (Nat.lt_trans hlength hnext) (hopenings ▸ .same)
  split
  · rename_i t ht
    obtain ⟨_, ht⟩ := Option.ite_none_right_eq_some.mp ht
    have hlength : t.rest.length < rest.length := length_of_readElement ht
    have hopenings : t.openings = s.openings :=
      (ih (s.moveTo ⟨rest, s.offset + 1⟩) hnext).element t ht
    exact .on (Nat.lt_trans hlength hnext) (hopenings ▸ .same)
  split
  · rename_i hname
    exact .on (Cursor.length_skipWhile_lt hrest hname) .same
  · exact codeTurn_bracketMove base hnext

theorem codeTurn (base : Option Nat) : CodeTurn base s (codeMove base s s.rest) := by
  cases hrest : s.rest with
  | nil => exact .halted _
  | cons c rest =>
      have hnext : rest.length < s.rest.length := by simp [hrest]
      rw [codeMove]
      split
      · exact .on (Nat.lt_of_le_of_lt (Cursor.length_skipWhile_le _ _) hnext) .same
      split
      · split
        · exact .halted _
        · rename_i d _
          have htail : rest.tail.length ≤ rest.length := by simp
          exact .on (Nat.lt_of_le_of_lt d.2 (Nat.lt_of_le_of_lt htail hnext)) .same
      split
      · rename_i d _
        exact .on (Nat.lt_of_le_of_lt d.2 hnext) .same
      · exact codeTurn_tokenMove ih base hrest

theorem turn_templateMove (opened : Nat) :
    Turn Except.ok s (templateMove opened s s.rest) := by
  cases hrest : s.rest with
  | nil => exact .failed (by simp)
  | cons c rest =>
      have hnext : rest.length < s.rest.length := by simp [hrest]
      unfold templateMove
      dsimp only
      split
      · refine .on ?_ rfl
        have hskip := Cursor.length_skip 1 (⟨rest, s.offset + 1⟩ : Cursor)
        rw [rest_moveTo, hskip]
        exact Nat.lt_of_le_of_lt (Nat.sub_le _ _) hnext
      split
      · exact .ended rfl
      split
      · split
        · exact .failed (by simp)
        · rename_i t ht
          have htail : rest.tail.length ≤ rest.length := by simp
          have hinner := Nat.lt_of_le_of_lt htail hnext
          have hlength : t.rest.length < rest.tail.length := length_of_readCode ht
          exact .on (Nat.lt_trans hlength hinner)
            ((ih ((s.moveTo ⟨rest, s.offset + 1⟩).enter '\x7b' rest.tail)
              hinner).openings_of_enter ht)
      · exact .on hnext rfl

theorem turn_bracesMove {rest : List Char} (hrest : rest.length < s.rest.length) :
    Turn some s (bracesMove s rest) := by
  unfold bracesMove
  split
  · exact .failed (by simp)
  · rename_i t ht
    have hlength : t.rest.length < rest.length := length_of_readCode ht
    exact .on (Nat.lt_trans hlength hrest) ((ih _ hrest).openings_of_enter ht)

theorem turn_elementMove {rest : List Char} (hrest : rest.length < s.rest.length) :
    Turn some s (elementMove s rest) := by
  unfold elementMove
  split
  · exact .failed (by simp)
  · rename_i t ht
    have hlength : t.rest.length < rest.length := length_of_readElement ht
    exact .on (Nat.lt_trans hlength hrest)
      ((ih (s.moveTo ⟨rest, s.offset + 1⟩) hrest).element t ht)

theorem turn_valueMove : Turn some s (valueMove s s.rest) := by
  cases hrest : s.rest with
  | nil => exact .failed (by simp)
  | cons v inside =>
      have hnext : inside.length < s.rest.length := by simp [hrest]
      rw [valueMove]
      extract_lets close
      split
      · split
        · exact .failed (by simp)
        · refine .on ?_ rfl
          rw [rest_moveTo, Cursor.length_skip]
          have hclose : close.rest.length ≤ inside.length := Cursor.length_skipWhile_le _ _
          omega
      split
      · exact turn_bracesMove ih hnext
      split
      · exact turn_elementMove ih hnext
      · exact .failed (by simp)

theorem turn_attributesMove : Turn some s (attributesMove s s.rest) := by
  cases hrest : s.rest with
  | nil => exact .failed (by simp)
  | cons c rest =>
      have hnext : rest.length < s.rest.length := by simp [hrest]
      rw [attributesMove]
      extract_lets name sign value
      have hsign : sign.rest.length < s.rest.length :=
        Nat.lt_of_le_of_lt (Nat.le_trans (Cursor.length_skipWhile_le _ _)
          (Cursor.length_skipWhile_le _ _)) hnext
      have hvalue : value.rest.length < s.rest.length := by
        have hskip := Cursor.length_skip 1 sign.toCursor
        have hblanks := Cursor.length_skipWhile_le Text.isBlank (sign.toCursor.skip 1)
        simp only [value, rest_moveTo]
        omega
      split
      · exact .ended rfl
      split
      · cases hchildren : readChildren (s.moveTo ⟨rest, s.offset + 1⟩) with
        | none => exact .failed (by simp)
        | some t => exact .ended ((ih (s.moveTo ⟨rest, s.offset + 1⟩) hnext).children t hchildren)
      split
      · exact turn_bracesMove ih hnext
      split
      · split
        · exact (turn_valueMove fun t ht => ih t (Nat.lt_trans ht hvalue)).of_onward
            (Nat.le_of_lt hvalue) rfl
        · exact .on hsign rfl
      · exact .failed (by simp)

theorem turn_childrenMove : Turn some s (childrenMove s s.rest) := by
  cases hrest : s.rest with
  | nil => exact .failed (by simp)
  | cons c rest =>
      have hnext : rest.length < s.rest.length := by simp [hrest]
      rw [childrenMove]
      extract_lets close
      split
      · exact turn_bracesMove ih hnext
      split
      · split
        · split
          · exact .failed (by simp)
          · exact .ended rfl
        split
        · exact turn_elementMove ih hnext
        · exact .failed (by simp)
      · exact .on hnext rfl

end Turns

-- Whatever is read leaves the brackets open that were open around it, since less and less text is
-- ahead.
theorem keeps (s : Scan) : Keeps s := by
  induction hlength : s.rest.length using Nat.strongRecOn generalizing s with
  | _ limit ih =>
      subst hlength
      have hshorter : ∀ t : Scan, t.rest.length < s.rest.length → Keeps t :=
        fun t ht => ih _ ht t rfl
      have hok : Function.Injective (Except.ok : Scan → Except Halt Scan) :=
        fun _ _ => Except.ok.inj
      have hsome : Function.Injective (some : Scan → Option Scan) := fun _ _ => Option.some.inj
      have hattributes : ∀ u : Scan, u.rest.length ≤ s.rest.length →
          ∀ t, readAttributes u = some t → t.openings = u.openings := by
        intro u hu t h
        rw [readAttributes_eq] at h
        extract_lets here at h
        have hhere := Nat.le_trans (Cursor.length_skipWhile_le Text.isBlank u.toCursor) hu
        change t.openings = here.openings
        refine (turn_attributesMove fun v hv => ?_).openings_of_resume hsome (fun v hv => ?_) h
        · exact hshorter v (Nat.lt_of_lt_of_le hv hhere)
        · exact (hshorter v (Nat.lt_of_lt_of_le hv hhere)).attributes
      refine ⟨fun depth t hdepth h => ?_, fun opened t h => ?_, fun t h => ?_,
        hattributes s (Nat.le_refl _), fun t h => ?_⟩
      · rw [readCode_eq] at h
        generalize hmove : codeMove (some (depth + 1)) s s.rest = move at h
        cases hmove ▸ codeTurn hshorter (some (depth + 1)) with
        | on hnext hshifts =>
            have hbounded := hshifts.bounded (by simpa [Nat.succ_le_iff] using hdepth)
            obtain ⟨hsuffix, hlength⟩ :=
              (hshorter _ hnext).code depth t (hbounded _ rfl) h
            exact ⟨hshifts.suffix hsuffix (hlength ▸ hdepth), hlength⟩
        | closed opening hopenings hbase =>
            obtain rfl := Except.ok.inj h
            rw [hopenings, List.length_cons] at hdepth
            rw [Option.any_some, decide_eq_true_iff] at hbase
            exact ⟨hopenings ▸ List.suffix_cons _ _, by omega⟩
        | halted => cases h
      · rw [readTemplate_eq] at h
        exact (turn_templateMove hshorter opened).openings_of_resume hok
          (fun u hu => (hshorter u hu).template opened) h
      · rw [readElement_eq] at h
        split at h
        · rename_i hhead
          have hnext : s.rest.tail.length < s.rest.length := by
            rw [List.eq_cons_of_mem_head? hhead]
            exact Nat.lt_succ_self _
          exact (hshorter (s.moveTo ⟨s.rest.tail, s.offset + 1⟩) hnext).children t h
        · exact hattributes (s.moveTo _) (Cursor.length_skipWhile_le _ _) t h
      · rw [readChildren_eq] at h
        exact (turn_childrenMove hshorter).openings_of_resume hsome
          (fun u hu => (hshorter u hu).children) h

-- With no bracket open, none can be the one that ends the code.
theorem readCode_zero_ne_ok (s t : Scan) : readCode (some 0) s ≠ .ok t := by
  induction hlength : s.rest.length using Nat.strongRecOn generalizing s with
  | _ limit ih =>
      subst hlength
      intro h
      rw [readCode_eq] at h
      generalize hmove : codeMove (some 0) s s.rest = move at h
      cases hmove ▸ codeTurn (fun u _ => keeps u) (some 0) with
      | on hnext _ => exact ih _ hnext _ rfl h
      | closed opening _ hbase => simp at hbase
      | halted => cases h

-- Code that is read to the innermost bracket closes it and no other.
theorem exists_openings_eq_cons {s t : Scan} (h : readCode (some s.openings.length) s = .ok t) :
    ∃ opening, s.openings = opening :: t.openings := by
  cases hopenings : s.openings with
  | nil =>
      rw [hopenings] at h
      exact absurd h (readCode_zero_ne_ok s t)
  | cons opening outer =>
      rw [hopenings] at h
      rw [(keeps s).openings_of_cons hopenings h]
      exact ⟨opening, rfl⟩

end LivePreview.Script
