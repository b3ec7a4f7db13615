import LivePreview.Proofs.Pattern.Reading

namespace LivePreview

namespace Spot

theorem rest_skip {spot : Spot} {text later : List Char} (h : spot.rest = text ++ later) :
    (spot.skip text.length).rest = later := by
  induction text generalizing spot with
  | nil => exact h
  | cons c text ih =>
      rw [List.length_cons, skip, h]
      exact ih rfl

theorem skip_cons {spot : Spot} {c : Char} {rest : List Char} (h : spot.rest = c :: rest)
    (count : Nat) : spot.skip (count + 1) = (spot.next c rest).skip count := by
  rw [skip, h]

theorem last_skip {spot : Spot} (text : List Char) (c : Char) {later : List Char}
    (h : spot.rest = text ++ c :: later) : (spot.skip (text.length + 1)).last = some c := by
  induction text generalizing spot with
  | nil =>
      rw [List.length_nil, skip_cons h]
      rfl
  | cons d text ih =>
      rw [skip_cons h]
      exact ih rfl

end Spot

namespace Pattern

variable {spot : Spot} {found : Captures} {finish : Continuation} {result : Spot × Captures}

theorem run_set {chars : CharClass} {c : Char} {rest : List Char} (hrest : spot.rest = c :: rest)
    (hc : chars.has c = true) :
    (set chars).run spot found finish = finish (spot.next c rest) found := by
  simp only [run, hrest, hc, if_true]

theorem run_set_eq_none {chars : CharClass} (h : ∀ c ∈ spot.rest.head?, chars.has c = false) :
    (set chars).run spot found finish = none := by
  unfold run
  split
  · rfl
  · rename_i c rest hrest
    rw [if_neg (by simp [h c (by simp [hrest])])]

theorem run_assert {condition : Assertion} (h : condition.holds spot = true) :
    (assert condition).run spot found finish = finish spot found := if_pos h

theorem run_seq (first second : Pattern) :
    (seq first second).run spot found finish =
      first.run spot found fun stop made => second.run stop made finish := rfl

theorem run_alt (first second : Pattern) :
    (alt first second).run spot found finish =
      (first.run spot found finish).or (second.run spot found finish) := rfl

theorem run_maybe (pattern : Pattern) :
    (maybe pattern).run spot found finish =
      (pattern.run spot found finish).or (finish spot found) := rfl

theorem run_plus (pattern : Pattern) :
    (plus pattern).run spot found finish = someRounds pattern.run true spot found finish := rfl

theorem run_plusLazy (pattern : Pattern) :
    (plusLazy pattern).run spot found finish = someRounds pattern.run false spot found finish := rfl

theorem run_group (index : Nat) (pattern : Pattern) :
    (group index pattern).run spot found finish =
      pattern.run spot found fun stop made => finish stop (⟨index, spot, stop⟩ :: made) := rfl

theorem run_char {c : Char} {rest : List Char} (hrest : spot.rest = c :: rest) :
    (char c).run spot found finish = finish (spot.next c rest) found :=
  run_set hrest (by simp [CharClass.has])

theorem run_chars {word later : List Char} (h : spot.rest = word ++ later) :
    (chars word).run spot found finish = finish (spot.skip word.length) found := by
  induction word generalizing spot with
  | nil => rfl
  | cons c word ih =>
      have hrest : spot.rest = c :: (word ++ later) := h
      rw [List.length_cons, Spot.skip_cons hrest]
      cases word with
      | nil => exact run_char hrest
      | cons d word =>
          rw [show chars (c :: d :: word) = seq (char c) (chars (d :: word)) from rfl, run_seq,
            run_char hrest]
          exact ih rfl

theorem run_text {word : String} {later : List Char} (h : spot.rest = word.toList ++ later) :
    (text word).run spot found finish = finish (spot.skip word.toList.length) found :=
  run_chars h

theorem offset_lt_next (spot : Spot) (c : Char) (rest : List Char) :
    spot.offset < (spot.next c rest).offset :=
  Nat.lt_add_of_pos_right c.utf8Size_pos

-- As many characters of the class as there are, if the rest can be matched behind them.
private theorem moreRounds_set {chars : CharClass} {word later : List Char} (most : Nat)
    (hmost : word.length ≤ most) (hrest : spot.rest = word ++ later)
    (hword : ∀ c ∈ word, chars.has c = true) (hlater : ∀ c ∈ later.head?, chars.has c = false)
    (hfinish : finish (spot.skip word.length) found = some result) :
    moreRounds (set chars).run true most spot found finish = some result := by
  induction word generalizing spot most with
  | nil =>
      cases most with
      | zero => exact hfinish
      | succ most =>
          rw [List.nil_append] at hrest
          simp only [moreRounds, prefer, if_true]
          rw [run_set_eq_none (by rwa [hrest]), Option.none_or]
          exact hfinish
  | cons c word ih =>
      obtain ⟨hc, hword⟩ := List.forall_mem_cons.mp hword
      cases most with
      | zero => simp at hmost
      | succ most =>
          rw [List.length_cons, Spot.skip_cons hrest] at hfinish
          simp only [moreRounds, prefer, if_true]
          rw [run_set hrest hc, if_pos (offset_lt_next ..),
            ih most (Nat.le_of_succ_le_succ hmost) rfl hword hfinish, Option.some_or]

theorem run_plus_set {chars : CharClass} {word later : List Char}
    (hrest : spot.rest = word ++ later) (hne : word ≠ [])
    (hword : ∀ c ∈ word, chars.has c = true)
    (hlater : ∀ c ∈ later.head?, chars.has c = false)
    (hfinish : finish (spot.skip word.length) found = some result) :
    (plus (set chars)).run spot found finish = some result := by
  cases word with
  | nil => exact absurd rfl hne
  | cons c word =>
      obtain ⟨hc, hword⟩ := List.forall_mem_cons.mp hword
      rw [List.length_cons, Spot.skip_cons hrest] at hfinish
      rw [run_plus, someRounds, run_set hrest hc, if_pos (offset_lt_next ..)]
      refine moreRounds_set _ ?_ rfl hword hlater hfinish
      simp [Spot.next]

theorem run_star_set {chars : CharClass} {word later : List Char}
    (hrest : spot.rest = word ++ later) (hword : ∀ c ∈ word, chars.has c = true)
    (hlater : ∀ c ∈ later.head?, chars.has c = false)
    (hfinish : finish (spot.skip word.length) found = some result) :
    (star (set chars)).run spot found finish = some result :=
  moreRounds_set _ (by simp [hrest]) hrest hword hlater hfinish

-- All characters of the class but the last one, if the rest can be matched there and not behind it.
private theorem moreRounds_set_back {chars : CharClass} {word later : List Char} {c : Char}
    (most : Nat) (hmost : word.length < most) (hrest : spot.rest = word ++ c :: later)
    (hword : ∀ d ∈ word, chars.has d = true) (hc : chars.has c = true)
    (hlater : ∀ d ∈ later.head?, chars.has d = false)
    (hnone : finish (spot.skip (word.length + 1)) found = none)
    (hfinish : finish (spot.skip word.length) found = some result) :
    moreRounds (set chars).run true most spot found finish = some result := by
  induction word generalizing spot most with
  | nil =>
      obtain ⟨most, rfl⟩ := Nat.exists_eq_succ_of_ne_zero (Nat.ne_of_gt hmost)
      have hlast : moreRounds (set chars).run true most (spot.next c later) found finish = none := by
        have hhere : finish (spot.next c later) found = none := by rwa [Spot.skip_cons hrest] at hnone
        cases most with
        | zero => exact hhere
        | succ most =>
            simp only [moreRounds, prefer, if_true]
            rw [run_set_eq_none hlater, Option.none_or, hhere]
      simp only [moreRounds, prefer, if_true]
      rw [run_set hrest hc, if_pos (offset_lt_next ..), hlast, Option.none_or]
      exact hfinish
  | cons d word ih =>
      obtain ⟨hd, hword⟩ := List.forall_mem_cons.mp hword
      obtain ⟨most, rfl⟩ := Nat.exists_eq_succ_of_ne_zero (Nat.ne_zero_of_lt hmost)
      rw [List.length_cons, Spot.skip_cons hrest] at hfinish hnone
      simp only [moreRounds, prefer, if_true]
      rw [run_set hrest hd, if_pos (offset_lt_next ..),
        ih most (by simpa using hmost) rfl hword hnone hfinish, Option.some_or]

theorem run_star_set_back {chars : CharClass} {word later : List Char} {c : Char}
    (hrest : spot.rest = word ++ c :: later) (hword : ∀ d ∈ word, chars.has d = true)
    (hc : chars.has c = true) (hlater : ∀ d ∈ later.head?, chars.has d = false)
    (hnone : finish (spot.skip (word.length + 1)) found = none)
    (hfinish : finish (spot.skip word.length) found = some result) :
    (star (set chars)).run spot found finish = some result :=
  moreRounds_set_back _ (by simp [hrest]) hrest hword hc hlater hnone hfinish

-- As few characters of the class as the rest can be matched behind.
private theorem moreRounds_set_lazy {chars : CharClass} {word later : List Char} (most : Nat)
    (hmost : word.length ≤ most) (hrest : spot.rest = word ++ later)
    (hword : ∀ c ∈ word, chars.has c = true)
    (hnone : ∀ count < word.length, finish (spot.skip count) found = none)
    (hfinish : finish (spot.skip word.length) found = some result) :
    moreRounds (set chars).run false most spot found finish = some result := by
  induction word generalizing spot most with
  | nil =>
      cases most with
      | zero => exact hfinish
      | succ most =>
          have hhere : finish spot found = some result := hfinish
          simp only [moreRounds, prefer, hhere, Option.some_or, Bool.false_eq_true, if_false]
  | cons c word ih =>
      obtain ⟨hc, hword⟩ := List.forall_mem_cons.mp hword
      cases most with
      | zero => simp at hmost
      | succ most =>
          have hhere : finish spot found = none := hnone 0 (by simp)
          rw [List.length_cons, Spot.skip_cons hrest] at hfinish
          simp only [moreRounds, prefer, hhere, Option.none_or, Bool.false_eq_true, if_false]
          rw [run_set hrest hc, if_pos (offset_lt_next ..)]
          refine ih most (Nat.le_of_succ_le_succ hmost) rfl hword (fun count hcount => ?_) hfinish
          rw [← Spot.skip_cons hrest]
          exact hnone (count + 1) (by simpa using hcount)

theorem run_plusLazy_set {chars : CharClass} {word later : List Char}
    (hrest : spot.rest = word ++ later) (hne : word ≠ []) (hword : ∀ c ∈ word, chars.has c = true)
    (hnone : ∀ count, 0 < count → count < word.length → finish (spot.skip count) found = none)
    (hfinish : finish (spot.skip word.length) found = some result) :
    (plusLazy (set chars)).run spot found finish = some result := by
  cases word with
  | nil => exact absurd rfl hne
  | cons c word =>
      obtain ⟨hc, hword⟩ := List.forall_mem_cons.mp hword
      rw [List.length_cons, Spot.skip_cons hrest] at hfinish
      rw [run_plusLazy, someRounds, run_set hrest hc, if_pos (offset_lt_next ..)]
      refine moreRounds_set_lazy _ (by simp [Spot.next]) rfl hword (fun count hcount => ?_) hfinish
      rw [← Spot.skip_cons hrest]
      exact hnone (count + 1) (Nat.succ_pos _) (by simpa using hcount)

theorem holds_of_matchAt_assert {condition : Assertion} {first : Pattern} {more : List Pattern}
    {found : Match} (h : (all (assert condition :: first :: more)).matchAt spot = some found) :
    condition.holds spot = true := by
  obtain ⟨_, hrun, _⟩ := Option.map_eq_some_iff.mp h
  rw [show all (assert condition :: first :: more) =
    seq (assert condition) (all (first :: more)) from rfl, run_seq, run] at hrun
  split at hrun
  · assumption
  · cases hrun

theorem findFrom_of_matchAt {pattern : Pattern} {found : Match}
    (h : pattern.matchAt spot = some found) : pattern.findFrom spot = some found := by
  rw [findFrom, h]

-- A search passes a text no end of which, together with what follows, starts with a match.
theorem findFrom_skip {pattern : Pattern} {text later : List Char}
    (hrest : spot.rest = text ++ later)
    (hnone : ∀ front, front ≠ [] → front <:+ text → ∀ start : Spot, start.rest = front ++ later →
      pattern.matchAt start = none) :
    pattern.findFrom spot = pattern.findFrom (spot.skip text.length) := by
  induction text generalizing spot with
  | nil => rfl
  | cons c text ih =>
      have hmatch := hnone (c :: text) (by simp) List.suffix_rfl spot hrest
      rw [List.length_cons, Spot.skip_cons hrest, ← ih rfl fun front hne hsuffix =>
        hnone front hne (hsuffix.trans (List.suffix_cons _ _))]
      rw [findFrom, hmatch]
      dsimp only
      split
      · rename_i hnil
        rw [hrest] at hnil
        cases hnil
      · rename_i hcons
        rw [hrest] at hcons
        cases hcons
        rfl

end Pattern

end LivePreview
