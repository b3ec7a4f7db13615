import LivePreview.Proofs.Pattern.Running

namespace LivePreview

-- A group and the text that it holds.
def Capture.entry (capture : Capture) : Nat × List Char := (capture.index, capture.text)

namespace Spot

theorem skip_add {spot : Spot} {text later : List Char} (h : spot.rest = text ++ later)
    (count : Nat) : spot.skip (text.length + count) = (spot.skip text.length).skip count := by
  induction text generalizing spot with
  | nil => rw [List.length_nil, Nat.zero_add, skip]
  | cons c text ih =>
      rw [List.length_cons, skip_cons h, Nat.add_right_comm, skip_cons h]
      exact ih rfl

theorem offset_le_skip (spot : Spot) (count : Nat) : spot.offset ≤ (spot.skip count).offset := by
  induction count generalizing spot with
  | zero => exact Nat.le_refl _
  | succ count ih =>
      rw [skip]
      split
      · exact Nat.le_refl _
      · rename_i c rest _
        exact Nat.le_trans (Nat.le_of_lt (Pattern.offset_lt_next spot c rest)) (ih _)

theorem offset_lt_skip {spot : Spot} {text later : List Char} (h : spot.rest = text ++ later)
    (hne : text ≠ []) : spot.offset < (spot.skip text.length).offset := by
  obtain ⟨c, text, rfl⟩ := List.exists_cons_of_ne_nil hne
  rw [List.length_cons, skip_cons h]
  exact Nat.lt_of_lt_of_le (Pattern.offset_lt_next spot c _) (offset_le_skip _ _)

end Spot

namespace Pattern

-- At the spot the pattern takes the text, with these groups, the last one first: whatever succeeds
-- behind the text, the search does.
def Takes (pattern : Pattern) (spot : Spot) (text later : List Char)
    (groups : List (Nat × List Char)) : Prop :=
  spot.rest = text ++ later → ∃ made : Captures, made.map Capture.entry = groups ∧
    ∀ found finish result, finish (spot.skip text.length) (made ++ found) = some result →
      pattern.run spot found finish = some result

section Takes

variable {first second body : Pattern} {spot : Spot} {chars : CharClass}
  {text later : List Char} {groups : List (Nat × List Char)}

-- Nothing is captured.
theorem takes_of_run (h : spot.rest = text ++ later → ∀ found finish result,
    finish (spot.skip text.length) found = some result →
      first.run spot found finish = some result) : first.Takes spot text later [] :=
  fun hrest => ⟨[], rfl, h hrest⟩

theorem takes_set {c : Char} (hc : chars.has c = true) : (set chars).Takes spot [c] later [] :=
  takes_of_run fun hrest _ _ _ hfinish => by
    rw [run_set hrest hc]
    rwa [List.length_singleton, Spot.skip_cons hrest] at hfinish

theorem takes_char (c : Char) : (char c).Takes spot [c] later [] :=
  takes_set (by simp [CharClass.has])

theorem takes_text (word : String) : (Pattern.text word).Takes spot word.toList later [] :=
  takes_of_run fun hrest _ _ _ hfinish => by rwa [run_text hrest]

theorem takes_assert {condition : Assertion}
    (h : spot.rest = later → condition.holds spot = true) :
    (assert condition).Takes spot [] later [] :=
  takes_of_run fun hrest _ _ _ hfinish => by rwa [run_assert (h hrest)]

theorem takes_plus (hne : text ≠ []) (htext : ∀ c ∈ text, chars.has c = true)
    (hlater : ∀ c ∈ later.head?, chars.has c = false) :
    (plus (set chars)).Takes spot text later [] :=
  takes_of_run fun hrest _ _ _ hfinish => run_plus_set hrest hne htext hlater hfinish

theorem takes_star (htext : ∀ c ∈ text, chars.has c = true)
    (hlater : ∀ c ∈ later.head?, chars.has c = false) :
    (star (set chars)).Takes spot text later [] :=
  takes_of_run fun hrest _ _ _ hfinish => run_star_set hrest htext hlater hfinish

theorem Takes.seq {behind : List Char} {others : List (Nat × List Char)}
    (hfirst : first.Takes spot text (behind ++ later) groups)
    (hsecond : second.Takes (spot.skip text.length) behind later others) :
    (Pattern.seq first second).Takes spot (text ++ behind) later (others ++ groups) := by
  intro hrest
  rw [List.append_assoc] at hrest
  obtain ⟨made, hmade, hrun⟩ := hfirst hrest
  obtain ⟨more, hmore, hthen⟩ := hsecond (Spot.rest_skip hrest)
  refine ⟨more ++ made, by rw [List.map_append, hmade, hmore], fun found finish result h => ?_⟩
  rw [List.length_append, Spot.skip_add hrest, List.append_assoc] at h
  exact hrun _ _ _ (hthen _ _ _ h)

theorem Takes.group (h : body.Takes spot text later groups) (index : Nat) :
    (Pattern.group index body).Takes spot text later ((index, text) :: groups) := by
  intro hrest
  obtain ⟨made, hmade, hrun⟩ := h hrest
  have hbehind := Spot.rest_skip hrest
  refine ⟨⟨index, spot, spot.skip text.length⟩ :: made, ?_, fun found finish result hfinish => ?_⟩
  · have htext : (⟨index, spot, spot.skip text.length⟩ : Capture).text = text :=
      capture_text (hbehind ▸ hrest)
    rw [List.map_cons, hmade, Capture.entry, htext]
  · rw [run_group]
    exact hrun _ _ _ hfinish

theorem Takes.left (h : first.Takes spot text later groups) :
    (alt first second).Takes spot text later groups := by
  intro hrest
  obtain ⟨made, hmade, hrun⟩ := h hrest
  refine ⟨made, hmade, fun found finish result hfinish => ?_⟩
  rw [run_alt, hrun _ _ _ hfinish, Option.some_or]

theorem Takes.right (h : second.Takes spot text later groups)
    (hnone : ∀ front behind, spot.rest = front ++ behind → ¬Reads first front) :
    (alt first second).Takes spot text later groups := by
  intro hrest
  obtain ⟨made, hmade, hrun⟩ := h hrest
  refine ⟨made, hmade, fun found finish result hfinish => ?_⟩
  rw [run_alt, run_eq_none hnone, Option.none_or]
  exact hrun _ _ _ hfinish

theorem Takes.maybe (h : body.Takes spot text later groups) :
    (Pattern.maybe body).Takes spot text later groups := by
  intro hrest
  obtain ⟨made, hmade, hrun⟩ := h hrest
  refine ⟨made, hmade, fun found finish result hfinish => ?_⟩
  rw [run_maybe, hrun _ _ _ hfinish, Option.some_or]

-- What may stand here does not.
theorem takes_maybe_nil (hnone : ∀ front behind, later = front ++ behind → ¬Reads body front) :
    (Pattern.maybe body).Takes spot [] later [] :=
  takes_of_run fun hrest found finish result hfinish => by
    rw [run_maybe, run_eq_none fun front behind h => hnone front behind (hrest.symm.trans h),
      Option.none_or]
    exact hfinish

-- All characters of the class but the last one, which what follows cannot do without.
theorem takes_star_back {c : Char} {behind : List Char} (htext : ∀ d ∈ text, chars.has d = true)
    (hc : chars.has c = true) (hlater : ∀ d ∈ (behind ++ later).head?, chars.has d = false)
    (hnone : ∀ front other, behind ++ later = front ++ other → ¬Reads second front)
    (hsecond : second.Takes (spot.skip text.length) (c :: behind) later groups) :
    (Pattern.seq (star (set chars)) second).Takes spot (text ++ c :: behind) later groups := by
  intro hrest
  rw [List.append_assoc] at hrest
  obtain ⟨made, hmade, hthen⟩ := hsecond (Spot.rest_skip hrest)
  refine ⟨made, hmade, fun found finish result hfinish => ?_⟩
  rw [List.length_append, Spot.skip_add hrest] at hfinish
  have hbehind : (spot.skip (text.length + 1)).rest = behind ++ later := by
    have hlength : text.length + 1 = (text ++ [c]).length := by simp
    rw [hlength]
    exact Spot.rest_skip (by simpa using hrest)
  refine run_star_set_back hrest htext hc hlater ?_ (hthen found finish result hfinish)
  exact run_eq_none (fun front other h => hnone front other (hbehind.symm.trans h)) found finish

-- What is taken by one of two patterns and another one behind it.
theorem Takes.seq_left {third : Pattern} (h : (Pattern.seq first third).Takes spot text later groups) :
    (Pattern.seq (alt first second) third).Takes spot text later groups := by
  intro hrest
  obtain ⟨made, hmade, hrun⟩ := h hrest
  refine ⟨made, hmade, fun found finish result hfinish => ?_⟩
  have hfirst := hrun found finish result hfinish
  rw [run_seq] at hfirst
  rw [run_seq, run_alt, hfirst, Option.some_or]

-- As few characters of the class as what follows can be taken behind.
theorem Takes.lazy {behind : List Char} (index : Nat) (hne : text ≠ [])
    (htext : ∀ c ∈ text, chars.has c = true)
    (hsecond : second.Takes (spot.skip text.length) behind later groups)
    (hnone : ∀ read rest front other, text = read ++ rest → read ≠ [] → rest ≠ [] →
      rest ++ behind ++ later = front ++ other → ¬Reads second front) :
    (Pattern.seq (Pattern.group index (plusLazy (set chars))) second).Takes spot
      (text ++ behind) later (groups ++ [(index, text)]) := by
  intro hrest
  rw [List.append_assoc] at hrest
  have hstop := Spot.rest_skip hrest
  obtain ⟨made, hmade, hthen⟩ := hsecond hstop
  refine ⟨made ++ [⟨index, spot, spot.skip text.length⟩], ?_, fun found finish result h => ?_⟩
  · have htext : (⟨index, spot, spot.skip text.length⟩ : Capture).text = text :=
      capture_text (hstop ▸ hrest)
    rw [List.map_append, hmade, List.map_singleton, Capture.entry, htext]
  · rw [List.length_append, Spot.skip_add hrest, List.append_assoc] at h
    refine run_plusLazy_set hrest hne htext (fun count hpos hlt => ?_) (hthen _ _ _ h)
    obtain ⟨read, rest, rfl, rfl⟩ : ∃ read rest, text = read ++ rest ∧ count = read.length :=
      ⟨text.take count, text.drop count, (List.take_append_drop count text).symm, by simp; omega⟩
    rw [List.append_assoc] at hrest
    refine run_eq_none (fun front other hfront => ?_) _ _
    rw [Spot.rest_skip hrest] at hfront
    refine hnone read rest front other rfl (List.length_pos_iff.mp hpos) ?_
      (by rw [← hfront, List.append_assoc])
    rintro rfl
    simp at hlt

-- A pattern that takes a text matches it.
theorem Takes.exists_matchAt (h : first.Takes spot text later groups)
    (hrest : spot.rest = text ++ later) :
    ∃ captures : Captures, captures.map Capture.entry = groups ∧
      first.matchAt spot = some ⟨spot, spot.skip text.length, captures⟩ := by
  obtain ⟨made, hmade, hrun⟩ := h hrest
  refine ⟨made, hmade, ?_⟩
  rw [matchAt, hrun [] _ (spot.skip text.length, made) (by rw [List.append_nil])]
  rfl

end Takes

theorem Match.group?_eq (found : Match) (index : Nat) :
    found.group? index = (found.captures.map Capture.entry).lookup index := by
  unfold Match.group? Match.capture?
  induction found.captures with
  | nil => rfl
  | cons capture captures ih =>
      rw [List.map_cons, List.lookup_cons, List.find?_cons]
      by_cases h : capture.index = index
      · subst h
        simp [Capture.entry]
      · have hindex : (index == capture.entry.1) = false := beq_eq_false_iff_ne.mpr (Ne.symm h)
        rw [beq_eq_false_iff_ne.mpr h, hindex]
        exact ih

theorem Match.has_eq (found : Match) (index : Nat) :
    found.has index = (found.group? index).isSome :=
  (Option.isSome_map ..).symm

end Pattern

end LivePreview
