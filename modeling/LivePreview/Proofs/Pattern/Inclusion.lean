import LivePreview.Proofs.Pattern.Places
import LivePreview.Proofs.Pattern.Running

namespace LivePreview

namespace Spot

theorem skip_eq {spot : Spot} {front later : List Char} (h : spot.rest = front ++ later) :
    spot.skip front.length =
      ⟨front.getLast?.or spot.last, later, spot.offset + Text.byteLength front⟩ := by
  induction front generalizing spot with
  | nil =>
      obtain ⟨last, rest, offset⟩ := spot
      obtain rfl : rest = later := h
      rfl
  | cons c front ih =>
      rw [List.length_cons, skip_cons h, ih rfl]
      cases hlast : front.getLast? <;> simp [List.getLast?_cons, hlast, next, Text.byteLength_cons,
        Nat.add_assoc]

theorem Within.exists_skip {source : List Char} {spot : Spot} (h : spot.Within source) :
    ∃ count, spot = (start source).skip count := by
  obtain ⟨front, hsource, hoffset, hlast⟩ := h
  refine ⟨front.length, ?_⟩
  obtain ⟨last, rest, offset⟩ := spot
  have hstart : (start source).rest = front ++ rest := hsource
  rw [skip_eq hstart]
  simp_all [start]

end Spot

namespace Pattern

-- Wherever the first continuation goes on the second one does too, whatever was captured.
def Passes (finish finish' : Continuation) : Prop :=
  ∀ spot found made, (finish spot found).isSome = true → (finish' spot made).isSome = true

-- Wherever the first search succeeds the second one does too.
def Entails (search search' : Spot → Captures → Continuation → Option (Spot × Captures)) : Prop :=
  ∀ finish finish' : Continuation, Passes finish finish' → ∀ spot found made,
    (search spot found finish).isSome = true → (search' spot made finish').isSome = true

section Rounds

variable {round : Spot → Captures → Continuation → Option (Spot × Captures)} {greedy : Bool}

theorem isSome_prefer {more fewer : Unit → Option (Spot × Captures)} :
    (prefer greedy more fewer).isSome = true ↔
      (more ()).isSome = true ∨ (fewer ()).isSome = true := by
  unfold prefer
  split
  · rw [Option.isSome_or, Bool.or_eq_true]
  · rw [Option.isSome_or, Bool.or_eq_true, or_comm]

private theorem isSome_prefer_imp {more fewer more' fewer' : Option (Spot × Captures)}
    (hmore : more.isSome = true → more'.isSome = true)
    (hfewer : fewer.isSome = true → fewer'.isSome = true)
    (h : (prefer greedy (fun _ => more) fun _ => fewer).isSome = true) :
    (prefer greedy (fun _ => more') fun _ => fewer').isSome = true :=
  isSome_prefer.mpr ((isSome_prefer.mp h).imp hmore hfewer)

private theorem entails_moreRounds (hround : Entails round round) (most : Nat) :
    Entails (moreRounds round greedy most) (moreRounds round greedy most) := by
  intro finish finish' h
  induction most with
  | zero => exact h
  | succ most ih =>
      intro spot found made
      refine isSome_prefer_imp (hround _ _ (fun stop found' made' hthen => ?_) spot found made)
        (h spot found made)
      split at hthen
      · rename_i hlt
        rw [if_pos hlt]
        exact ih stop found' made' hthen
      · cases hthen

private theorem entails_optionalRounds (hround : Entails round round) (most : Nat) :
    Entails (optionalRounds round greedy most) (optionalRounds round greedy most) := by
  intro finish finish' h
  induction most with
  | zero => exact h
  | succ most ih =>
      intro spot found made
      exact isSome_prefer_imp (hround _ _ ih spot found made) (h spot found made)

private theorem entails_exactRounds (hround : Entails round round) (count : Nat) :
    Entails (exactRounds round count) (exactRounds round count) := by
  intro finish finish' h
  induction count with
  | zero => exact h
  | succ count ih => exact hround _ _ ih

private theorem entails_someRounds (hround : Entails round round) :
    Entails (someRounds round greedy) (someRounds round greedy) := by
  intro finish finish' h spot found made
  refine hround _ _ (fun stop found' made' hthen => ?_) spot found made
  split at hthen
  · rename_i hlt
    rw [if_pos hlt]
    exact entails_moreRounds hround _ _ _ h stop found' made' hthen
  · rename_i hle
    rw [if_neg hle]
    exact h stop found' made' hthen

end Rounds

-- Captures have no say in whether a pattern matches.
theorem entails_run (pattern : Pattern) : Entails pattern.run pattern.run := by
  induction pattern with
  | empty => exact fun _ _ h => h
  | set chars =>
      intro finish finish' h spot found made hsome
      unfold run at hsome ⊢
      cases hrest : spot.rest with
      | nil =>
          rw [hrest] at hsome
          cases hsome
      | cons c rest =>
          rw [hrest] at hsome
          dsimp only at hsome ⊢
          split at hsome
          · rename_i hc
            rw [if_pos hc]
            exact h _ _ _ hsome
          · cases hsome
  | assert condition =>
      intro finish finish' h spot found made hsome
      unfold run at hsome ⊢
      split at hsome
      · rename_i hholds
        rw [if_pos hholds]
        exact h _ _ _ hsome
      · cases hsome
  | seq first second ihfirst ihsecond =>
      exact fun finish finish' h => ihfirst _ _ (ihsecond _ _ h)
  | alt first second ihfirst ihsecond =>
      exact fun finish finish' h spot found made =>
        isSome_prefer_imp (ihfirst _ _ h spot found made) (ihsecond _ _ h spot found made)
  | rounds body least most greedy ih =>
      intro finish finish' h
      cases most with
      | some most => exact entails_exactRounds ih least _ _ (entails_optionalRounds ih _ _ _ h)
      | none =>
          cases least with
          | zero =>
              intro spot found made hsome
              unfold run at hsome ⊢
              split at hsome
              · rename_i hnullable
                rw [if_pos hnullable]
                exact isSome_prefer_imp (entails_someRounds ih _ _ h spot found made)
                  (h spot found made) hsome
              · rename_i hnullable
                rw [if_neg hnullable]
                exact entails_moreRounds ih _ _ _ h spot found made hsome
          | succ least =>
              exact entails_exactRounds ih least _ _ (entails_someRounds ih _ _ h)
  | group index body ih =>
      exact fun finish finish' h spot found made hsome =>
        ih _ _ (fun stop found' made' => h stop _ _) spot found made hsome

-- Wherever the first pattern matches the second one matches the same text.
def Implies (first second : Pattern) : Prop := Entails first.run second.run

section Implies

variable {first second third fourth : Pattern}

theorem Implies.refl (pattern : Pattern) : Implies pattern pattern := entails_run pattern

theorem Implies.seq (h : Implies first second) (hbehind : Implies third fourth) :
    Implies (.seq first third) (.seq second fourth) :=
  fun finish finish' hfinish => h _ _ (hbehind finish finish' hfinish)

theorem Implies.left (h : Implies first second) : Implies first (.alt second third) :=
  fun _ _ hfinish spot found made hsome =>
    isSome_prefer.mpr (.inl (h _ _ hfinish spot found made hsome))

theorem Implies.right (h : Implies first third) : Implies first (.alt second third) :=
  fun _ _ hfinish spot found made hsome =>
    isSome_prefer.mpr (.inr (h _ _ hfinish spot found made hsome))

-- The index of a group does not matter, nor does a group.
theorem Implies.group (h : Implies first second) (index other : Nat) :
    Implies (.group index first) (.group other second) :=
  fun _ _ hfinish spot found made hsome =>
    h _ _ (fun stop _ _ => hfinish stop _ _) spot found made hsome

-- What need not be there can be left out.
theorem Implies.maybe (h : Implies first second) (optional : Pattern) :
    Implies first (.seq (.maybe optional) second) := by
  intro finish finish' hfinish spot found made hsome
  rw [run_seq, run_maybe, Option.isSome_or, Bool.or_eq_true]
  exact .inr (h _ _ hfinish spot found made hsome)

theorem Implies.seq_maybe (h : Implies first second) (optional : Pattern) :
    Implies first (.seq second (.maybe optional)) := by
  intro finish finish' hfinish
  refine h _ _ fun spot found made hsome => ?_
  rw [run_maybe, Option.isSome_or, Bool.or_eq_true]
  exact .inr (hfinish spot found made hsome)

end Implies

-- The pattern matches at the spot.
def Matches (pattern : Pattern) (spot : Spot) : Prop := (pattern.matchAt spot).isSome = true

section Matches

variable {first second pattern : Pattern} {spot : Spot} {source : List Char}

-- Where something is matched together with what follows it is matched by itself.
theorem matches_of_run {found : Captures} {finish : Continuation}
    (h : (pattern.run spot found finish).isSome = true) : pattern.Matches spot := by
  unfold Matches matchAt
  rw [Option.isSome_map]
  exact entails_run pattern _ _ (fun _ _ _ _ => rfl) spot found [] h

theorem Matches.of_implies (h : first.Matches spot) (himplies : Implies first second) :
    second.Matches spot := by
  unfold Matches matchAt at *
  rw [Option.isSome_map] at *
  exact himplies _ _ (fun _ _ _ _ => rfl) spot [] [] h

theorem Matches.front (h : (seq first second).Matches spot) : first.Matches spot := by
  unfold Matches matchAt at h
  rw [Option.isSome_map, run_seq] at h
  exact matches_of_run h

-- The pattern matches somewhere in the text.
def Occurs (pattern : Pattern) (source : List Char) : Prop :=
  ∃ spot : Spot, spot.Within source ∧ pattern.Matches spot

theorem Occurs.of_implies (h : first.Occurs source) (himplies : Implies first second) :
    second.Occurs source :=
  h.imp fun _ hm => ⟨hm.1, hm.2.of_implies himplies⟩

theorem Occurs.front (h : (seq first second).Occurs source) : first.Occurs source :=
  h.imp fun _ hm => ⟨hm.1, hm.2.front⟩

-- What the end of a pattern matches occurs as well.
theorem Occurs.back (h : (seq first second).Occurs source) : second.Occurs source := by
  obtain ⟨spot, hspot, hmatches⟩ := h
  unfold Matches matchAt at hmatches
  rw [Option.isSome_map, run_seq] at hmatches
  obtain ⟨result, hrun⟩ := Option.isSome_iff_exists.mp hmatches
  obtain ⟨_, stop, _, _, _, _, hstop, hthen⟩ := run_inside hrun ⟨hspot, nofun⟩
  exact ⟨stop, hstop.spot, matches_of_run (Option.isSome_iff_exists.mpr ⟨result, hthen⟩)⟩

theorem Occurs.of_alt_seq {third : Pattern} (h : (seq (alt first second) third).Occurs source) :
    (seq first third).Occurs source ∨ (seq second third).Occurs source := by
  obtain ⟨spot, hspot, hmatches⟩ := h
  unfold Matches matchAt at hmatches
  rw [Option.isSome_map, run_seq, run_alt, Option.isSome_or, Bool.or_eq_true] at hmatches
  rcases hmatches with h | h
  · exact .inl ⟨spot, hspot, matches_of_run h⟩
  · exact .inr ⟨spot, hspot, matches_of_run h⟩

theorem isSome_findFrom (count : Nat) (h : pattern.Matches (spot.skip count)) :
    (pattern.findFrom spot).isSome = true := by
  induction count generalizing spot with
  | zero =>
      have hmatch : (pattern.matchAt spot).isSome = true := h
      obtain ⟨found, hfound⟩ := Option.isSome_iff_exists.mp hmatch
      rw [findFrom_of_matchAt hfound]
      rfl
  | succ count ih =>
      cases hmatch : pattern.matchAt spot with
      | some found =>
          rw [findFrom_of_matchAt hmatch]
          rfl
      | none =>
          rw [findFrom_of_none hmatch]
          cases hrest : spot.rest with
          | nil =>
              rw [Spot.skip, hrest] at h
              unfold Matches at h
              rw [hmatch] at h
              cases h
          | cons c rest =>
              rw [Spot.skip_cons hrest] at h
              exact ih h

theorem isSome_find?_iff : (pattern.find? source).isSome = true ↔ pattern.Occurs source := by
  constructor
  · intro h
    obtain ⟨found, hfind⟩ := Option.isSome_iff_exists.mp h
    have hrel := rel_findFrom (simulation_within pattern.conditions source)
      (List.Subset.refl pattern.conditions) (s := .start source) (t := .start source)
      ⟨rfl, [], rfl, rfl, rfl⟩
    rw [find?] at hfind
    rw [hfind] at hrel
    cases hrel with
    | some htwin =>
        exact ⟨found.start, htwin.start.2,
          Option.isSome_iff_exists.mpr ⟨found, (matchAt_of_findFrom hfind).2⟩⟩
  · rintro ⟨spot, hspot, hmatches⟩
    obtain ⟨count, rfl⟩ := hspot.exists_skip
    exact isSome_findFrom count hmatches

end Matches

end Pattern

end LivePreview
