import LivePreview.Proofs.Pattern.Running
import Mathlib.Data.List.Forall2

namespace LivePreview.Pattern

-- The conditions that a pattern asserts.
def conditions : Pattern → List Assertion
  | assert condition => [condition]
  | seq first second => first.conditions ++ second.conditions
  | alt first second => first.conditions ++ second.conditions
  | rounds body _ _ _ => body.conditions
  | group _ body => body.conditions
  | _ => []

-- Spots that a search does not tell apart: the same text is ahead, the conditions asserted hold at
-- both or at neither, and they remain so a character further on.
structure Simulation (asserted : List Assertion) (Twin : Spot → Spot → Prop) : Prop where
  rest : ∀ {s t : Spot}, Twin s t → s.rest = t.rest
  next : ∀ {s t : Spot} {c : Char} {rest : List Char}, Twin s t → s.rest = c :: rest →
    Twin (s.next c rest) (t.next c rest)
  holds : ∀ {s t : Spot}, Twin s t → ∀ condition ∈ asserted, condition.holds s = condition.holds t
  order : ∀ {s t s' t' : Spot}, Twin s t → Twin s' t' →
    (s.offset < s'.offset ↔ t.offset < t'.offset)

-- Captures of the same group between such spots.
def CaptureTwin (Twin : Spot → Spot → Prop) (first second : Capture) : Prop :=
  first.index = second.index ∧ Twin first.start second.start ∧ Twin first.stop second.stop

-- Matches between such spots, with such captures.
structure MatchTwin (Twin : Spot → Spot → Prop) (first second : Match) : Prop where
  start : Twin first.start second.start
  stop : Twin first.stop second.stop
  captures : List.Forall₂ (CaptureTwin Twin) first.captures second.captures

section

variable {asserted : List Assertion} {Twin : Spot → Spot → Prop}
  {Result : Spot × Captures → Spot × Captures → Prop}

-- Two continuations that come to the same from spots that cannot be told apart.
def Agree (Twin : Spot → Spot → Prop) (Result : Spot × Captures → Spot × Captures → Prop)
    (first second : Continuation) : Prop :=
  ∀ s t found made, Twin s t → List.Forall₂ (CaptureTwin Twin) found made →
    Option.Rel Result (first s found) (second t made)

theorem rel_prefer {greedy : Bool} {more fewer more' fewer' : Option (Spot × Captures)}
    (hmore : Option.Rel Result more more') (hfewer : Option.Rel Result fewer fewer') :
    Option.Rel Result (prefer greedy (fun _ => more) fun _ => fewer)
      (prefer greedy (fun _ => more') fun _ => fewer') := by
  have hor : ∀ {a b a' b' : Option (Spot × Captures)}, Option.Rel Result a a' →
      Option.Rel Result b b' → Option.Rel Result (a.or b) (a'.or b') := by
    intro a b a' b' ha hb
    cases ha with
    | some h => exact .some h
    | none => exact hb
  unfold prefer
  split
  · exact hor hmore hfewer
  · exact hor hfewer hmore

section Rounds

variable {round : Spot → Captures → Continuation → Option (Spot × Captures)} {greedy : Bool}
  {finish finish' : Continuation}

-- A search that agrees with itself whatever agreeing continuations it is given.
def Uniform (Twin : Spot → Spot → Prop) (Result : Spot × Captures → Spot × Captures → Prop)
    (round : Spot → Captures → Continuation → Option (Spot × Captures)) : Prop :=
  ∀ finish finish' : Continuation, Agree Twin Result finish finish' →
    Agree Twin Result (round · · finish) (round · · finish')

private theorem uniform_moreRounds (hsim : Simulation asserted Twin)
    (hround : Uniform Twin Result round) (most : Nat) :
    Uniform Twin Result (moreRounds round greedy most) := by
  intro finish finish' h
  induction most with
  | zero => exact h
  | succ most ih =>
      intro s t found made hspot hfound
      refine rel_prefer (hround _ _ (fun s' t' found' made' hspot' hfound' => ?_) s t found made
        hspot hfound) (h s t found made hspot hfound)
      rw [if_congr (hsim.order hspot hspot') rfl rfl]
      split
      · exact ih s' t' found' made' hspot' hfound'
      · exact .none

private theorem uniform_optionalRounds (hround : Uniform Twin Result round) (most : Nat) :
    Uniform Twin Result (optionalRounds round greedy most) := by
  intro finish finish' h
  induction most with
  | zero => exact h
  | succ most ih =>
      intro s t found made hspot hfound
      exact rel_prefer (hround _ _ ih s t found made hspot hfound) (h s t found made hspot hfound)

private theorem uniform_exactRounds (hround : Uniform Twin Result round) (count : Nat) :
    Uniform Twin Result (exactRounds round count) := by
  intro finish finish' h
  induction count with
  | zero => exact h
  | succ count ih => exact hround _ _ ih

private theorem uniform_someRounds (hsim : Simulation asserted Twin)
    (hround : Uniform Twin Result round) : Uniform Twin Result (someRounds round greedy) := by
  intro finish finish' h s t found made hspot hfound
  refine hround _ _ (fun s' t' found' made' hspot' hfound' => ?_) s t found made hspot hfound
  rw [if_congr (hsim.order hspot hspot') rfl rfl, hsim.rest hspot']
  split
  · exact uniform_moreRounds hsim hround _ _ _ h s' t' found' made' hspot' hfound'
  · exact h s' t' found' made' hspot' hfound'

end Rounds

theorem uniform_run (hsim : Simulation asserted Twin) (pattern : Pattern)
    (hasserted : pattern.conditions ⊆ asserted) : Uniform Twin Result pattern.run := by
  induction pattern with
  | empty => exact fun _ _ h => h
  | set chars =>
      intro finish finish' h s t found made hspot hfound
      simp only [run, ← hsim.rest hspot]
      cases hrest : s.rest with
      | nil => exact .none
      | cons c rest =>
          dsimp only
          split
          · exact h _ _ _ _ (hsim.next hspot hrest) hfound
          · exact .none
  | assert condition =>
      intro finish finish' h s t found made hspot hfound
      simp only [run, hsim.holds hspot condition (hasserted (by simp [conditions]))]
      split
      · exact h s t found made hspot hfound
      · exact .none
  | seq first second ihfirst ihsecond =>
      obtain ⟨hfirst, hsecond⟩ := List.append_subset.mp hasserted
      exact fun finish finish' h => ihfirst hfirst _ _ (ihsecond hsecond _ _ h)
  | alt first second ihfirst ihsecond =>
      obtain ⟨hfirst, hsecond⟩ := List.append_subset.mp hasserted
      exact fun finish finish' h s t found made hspot hfound =>
        rel_prefer (ihfirst hfirst _ _ h s t found made hspot hfound)
          (ihsecond hsecond _ _ h s t found made hspot hfound)
  | rounds body least most greedy ih =>
      intro finish finish' h
      cases most with
      | some most =>
          exact uniform_exactRounds (ih hasserted) least _ _
            (uniform_optionalRounds (ih hasserted) _ _ _ h)
      | none =>
          cases least with
          | zero =>
              intro s t found made hspot hfound
              simp only [run, hsim.rest hspot]
              split
              · exact rel_prefer (uniform_someRounds hsim (ih hasserted) _ _ h s t found made hspot
                  hfound) (h s t found made hspot hfound)
              · exact uniform_moreRounds hsim (ih hasserted) _ _ _ h s t found made hspot hfound
          | succ least =>
              exact uniform_exactRounds (ih hasserted) least _ _
                (uniform_someRounds hsim (ih hasserted) _ _ h)
  | group index body ih =>
      intro finish finish' h s t found made hspot hfound
      exact ih hasserted _ _ (fun s' t' found' made' hspot' hfound' =>
        h s' t' (⟨index, s, s'⟩ :: found') (⟨index, t, t'⟩ :: made') hspot'
          (.cons ⟨rfl, hspot, hspot'⟩ hfound')) s t found made hspot hfound

variable {pattern : Pattern}

theorem rel_matchAt (hsim : Simulation asserted Twin) (hasserted : pattern.conditions ⊆ asserted)
    {s t : Spot} (h : Twin s t) :
    Option.Rel (MatchTwin Twin) (pattern.matchAt s) (pattern.matchAt t) := by
  have huniform : Uniform Twin (fun first second => Twin first.1 second.1 ∧
      List.Forall₂ (CaptureTwin Twin) first.2 second.2) pattern.run :=
    uniform_run hsim pattern hasserted
  have hrun := huniform _ _
    (fun s' t' found made hspot hfound => Option.Rel.some (a := (s', found)) (b := (t', made))
      ⟨hspot, hfound⟩) s t [] [] h .nil
  unfold matchAt
  dsimp only at hrun
  generalize (pattern.run s [] fun stop found => some (stop, found)) = first at hrun ⊢
  generalize (pattern.run t [] fun stop found => some (stop, found)) = second at hrun ⊢
  cases hrun with
  | some hresult => exact .some ⟨h, hresult.1, hresult.2⟩
  | none => exact .none

-- Where there is no match the search goes on behind the next character.
theorem findFrom_of_none {s : Spot} (h : pattern.matchAt s = none) :
    pattern.findFrom s =
      s.rest.head?.bind fun c => pattern.findFrom (s.next c s.rest.tail) := by
  rw [findFrom, h]
  dsimp only
  split
  · rename_i hrest
    rw [hrest]
    rfl
  · rename_i hrest
    rw [hrest]
    rfl

theorem exists_or_none {α β : Type} {related : α → β → Prop} {a : Option α} {b : Option β}
    (h : Option.Rel related a b) :
    (∃ x y, a = some x ∧ b = some y ∧ related x y) ∨ (a = none ∧ b = none) := by
  cases h with
  | some h => exact .inl ⟨_, _, rfl, rfl, h⟩
  | none => exact .inr ⟨rfl, rfl⟩

theorem rel_findFrom (hsim : Simulation asserted Twin) (hasserted : pattern.conditions ⊆ asserted)
    {s t : Spot} (h : Twin s t) :
    Option.Rel (MatchTwin Twin) (pattern.findFrom s) (pattern.findFrom t) := by
  generalize hlength : s.rest.length = length
  induction length generalizing s t with
  | zero =>
      have hrest := List.length_eq_zero_iff.mp hlength
      rcases exists_or_none (rel_matchAt hsim hasserted h) with
        ⟨found, other, hs, ht, htwin⟩ | ⟨hs, ht⟩
      · rw [findFrom_of_matchAt hs, findFrom_of_matchAt ht]
        exact .some htwin
      · rw [findFrom_of_none hs, findFrom_of_none ht, ← hsim.rest h, hrest]
        exact .none
  | succ length ih =>
      obtain ⟨c, rest, hrest⟩ := List.exists_cons_of_length_eq_add_one hlength
      rcases exists_or_none (rel_matchAt hsim hasserted h) with
        ⟨found, other, hs, ht, htwin⟩ | ⟨hs, ht⟩
      · rw [findFrom_of_matchAt hs, findFrom_of_matchAt ht]
        exact .some htwin
      · rw [findFrom_of_none hs, findFrom_of_none ht, ← hsim.rest h, hrest]
        refine ih (hsim.next h hrest) ?_
        rw [hrest, List.length_cons] at hlength
        exact Nat.succ.inj hlength

theorem forall₂_matchesFrom (hsim : Simulation asserted Twin)
    (hasserted : pattern.conditions ⊆ asserted) (most : Nat) {s t : Spot} (touching : Bool)
    (h : Twin s t) :
    List.Forall₂ (MatchTwin Twin) (pattern.matchesFrom most s touching)
      (pattern.matchesFrom most t touching) := by
  induction most generalizing s t touching with
  | zero => exact .nil
  | succ most ih =>
      unfold matchesFrom
      rcases exists_or_none (rel_findFrom hsim hasserted h) with
        ⟨found, other, hs, ht, htwin⟩ | ⟨hs, ht⟩
      · rw [hs, ht]
        dsimp only
        rw [if_congr (hsim.order h htwin.stop) rfl rfl, ← hsim.rest h]
        split
        · exact .cons htwin (ih true htwin.stop)
        · have hhere : List.Forall₂ (MatchTwin Twin) (if touching then [] else [found])
              (if touching then [] else [other]) := by
            split
            · exact .nil
            · exact .cons htwin .nil
          cases hrest : s.rest with
          | nil => exact hhere
          | cons c rest => exact List.rel_append hhere (ih false (hsim.next h hrest))
      · rw [hs, ht]
        exact .nil

end

end LivePreview.Pattern
