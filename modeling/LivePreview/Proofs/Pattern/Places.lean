import LivePreview.Proofs.Pattern.Running
import LivePreview.Proofs.Pattern.Simulation
import LivePreview.Text.Place

namespace LivePreview

namespace Text

theorem before_append (front later : List Char) :
    before (front ++ later) (byteLength front) = some front := by
  induction front with
  | nil =>
      unfold before
      rfl
  | cons c front ih =>
      have hpos := c.utf8Size_pos
      rw [List.cons_append, byteLength_cons, before, if_neg (by omega), if_pos (by omega),
        Nat.add_sub_cancel_left, ih]
      rfl

theorem byteLength_pos {text : List Char} (h : text ≠ []) : 0 < byteLength text := by
  cases text with
  | nil => exact absurd rfl h
  | cons c text => exact Nat.add_pos_left c.utf8Size_pos _

end Text

-- A spot of the text: what is behind it, ahead of it and its offset belong together.
def Spot.Within (source : List Char) (spot : Spot) : Prop :=
  ∃ front, source = front ++ spot.rest ∧ spot.offset = Text.byteLength front ∧
    spot.last = front.getLast?

namespace Pattern

theorem simulation_within (asserted : List Assertion) (source : List Char) :
    Simulation asserted fun s t => s = t ∧ s.Within source where
  rest h := h.1 ▸ rfl
  next := by
    rintro s _ c rest ⟨rfl, front, hsource, hoffset, hlast⟩ hrest
    refine ⟨rfl, front ++ [c], ?_, ?_, ?_⟩
    · rw [hsource, hrest, List.append_assoc]
      rfl
    · rw [Text.byteLength_append, ← hoffset]
      rfl
    · rw [List.getLast?_concat]
      rfl
  holds h _ _ := h.1 ▸ rfl
  order h h' := by rw [h.1, h'.1]

variable {pattern : Pattern} {source : List Char} {found : Match}

-- A match in a text and its captures lie within the text.
theorem within_of_mem_findAll (h : found ∈ pattern.findAll source) :
    found.start.Within source ∧ found.stop.Within source ∧
      ∀ capture ∈ found.captures, capture.start.Within source ∧ capture.stop.Within source := by
  have hstart : (Spot.start source).Within source := ⟨[], rfl, rfl, rfl⟩
  have hall := forall₂_matchesFrom (simulation_within pattern.conditions source)
    (List.Subset.refl pattern.conditions) (source.length + 1) false ⟨rfl, hstart⟩
  have htwin := List.forall₂_same.mp hall found h
  refine ⟨htwin.start.2, htwin.stop.2, fun capture hm => ?_⟩
  obtain ⟨_, hfrom, hto⟩ := List.forall₂_same.mp htwin.captures capture hm
  exact ⟨hfrom.2, hto.2⟩

-- A search that stands in a text has made its captures there.
structure Inside (source : List Char) (spot : Spot) (captures : Captures) : Prop where
  spot : spot.Within source
  captures : ∀ capture ∈ captures, capture.start.Within source ∧ capture.stop.Within source

open Classical in
private noncomputable def guarded (source : List Char) (finish : Continuation) : Continuation :=
  fun stop made => if Inside source stop made then finish stop made else none

private theorem agree_guarded (source : List Char) (finish : Continuation) :
    Agree (fun s t => s = t ∧ s.Within source) Eq finish (guarded source finish) := by
  rintro s t first second ⟨rfl, hspot⟩ hfound
  have hsame : first = second ∧ ∀ capture ∈ first,
      capture.start.Within source ∧ capture.stop.Within source := by
    induction hfound with
    | nil => simp
    | @cons capture other first second htwin _ ih =>
        obtain ⟨hindex, ⟨hstart, hfrom⟩, hstop, hto⟩ := htwin
        obtain ⟨rfl, hall⟩ := ih
        obtain ⟨index, start, stop⟩ := capture
        obtain ⟨index', start', stop'⟩ := other
        obtain rfl : index = index' := hindex
        obtain rfl : start = start' := hstart
        obtain rfl : stop = stop' := hstop
        exact ⟨rfl, List.forall_mem_cons.mpr ⟨⟨hfrom, hto⟩, hall⟩⟩
  obtain ⟨rfl, hall⟩ := hsame
  rw [guarded, if_pos ⟨hspot, hall⟩]
  cases finish s first with
  | none => exact .none
  | some result => exact .some rfl

-- A pattern that matches in a text reads what stands there and comes to stand in the text.
theorem run_inside {spot : Spot} {captures : Captures} {finish : Continuation}
    {result : Spot × Captures} (h : pattern.run spot captures finish = some result)
    (hinside : Inside source spot captures) :
    ∃ text stop made, spot.rest = text ++ stop.rest ∧ Reads pattern text ∧
      (∀ capture ∈ made, pattern.Captured capture) ∧ Inside source stop (made ++ captures) ∧
      finish stop (made ++ captures) = some result := by
  have hrel := uniform_run (simulation_within pattern.conditions source) pattern
    (List.Subset.refl _) finish (guarded source finish) (agree_guarded source finish) spot spot
    captures captures ⟨rfl, hinside.spot⟩ (List.forall₂_same.mpr fun capture hm =>
      ⟨rfl, ⟨rfl, (hinside.captures capture hm).1⟩, rfl, (hinside.captures capture hm).2⟩)
  dsimp only at hrel
  rw [h] at hrel
  cases hguarded : pattern.run spot captures (guarded source finish) with
  | none =>
      rw [hguarded] at hrel
      cases hrel
  | some other =>
      rw [hguarded] at hrel
      obtain rfl : result = other := by
        cases hrel
        assumption
      obtain ⟨text, stop, made, hrest, hreads, hmade, hfinish⟩ := sound_run pattern _ _ _ _ hguarded
      unfold guarded at hfinish
      split at hfinish
      · rename_i hstop
        exact ⟨text, stop, made, hrest, hreads, hmade, hstop, hfinish⟩
      · cases hfinish

theorem exists_placeAt? {spot : Spot} (h : spot.Within source) :
    ∃ place, Text.placeAt? source spot.offset = some place := by
  obtain ⟨front, hsource, hoffset, _⟩ := h
  refine ⟨Text.placeAfter front, ?_⟩
  rw [Text.placeAt?, hoffset, hsource, Text.before_append]
  rfl

section Splicing

variable {front later : List Char}

-- No match starts in the front of the text.
def Clears (pattern : Pattern) (front later : List Char) : Prop :=
  ∀ spot : Spot, spot.Within (front ++ later) → later.length < spot.rest.length →
    pattern.matchAt spot = none

-- Replacing matches does not change what stands before all of them.
theorem Clears.exists_splice (h : pattern.Clears front later) (texts : List (List Char)) :
    ∃ other, splice (.start (front ++ later)) ((pattern.findAll (front ++ later)).zip texts) =
      front ++ other := by
  cases hall : pattern.findAll (front ++ later) with
  | nil => exact ⟨later, rfl⟩
  | cons found more =>
      cases texts with
      | nil => exact ⟨later, rfl⟩
      | cons text texts =>
          have hmem : found ∈ pattern.findAll (front ++ later) := hall ▸ List.mem_cons_self
          have hwithin := (within_of_mem_findAll hmem).1
          have hle : found.start.rest.length ≤ later.length := by
            by_contra hlt
            have hnone := h found.start hwithin (Nat.lt_of_not_le hlt)
            rw [matchAt_of_mem_findAll hmem] at hnone
            cases hnone
          obtain ⟨behind, hsource, _⟩ := hwithin
          have hlength := congrArg List.length hsource
          rw [List.length_append, List.length_append] at hlength
          obtain ⟨between, rfl⟩ : front <+: behind :=
            List.prefix_of_prefix_length_le ⟨later, rfl⟩ ⟨found.start.rest, hsource.symm⟩ (by omega)
          refine ⟨between ++ text ++ splice found.stop (more.zip texts), ?_⟩
          have hbefore : (front ++ later).take ((front ++ later).length - found.start.rest.length) =
              front ++ between := by
            rw [hsource, List.length_append, Nat.add_sub_cancel, List.take_left]
          rw [List.zip_cons_cons, splice, Spot.start, hbefore]
          simp only [List.append_assoc]

-- Where a match stands at the head of a text and the next one does not follow at once, the text
-- begins with what takes the place of the first one.
theorem exists_splice_of_matchAt {source : List Char} {found : Match} {c : Char}
    (hfirst : pattern.matchAt (.start source) = some found) (hmoved : 0 < found.stop.offset)
    (hrest : found.stop.rest = c :: later)
    (hnext : ∀ spot : Spot, spot.rest = c :: later → pattern.matchAt spot = none) :
    ∃ more, pattern.findAll source = found :: more ∧
      ∀ text texts, ∃ other, splice (.start source) ((found, text) :: more.zip texts) =
        text ++ c :: other := by
  have hall : pattern.findAll source =
      found :: pattern.matchesFrom source.length found.stop true := by
    rw [findAll, matchesFrom, findFrom_of_matchAt hfirst]
    exact if_pos hmoved
  refine ⟨_, hall, fun text texts => ?_⟩
  have hstart : found.start = .start source := (sound_matchAt hfirst).1
  have hhead : splice (.start source)
      ((found, text) :: (pattern.matchesFrom source.length found.stop true).zip texts) =
      text ++ splice found.stop ((pattern.matchesFrom source.length found.stop true).zip texts) := by
    rw [splice, hstart, Nat.sub_self, List.take_zero, List.nil_append]
  rw [hhead]
  cases hmore : pattern.matchesFrom source.length found.stop true with
  | nil => exact ⟨later, by rw [List.zip_nil_left, splice, hrest]⟩
  | cons second more =>
      cases texts with
      | nil => exact ⟨later, by rw [List.zip_nil_right, splice, hrest]⟩
      | cons other texts =>
          have hmem : second ∈ pattern.matchesFrom source.length found.stop true :=
            hmore ▸ List.mem_cons_self
          obtain ⟨⟨between, hbetween⟩, hmatch⟩ := matchAt_of_mem_matchesFrom hmem
          rw [hrest] at hbetween
          cases between with
          | nil =>
              rw [hnext second.start hbetween] at hmatch
              cases hmatch
          | cons d between =>
              obtain ⟨rfl, hlater⟩ := List.cons.inj hbetween
              refine ⟨between ++ other ++ splice second.stop (more.zip texts), ?_⟩
              rw [List.zip_cons_cons, splice, hrest, ← hbetween, List.length_append,
                Nat.add_sub_cancel, List.take_left]
              simp only [List.append_assoc, List.cons_append]

-- No match starts in the text, wherever it stands as long as a line ends behind it.
def Calm (pattern : Pattern) (text : List Char) : Prop :=
  ∀ (spot : Spot) (read rest later : List Char), text = read ++ rest →
    spot.rest = rest ++ later → (∀ c ∈ later.head?, c = '\n') →
    (∀ c ∈ read.getLast?, spot.last = some c) → pattern.matchAt spot = none

theorem Calm.clears {line : List Char} (h : pattern.Calm line) (later : List Char) :
    pattern.Clears (line ++ ['\n']) later := by
  rintro spot ⟨read, hsource, _, hlast⟩ hlength
  rw [List.append_assoc, List.singleton_append] at hsource
  obtain ⟨rest, hline, hrest⟩ : ∃ rest, line = read ++ rest ∧ spot.rest = rest ++ '\n' :: later := by
    rcases List.append_eq_append_iff.mp hsource with ⟨rest, hread, hlater⟩ | ⟨rest, hline, hrest⟩
    · cases rest with
      | nil => exact ⟨[], by simpa using hread.symm, hlater.symm⟩
      | cons c rest =>
          have hshort := congrArg List.length hlater
          simp only [List.length_cons, List.length_append] at hshort
          omega
    · exact ⟨rest, hline, hrest⟩
  exact h spot read rest _ hline hrest (by simp) fun c hc => hlast.trans hc

end Splicing

end Pattern

end LivePreview
