import LivePreview.Proofs.Pattern.Inclusion
import LivePreview.Proofs.Pattern.Opening
import LivePreview.Proofs.Pattern.Taking

namespace LivePreview

namespace Spot

-- The spot between two parts of a text.
def between (read rest : List Char) : Spot := ⟨read.getLast?, rest, Text.byteLength read⟩

theorem skip_between (read front later : List Char) :
    (between read (front ++ later)).skip front.length = between (read ++ front) later := by
  rw [skip_eq rfl, between, between, List.getLast?_append, Text.byteLength_append]

theorem next_between (read : List Char) (c : Char) (rest : List Char) :
    (between read (c :: rest)).next c rest = between (read ++ [c]) rest := by
  rw [next, between, between, List.getLast?_concat, Text.byteLength_append]
  rfl

theorem Within.eq_between {source : List Char} {spot : Spot} (h : spot.Within source) :
    ∃ read, source = read ++ spot.rest ∧ spot = between read spot.rest := by
  obtain ⟨read, hsource, hoffset, hlast⟩ := h
  obtain ⟨last, rest, offset⟩ := spot
  obtain rfl : last = read.getLast? := hlast
  obtain rfl : offset = Text.byteLength read := hoffset
  exact ⟨read, hsource, rfl⟩

theorem within_between (read rest : List Char) : (between read rest).Within (read ++ rest) :=
  ⟨read, rfl, rfl, rfl⟩

end Spot

namespace Pattern

open Spot (between)

section Reaching

-- Behind the text, which stands at the spot, something comes of the search wherever something comes
-- of what follows.
def Reaches (pattern : Pattern) (spot : Spot) (text later : List Char) : Prop :=
  spot.rest = text ++ later → ∀ found finish,
    (∀ made, (finish (spot.skip text.length) made).isSome = true) →
      (pattern.run spot found finish).isSome = true

variable {first second body : Pattern} {spot : Spot} {chars : CharClass}
  {text later : List Char}

theorem Takes.reaches {groups : List (Nat × List Char)} (h : first.Takes spot text later groups) :
    first.Reaches spot text later := by
  intro hrest found finish hfinish
  obtain ⟨made, _, hrun⟩ := h hrest
  obtain ⟨result, hresult⟩ := Option.isSome_iff_exists.mp (hfinish (made ++ found))
  rw [hrun found finish result hresult]
  rfl

theorem Reaches.seq {behind : List Char} (hfirst : first.Reaches spot text (behind ++ later))
    (hsecond : second.Reaches (spot.skip text.length) behind later) :
    (Pattern.seq first second).Reaches spot (text ++ behind) later := by
  intro hrest found finish hfinish
  rw [List.append_assoc] at hrest
  refine hfirst hrest found _ fun made => hsecond (Spot.rest_skip hrest) made finish fun more => ?_
  rw [← Spot.skip_add hrest, ← List.length_append]
  exact hfinish more

theorem Reaches.group (h : body.Reaches spot text later) (index : Nat) :
    (Pattern.group index body).Reaches spot text later :=
  fun hrest found _ hfinish => h hrest found _ fun _ => hfinish _

-- However many rounds are wanted rather, the ones that lead on are tried.
private theorem isSome_moreRounds_set {greedy : Bool} (most : Nat) (hmost : text.length ≤ most)
    (htext : ∀ c ∈ text, chars.has c = true) (hrest : spot.rest = text ++ later)
    {found : Captures} {finish : Continuation}
    (hfinish : ∀ made, (finish (spot.skip text.length) made).isSome = true) :
    (moreRounds (set chars).run greedy most spot found finish).isSome = true := by
  induction text generalizing spot most with
  | nil =>
      cases most with
      | zero => exact hfinish found
      | succ most =>
          rw [moreRounds, isSome_prefer]
          exact .inr (hfinish found)
  | cons c text ih =>
      obtain ⟨hc, htext⟩ := List.forall_mem_cons.mp htext
      rw [List.length_cons, Spot.skip_cons hrest] at hfinish
      cases most with
      | zero => simp at hmost
      | succ most =>
          rw [moreRounds, isSome_prefer, run_set hrest hc, if_pos (offset_lt_next ..)]
          left
          exact ih most (Nat.le_of_succ_le_succ hmost) htext rfl hfinish

theorem reaches_starLazy (htext : ∀ c ∈ text, chars.has c = true) :
    (starLazy (set chars)).Reaches spot text later :=
  fun hrest _ _ hfinish => isSome_moreRounds_set _ (by simp [hrest]) htext hrest hfinish

theorem reaches_plus (hne : text ≠ []) (htext : ∀ c ∈ text, chars.has c = true) :
    (plus (set chars)).Reaches spot text later := by
  intro hrest found finish hfinish
  obtain ⟨c, text, rfl⟩ := List.exists_cons_of_ne_nil hne
  obtain ⟨hc, htext⟩ := List.forall_mem_cons.mp htext
  rw [List.length_cons, Spot.skip_cons hrest] at hfinish
  rw [run_plus, someRounds, run_set hrest hc, if_pos (offset_lt_next ..)]
  exact isSome_moreRounds_set _ (by simp [Spot.next]) htext rfl hfinish

theorem Reaches.isSome_matchAt (h : first.Reaches spot text later)
    (hrest : spot.rest = text ++ later) : (first.matchAt spot).isSome = true := by
  rw [matchAt, Option.isSome_map]
  exact h hrest [] _ fun _ => rfl

-- As few characters as possible: behind fewer of them what follows fails.
theorem exists_of_starLazy {found : Captures} {finish : Continuation} {result : Spot × Captures}
    (h : (starLazy (set chars)).run spot found finish = some result) :
    ∃ text later, spot.rest = text ++ later ∧ (∀ c ∈ text, chars.has c = true) ∧
      finish (spot.skip text.length) found = some result ∧
      ∀ count < text.length, finish (spot.skip count) found = none := by
  change moreRounds (set chars).run false spot.rest.length spot found finish = some result at h
  generalize spot.rest.length = most at h
  have hnow (h : finish spot found = some result) : ∃ text later, spot.rest = text ++ later ∧
      (∀ c ∈ text, chars.has c = true) ∧ finish (spot.skip text.length) found = some result ∧
      ∀ count < text.length, finish (spot.skip count) found = none :=
    ⟨[], spot.rest, rfl, List.forall_mem_nil _, h, fun _ hcount => absurd hcount (Nat.not_lt_zero _)⟩
  induction most generalizing spot with
  | zero => exact hnow h
  | succ most ih =>
      simp only [moreRounds, prefer, Bool.false_eq_true, if_false] at h
      cases hhere : finish spot found with
      | some other =>
          rw [hhere, Option.some_or] at h
          exact hnow (hhere.trans h)
      | none =>
          rw [hhere, Option.none_or, run] at h
          split at h
          · cases h
          · rename_i c rest hrest
            split at h
            · rename_i hc
              rw [if_pos (offset_lt_next ..)] at h
              obtain ⟨text, later, hnext, htext, hresult, hfewer⟩ := ih h fun hthen =>
                ⟨[], rest, rfl, List.forall_mem_nil _, hthen,
                  fun _ hcount => absurd hcount (Nat.not_lt_zero _)⟩
              have hnext' : rest = text ++ later := hnext
              refine ⟨c :: text, later, by rw [hrest, hnext']; rfl,
                List.forall_mem_cons.mpr ⟨hc, htext⟩, ?_, fun count hcount => ?_⟩
              · rw [List.length_cons, Spot.skip_cons hrest]
                exact hresult
              · cases count with
                | zero => exact hhere
                | succ count =>
                    rw [Spot.skip_cons hrest]
                    exact hfewer count (by simpa using hcount)
            · cases h

end Reaching

section Scanning

variable {pattern : Pattern} {found : Match} {read rest front later : List Char}

-- No match starts in the front of what is ahead.
def Barren (pattern : Pattern) (read front later : List Char) : Prop :=
  ∀ passed more, front = passed ++ more → more ≠ [] →
    pattern.matchAt (between (read ++ passed) (more ++ later)) = none

theorem barren_nil : pattern.Barren read [] later :=
  fun _ _ h hne => absurd (List.append_eq_nil_iff.mp h.symm).2 hne

theorem barren_cons {c : Char} : pattern.Barren read (c :: front) later ↔
    pattern.matchAt (between read (c :: (front ++ later))) = none ∧
      pattern.Barren (read ++ [c]) front later := by
  constructor
  · intro h
    refine ⟨by simpa using h [] (c :: front) rfl (by simp), fun passed more hfront hne => ?_⟩
    simpa using h (c :: passed) more (congrArg (c :: ·) hfront) hne
  · rintro ⟨hhere, h⟩ passed more hfront hne
    cases passed with
    | nil =>
        obtain rfl : c :: front = more := hfront
        simpa using hhere
    | cons d passed =>
        obtain ⟨rfl, rfl⟩ := List.cons.inj hfront
        simpa using h passed more rfl hne

-- The first match in what is ahead stands behind a part in which no match starts.
theorem findFrom_eq_some_iff : pattern.findFrom (between read rest) = some found ↔
    ∃ front later, rest = front ++ later ∧ pattern.Barren read front later ∧
      pattern.matchAt (between (read ++ front) later) = some found := by
  induction rest generalizing read with
  | nil =>
      constructor
      · intro h
        cases hmatch : pattern.matchAt (between read []) with
        | none =>
            rw [findFrom_of_none hmatch] at h
            cases h
        | some other =>
            rw [findFrom_of_matchAt hmatch] at h
            exact ⟨[], [], rfl, barren_nil, by rwa [List.append_nil, hmatch]⟩
      · rintro ⟨front, later, hrest, _, hmatch⟩
        obtain ⟨rfl, rfl⟩ := List.append_eq_nil_iff.mp hrest.symm
        rw [List.append_nil] at hmatch
        exact findFrom_of_matchAt hmatch
  | cons c rest ih =>
      cases hhere : pattern.matchAt (between read (c :: rest)) with
      | some other =>
          rw [findFrom_of_matchAt hhere]
          constructor
          · intro h
            exact ⟨[], c :: rest, rfl, barren_nil, by rwa [List.append_nil, hhere]⟩
          · rintro ⟨front, later, hrest, hbarren, hmatch⟩
            cases front with
            | nil =>
                obtain rfl : c :: rest = later := hrest
                rwa [List.append_nil, hhere] at hmatch
            | cons d front =>
                obtain ⟨rfl, rfl⟩ := List.cons.inj hrest
                have hnone := hhere.symm.trans (barren_cons.mp hbarren).1
                cases hnone
      | none =>
          have hnext : pattern.findFrom (between read (c :: rest)) =
              pattern.findFrom (between (read ++ [c]) rest) := by
            rw [findFrom_of_none hhere, ← Spot.next_between]
            rfl
          rw [hnext, ih]
          constructor
          · rintro ⟨front, later, rfl, hbarren, hmatch⟩
            refine ⟨c :: front, later, rfl, barren_cons.mpr ⟨hhere, hbarren⟩, ?_⟩
            rwa [List.append_assoc] at hmatch
          · rintro ⟨front, later, hrest, hbarren, hmatch⟩
            cases front with
            | nil =>
                obtain rfl : c :: rest = later := hrest
                rw [List.append_nil, hhere] at hmatch
                cases hmatch
            | cons d front =>
                obtain ⟨rfl, rfl⟩ := List.cons.inj hrest
                refine ⟨front, later, rfl, (barren_cons.mp hbarren).2, ?_⟩
                rwa [List.append_assoc]

-- Where a match stops.
theorem exists_stop_of_matchAt (h : pattern.matchAt (between read rest) = some found) :
    found.start = between read rest ∧ ∃ text later, rest = text ++ later ∧ Reads pattern text ∧
      found.stop = between (read ++ text) later := by
  refine ⟨(sound_matchAt h).1, ?_⟩
  obtain ⟨result, hrun, rfl⟩ := Option.map_eq_some_iff.mp h
  obtain ⟨text, stop, made, hrest, hreads, _, hinside, hfinish⟩ :=
    run_inside hrun ⟨Spot.within_between read rest, List.forall_mem_nil _⟩
  obtain rfl := Option.some.inj hfinish
  obtain ⟨behind, hsource, hstop⟩ := hinside.spot.eq_between
  have hrest' : rest = text ++ stop.rest := hrest
  rw [hrest', ← List.append_assoc] at hsource
  obtain rfl := List.append_cancel_right hsource
  exact ⟨text, stop.rest, hrest', hreads, hstop⟩

theorem ne_nil_of_matchAt {text : List Char} (hpattern : pattern.nullable = false)
    (h : pattern.matchAt (between read (text ++ later)) = some found)
    (hstop : found.stop = between (read ++ text) later) : text ≠ [] := by
  obtain ⟨_, text', later', hsplit, hreads, hstop'⟩ := exists_stop_of_matchAt h
  obtain rfl : later = later' := congrArg Spot.rest (hstop.symm.trans hstop')
  obtain rfl := List.append_cancel_right hsplit
  rintro rfl
  rw [hreads.nullable] at hpattern
  cases hpattern

-- A match starts with a character with which a text may begin that the pattern reads.
theorem firsts_has_of_matchAt {c : Char} (hpattern : pattern.nullable = false)
    (h : pattern.matchAt (between read (c :: rest)) = some found) :
    pattern.firsts.has c = true := by
  obtain ⟨_, text, later, hrest, hreads, _⟩ := exists_stop_of_matchAt h
  obtain ⟨d, text, rfl, hd⟩ := hreads.exists_first hpattern
  obtain rfl : c = d := (List.cons.inj hrest).1
  exact hd

-- The matches in what is ahead, one after another.
inductive Scans (pattern : Pattern) : List Char → List Char → List Match → Prop
  | ended {read rest : List Char} (h : pattern.findFrom (between read rest) = none) :
      Scans pattern read rest []
  | found {read front text later : List Char} {found : Match} {more : List Match}
      (hfront : pattern.Barren read front (text ++ later))
      (hmatch : pattern.matchAt (between (read ++ front) (text ++ later)) = some found)
      (hstop : found.stop = between (read ++ front ++ text) later)
      (h : Scans pattern (read ++ front ++ text) later more) :
      Scans pattern read (front ++ (text ++ later)) (found :: more)

-- A pattern that reads no empty text scans what is ahead.
theorem scans_matchesFrom (hpattern : pattern.nullable = false) {most : Nat} (touching : Bool)
    (hmost : rest.length < most) :
    Scans pattern read rest (pattern.matchesFrom most (between read rest) touching) := by
  induction most generalizing read rest touching with
  | zero => exact absurd hmost (Nat.not_lt_zero _)
  | succ most ih =>
      unfold matchesFrom
      cases hfind : pattern.findFrom (between read rest) with
      | none => exact .ended hfind
      | some found =>
          obtain ⟨front, behind, rfl, hbarren, hmatch⟩ := findFrom_eq_some_iff.mp hfind
          obtain ⟨_, text, later, rfl, _, hstop⟩ := exists_stop_of_matchAt hmatch
          have htext : text ≠ [] := ne_nil_of_matchAt hpattern hmatch hstop
          have hoffset : (between read (front ++ (text ++ later))).offset < found.stop.offset := by
            have hpos := Text.byteLength_pos htext
            rw [hstop, between, between, Text.byteLength_append, Text.byteLength_append]
            dsimp only
            omega
          have hlength : later.length < most := by
            have hpos := List.length_pos_iff.mpr htext
            simp only [List.length_append] at hmost
            omega
          dsimp only
          rw [if_pos hoffset, hstop]
          exact .found hbarren hmatch hstop (ih true hlength)

theorem scans_findAll (hpattern : pattern.nullable = false) (source : List Char) :
    Scans pattern [] source (pattern.findAll source) :=
  scans_matchesFrom hpattern false (Nat.lt_succ_self _)

theorem exists_scans (hpattern : pattern.nullable = false) (read rest : List Char) :
    ∃ founds, Scans pattern read rest founds :=
  ⟨_, scans_matchesFrom hpattern false (Nat.lt_succ_self _)⟩

theorem Scans.unique {founds others : List Match} (h : Scans pattern read rest founds)
    (h' : Scans pattern read rest others) : founds = others := by
  induction h generalizing others with
  | ended hnone =>
      cases h' with
      | ended => rfl
      | found hfront hmatch _ _ =>
          rw [findFrom_eq_some_iff.mpr ⟨_, _, rfl, hfront, hmatch⟩] at hnone
          cases hnone
  | @found read front text later found more hfront hmatch hstop _ ih =>
      have hfind := findFrom_eq_some_iff.mpr ⟨front, text ++ later, rfl, hfront, hmatch⟩
      generalize hrest : front ++ (text ++ later) = rest at h' hfind
      cases h' with
      | ended hnone =>
          rw [hfind] at hnone
          cases hnone
      | @found _ front' text' later' other more' hfront' hmatch' hstop' h' =>
          rw [findFrom_eq_some_iff.mpr ⟨front', text' ++ later', rfl, hfront', hmatch'⟩] at hfind
          obtain rfl := Option.some.inj hfind
          have hlater : later = later' := congrArg Spot.rest (hstop.symm.trans hstop')
          subst hlater
          rw [← List.append_assoc, ← List.append_assoc] at hrest
          have hread := List.append_cancel_right hrest
          rw [List.append_assoc read, ← hread, ← List.append_assoc read] at h'
          rw [ih h']

theorem Scans.findAll_eq {source : List Char} {founds : List Match}
    (hpattern : pattern.nullable = false) (h : Scans pattern [] source founds) :
    pattern.findAll source = founds :=
  (scans_findAll hpattern source).unique h

-- Each of the matches starts at a spot of what is ahead.
theorem Scans.start_of_mem {founds : List Match} (h : Scans pattern read rest founds)
    (hfound : found ∈ founds) : ∃ front later, rest = front ++ later ∧
      found.start = between (read ++ front) later := by
  induction h with
  | ended => cases hfound
  | @found read front text later first more hfront hmatch hstop _ ih =>
      rcases List.mem_cons.mp hfound with rfl | hmem
      · exact ⟨front, text ++ later, rfl, (exists_stop_of_matchAt hmatch).1⟩
      · obtain ⟨passed, behind, rfl, hstart⟩ := ih hmem
        exact ⟨front ++ text ++ passed, behind, by simp, by rw [hstart]; simp⟩

-- The matches start one behind another.
theorem Scans.pairwise_offset (hpattern : pattern.nullable = false) {founds : List Match}
    (h : Scans pattern read rest founds) :
    founds.Pairwise fun first second => first.start.offset < second.start.offset := by
  induction h with
  | ended => exact .nil
  | @found read front text later found more hfront hmatch hstop hmore ih =>
      refine List.pairwise_cons.mpr ⟨fun other hother => ?_, ih⟩
      obtain ⟨passed, behind, _, hother⟩ := hmore.start_of_mem hother
      have hpos := Text.byteLength_pos (ne_nil_of_matchAt hpattern hmatch hstop)
      rw [hother, (exists_stop_of_matchAt hmatch).1]
      simp only [between, Text.byteLength_append]
      omega

-- A scan misses no match where a text that the pattern reads holds, behind its first character,
-- none with which another one starts.
theorem Scans.mem_of_matchAt {founds : List Match} (hpattern : pattern.nullable = false)
    (hinside : ∀ c text, Reads pattern (c :: text) → ∀ d ∈ text, pattern.firsts.has d = false)
    (h : Scans pattern read rest founds) (hrest : rest = front ++ later)
    (hmatch : pattern.matchAt (between (read ++ front) later) = some found) : found ∈ founds := by
  induction h generalizing front with
  | @ended read rest hnone =>
      have hfind : (pattern.findFrom (between read rest)).isSome = true := by
        refine isSome_findFrom front.length ?_
        rw [hrest, Spot.skip_between, Matches, hmatch]
        rfl
      rw [hnone] at hfind
      cases hfind
  | @found read passed text behind first more hpassed hfirst hstop _ ih =>
      rw [← List.append_assoc] at hrest
      rcases List.append_eq_append_iff.mp hrest with ⟨beyond, rfl, rfl⟩ | ⟨within, hfront, hlater⟩
      · have hmem := ih rfl (by simpa only [List.append_assoc] using hmatch)
        exact List.mem_cons_of_mem _ hmem
      cases within with
      | nil =>
          rw [List.append_nil] at hfront
          obtain rfl : later = behind := hlater
          have hmem := ih (List.nil_append later).symm
            (by rwa [← hfront, ← List.append_assoc, ← List.append_nil (_ ++ text)] at hmatch)
          exact List.mem_cons_of_mem _ hmem
      | cons d within =>
          -- No other match starts in front of the first one or within it.
          have hsame : front = passed := by
            rcases List.append_eq_append_iff.mp hfront with ⟨extra, rfl, rfl⟩ | ⟨extra, rfl, hextra⟩
            · cases extra with
              | nil => exact List.append_nil passed
              | cons c extra =>
                  obtain ⟨_, text', behind', htext, hreads, hstop'⟩ := exists_stop_of_matchAt hfirst
                  obtain rfl : behind = behind' := congrArg Spot.rest (hstop.symm.trans hstop')
                  obtain rfl := List.append_cancel_right htext
                  have hd := hinside c _ hreads d (by simp)
                  rw [hlater] at hmatch
                  rw [firsts_has_of_matchAt hpattern hmatch] at hd
                  cases hd
            · by_contra hne
              have hnone := hpassed front extra rfl fun hnil => hne (by rw [hnil, List.append_nil])
              rw [← List.append_assoc, ← hextra, ← hlater, hmatch] at hnone
              cases hnone
          subst hsame
          obtain rfl := List.append_cancel_left hfront
          rw [hlater, hfirst] at hmatch
          obtain rfl := Option.some.inj hmatch
          exact List.mem_cons_self

-- A scan goes on behind a match.
theorem exists_scans_of_matchAt (hpattern : pattern.nullable = false)
    (h : pattern.matchAt (between read rest) = some found) :
    ∃ more, Scans pattern read rest (found :: more) := by
  obtain ⟨_, text, later, rfl, _, hstop⟩ := exists_stop_of_matchAt h
  obtain ⟨more, hmore⟩ := exists_scans hpattern (read ++ text) later
  have hfound : Scans pattern read ([] ++ (text ++ later)) (found :: more) :=
    .found barren_nil (by rwa [List.append_nil]) (by rwa [List.append_nil])
      (by rwa [List.append_nil])
  exact ⟨more, hfound⟩

theorem Barren.findFrom_eq (h : pattern.Barren read front later) :
    pattern.findFrom (between read (front ++ later)) =
      pattern.findFrom (between (read ++ front) later) := by
  induction front generalizing read with
  | nil => rw [List.nil_append, List.append_nil]
  | cons c front ih =>
      obtain ⟨hhere, hfront⟩ := barren_cons.mp h
      have hnext : pattern.findFrom (between read (c :: (front ++ later))) =
          pattern.findFrom (between (read ++ [c]) (front ++ later)) := by
        rw [findFrom_of_none hhere, ← Spot.next_between]
        rfl
      rw [List.cons_append, hnext, ih hfront, List.append_assoc, List.singleton_append]

theorem Barren.append {behind : List Char} (h : pattern.Barren read front (behind ++ later))
    (hbehind : pattern.Barren (read ++ front) behind later) :
    pattern.Barren read (front ++ behind) later := by
  induction front generalizing read with
  | nil => rwa [List.append_nil] at hbehind
  | cons c front ih =>
      obtain ⟨hhere, hfront⟩ := barren_cons.mp h
      rw [← List.append_assoc] at hhere
      refine barren_cons.mpr ⟨hhere, ih hfront ?_⟩
      rwa [List.append_assoc, List.singleton_append]

-- The matches in the front of what is ahead, where none reaches beyond the front.
inductive Passed (pattern : Pattern) (later : List Char) :
    List Char → List Char → List Match → Prop
  | ended {read front : List Char} (h : pattern.Barren read front later) :
      Passed pattern later read front []
  | found {read front text behind : List Char} {found : Match} {more : List Match}
      (hfront : pattern.Barren read front (text ++ (behind ++ later)))
      (hmatch : pattern.matchAt (between (read ++ front) (text ++ (behind ++ later))) = some found)
      (hstop : found.stop = between (read ++ front ++ text) (behind ++ later))
      (h : Passed pattern later (read ++ front ++ text) behind more) :
      Passed pattern later read (front ++ (text ++ behind)) (found :: more)

-- The scan that comes to a match has passed the matches in front of it.
theorem Scans.exists_passed {passed more : List Match}
    (h : Scans pattern read rest (passed ++ found :: more)) :
    ∃ front later, rest = front ++ later ∧ Passed pattern later read front passed ∧
      pattern.matchAt (between (read ++ front) later) = some found := by
  induction passed generalizing read rest with
  | nil =>
      obtain _ | @⟨_, front, text, later, _, _, hfront, hmatch, _, _⟩ := h
      exact ⟨front, text ++ later, rfl, .ended hfront, hmatch⟩
  | cons first passed ih =>
      obtain _ | @⟨_, front, text, _, _, _, hfront, hmatch, hstop, h⟩ := h
      obtain ⟨behind, later, rfl, hpassed, hfound⟩ := ih h
      refine ⟨front ++ (text ++ behind), later, ?_, .found hfront hmatch hstop hpassed, ?_⟩
      · simp only [List.append_assoc]
      · simpa only [List.append_assoc] using hfound

-- The scan goes on where it has passed the front.
theorem Passed.scans {passed founds : List Match} (h : Passed pattern later read front passed)
    (hfounds : Scans pattern (read ++ front) later founds) :
    Scans pattern read (front ++ later) (passed ++ founds) := by
  induction h with
  | @ended read front hbarren =>
      cases hfounds with
      | ended hnone => exact .ended (hbarren.findFrom_eq.trans hnone)
      | found hfront hmatch hstop h =>
          rw [List.append_assoc read front] at hmatch hstop h
          rw [← List.append_assoc]
          exact .found (hbarren.append hfront) hmatch hstop h
  | @found read front text behind found more hfront hmatch hstop _ ih =>
      have hmore := ih (by simpa only [List.append_assoc] using hfounds)
      simpa only [List.append_assoc, List.cons_append] using Scans.found hfront hmatch hstop hmore

end Scanning

section Barren

variable {pattern : Pattern} {read front text later : List Char}

-- No match starts where no text starts that the pattern reads.
theorem barren_of_firsts (hpattern : pattern.nullable = false)
    (h : ∀ c ∈ front, pattern.firsts.has c = false) : pattern.Barren read front later := by
  rintro passed more rfl hne
  refine matchAt_eq_none fun text behind hrest hreads => ?_
  obtain ⟨c, text, rfl, hc⟩ := hreads.exists_first hpattern
  obtain ⟨d, more, rfl⟩ := List.exists_cons_of_ne_nil hne
  obtain rfl : d = c := (List.cons.inj hrest).1
  rw [h d (by simp)] at hc
  cases hc

theorem Calm.barren (h : pattern.Calm text) (hlater : ∀ c ∈ later.head?, c = '\n') :
    pattern.Barren read text later := by
  intro passed more htext _
  refine h _ passed more later htext rfl hlater fun c hc => ?_
  rw [between, List.getLast?_append, hc]
  rfl

-- The break behind such a text starts no match either.
theorem Calm.barren_break (h : pattern.Calm []) : pattern.Barren read ['\n'] later := by
  rintro passed more hsplit hne
  refine h _ [] [] (more ++ later) rfl rfl (fun c hc => ?_) fun c hc => by cases hc
  obtain ⟨d, more, rfl⟩ := List.exists_cons_of_ne_nil hne
  have hd : d ∈ ['\n'] := hsplit ▸ by simp
  obtain rfl : d = c := Option.some.inj hc
  exact List.mem_singleton.mp hd

end Barren

-- What comes of what is ahead when each match in it is replaced, and what the matches give besides,
-- from left to right.
inductive Edits (pattern : Pattern) (edit : Match → List Char)
    (assign : Match → List (List Char)) : List Char → List Char → List Char → List (List Char) → Prop
  | ended {read rest : List Char} (h : pattern.Barren read rest []) :
      Edits pattern edit assign read rest rest []
  | found {read front text later out : List Char} {found : Match} {given : List (List Char)}
      (hfront : pattern.Barren read front (text ++ later))
      (hmatch : pattern.matchAt (between (read ++ front) (text ++ later)) = some found)
      (hstop : found.stop = between (read ++ front ++ text) later)
      (h : Edits pattern edit assign (read ++ front ++ text) later out given) :
      Edits pattern edit assign read (front ++ (text ++ later)) (front ++ (edit found ++ out))
        (assign found ++ given)

namespace Edits

variable {pattern : Pattern} {edit : Match → List Char} {assign : Match → List (List Char)}
  {read front rest later out : List Char} {given : List (List Char)}

-- A part in which no match starts stays.
theorem barren (h : pattern.Barren read front later)
    (hmore : Edits pattern edit assign (read ++ front) later out given) :
    Edits pattern edit assign read (front ++ later) (front ++ out) given := by
  cases hmore with
  | ended hlater =>
      rw [← List.append_nil later] at h
      exact .ended (h.append hlater)
  | @found _ passed _ _ _ _ _ hfront hmatch hstop hmore =>
      rw [List.append_assoc read front] at hmatch hstop hmore
      rw [← List.append_assoc front passed, ← List.append_assoc front passed]
      exact .found (h.append hfront) hmatch hstop hmore

-- What matches in front is replaced.
theorem matched {text : List Char} {found : Match}
    (hmatch : pattern.matchAt (between read (text ++ later)) = some found)
    (hstop : found.stop = between (read ++ text) later)
    (h : Edits pattern edit assign (read ++ text) later out given) :
    Edits pattern edit assign read (text ++ later) (edit found ++ out) (assign found ++ given) := by
  have hfound : Edits pattern edit assign read ([] ++ (text ++ later))
      ([] ++ (edit found ++ out)) (assign found ++ given) :=
    .found barren_nil (by rwa [List.append_nil]) (by rwa [List.append_nil])
      (by rwa [List.append_nil])
  exact hfound

theorem exists_scans (hpattern : pattern.nullable = false)
    (h : Edits pattern edit assign read rest out given) :
    ∃ founds, Scans pattern read rest founds ∧ founds.flatMap assign = given ∧
      splice (between read rest) (founds.map fun found => (found, edit found)) = out := by
  induction h with
  | @ended read rest hbarren =>
      have hend : pattern.matchAt (between (read ++ rest) []) = none :=
        matchAt_eq_none fun text more hrest hreads => by
          obtain ⟨rfl, _⟩ := List.append_eq_nil_iff.mp hrest.symm
          rw [hreads.nullable] at hpattern
          cases hpattern
      have hnone := hbarren.findFrom_eq
      rw [List.append_nil, findFrom_of_none hend] at hnone
      exact ⟨[], .ended hnone, rfl, rfl⟩
  | @found read front text later out found given hfront hmatch hstop _ ih =>
      obtain ⟨founds, hscans, hgiven, hout⟩ := ih
      refine ⟨found :: founds, .found hfront hmatch hstop hscans,
        congrArg (assign found ++ ·) hgiven, ?_⟩
      have hstart : found.start = between (read ++ front) (text ++ later) :=
        (exists_stop_of_matchAt hmatch).1
      have hbefore : (between read (front ++ (text ++ later))).rest.take
          ((between read (front ++ (text ++ later))).rest.length - found.start.rest.length) = front := by
        rw [hstart]
        dsimp only [between]
        rw [List.length_append, Nat.add_sub_cancel, List.take_left]
      rw [List.map_cons, splice, hbefore, hstop, hout, List.append_assoc]

theorem splice_findAll (hpattern : pattern.nullable = false)
    (h : Edits pattern edit assign [] rest out given) :
    splice (.start rest) ((pattern.findAll rest).map fun found => (found, edit found)) = out ∧
      (pattern.findAll rest).flatMap assign = given := by
  obtain ⟨founds, hscans, hgiven, hout⟩ := h.exists_scans hpattern
  rw [hscans.findAll_eq hpattern]
  exact ⟨hout, hgiven⟩

end Edits

section Rewriting

variable {pattern : Pattern} {edit : Match → List Char} {assign : Match → List (List Char)}

theorem Takes.exists_found {read taken later : List Char} {groups : List (Nat × List Char)}
    (h : pattern.Takes (between read (taken ++ later)) taken later groups) :
    ∃ found, pattern.matchAt (between read (taken ++ later)) = some found ∧
      found.stop = between (read ++ taken) later ∧
        ∀ index, found.group? index = groups.lookup index := by
  obtain ⟨captures, hcaptures, hmatch⟩ := h.exists_matchAt rfl
  exact ⟨_, hmatch, Spot.skip_between read _ later, fun index => by rw [Match.group?_eq, hcaptures]⟩

-- The replacements make the other text of a text on lines of its own, and give these besides.
def Rewrites (pattern : Pattern) (edit : Match → List Char) (assign : Match → List (List Char))
    (text out : List Char) (given : List (List Char)) : Prop :=
  ∀ read later out' given', (∀ c ∈ read.getLast?, c = '\n') → (∀ c ∈ later.head?, c = '\n') →
    Edits pattern edit assign (read ++ text) later out' given' →
      Edits pattern edit assign read (text ++ later) (out ++ out') (given ++ given')

theorem Calm.rewrites {text : List Char} (h : pattern.Calm text) :
    pattern.Rewrites edit assign text text [] :=
  fun _ _ _ _ _ hlater hmore => .barren (h.barren hlater) hmore

-- What matches behind the front is replaced, and nothing else.
theorem rewrites_matched {front taken text out : List Char} {given : List (List Char)}
    (hpattern : pattern.nullable = false) (hfront : ∀ c ∈ front, pattern.firsts.has c = false)
    (hmatch : ∀ read later, (∀ c ∈ read.getLast?, c = '\n') → (∀ c ∈ later.head?, c = '\n') →
      ∃ found, pattern.matchAt (between (read ++ front) (taken ++ (text ++ later))) = some found ∧
        found.stop = between (read ++ front ++ taken) (text ++ later) ∧ edit found = out ∧
          assign found = given)
    (htext : pattern.Calm text) :
    pattern.Rewrites edit assign (front ++ (taken ++ text)) (front ++ (out ++ text)) given := by
  intro read later out' given' hread hlater hmore
  obtain ⟨found, hfound, hstop, rfl, rfl⟩ := hmatch read later hread hlater
  rw [← List.append_assoc, ← List.append_assoc] at hmore
  have hbehind : Edits pattern edit assign (read ++ front ++ taken) (text ++ later) (text ++ out')
      given' := .barren (htext.barren hlater) hmore
  simp only [List.append_assoc]
  exact .barren (barren_of_firsts hpattern hfront) (.matched hfound hstop hbehind)

-- Lines are rewritten one by one.
theorem edits_intercalate {α : Type} {items : List α} {source out : α → List Char}
    {given : α → List (List Char)} {read : List Char} (hcalm : pattern.Calm [])
    (h : ∀ item ∈ items, pattern.Rewrites edit assign (source item) (out item) (given item))
    (hread : ∀ c ∈ read.getLast?, c = '\n') :
    Edits pattern edit assign read (['\n'].intercalate (items.map source))
      (['\n'].intercalate (items.map out)) (items.flatMap given) := by
  induction items generalizing read with
  | nil => exact .ended barren_nil
  | cons item items ih =>
      obtain ⟨hitem, hitems⟩ := List.forall_mem_cons.mp h
      cases items with
      | nil =>
          have hended : Edits pattern edit assign (read ++ source item) [] [] [] := .ended barren_nil
          simpa using hitem read [] [] [] hread (by simp) hended
      | cons second items =>
          have hbreak : Edits pattern edit assign (read ++ source item) _ _ _ :=
            .barren hcalm.barren_break (ih hitems (by simp))
          have hwhole := hitem read _ _ _ hread (by simp) hbreak
          simpa [List.intercalate] using hwhole

end Rewriting

end Pattern

end LivePreview
