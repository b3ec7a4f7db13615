import LivePreview.Pattern.Matching
import Mathlib.Data.List.Infix

namespace LivePreview.Pattern

-- The texts that a pattern can read, whatever stands around them: assertions read nothing.
inductive Reads : Pattern → List Char → Prop
  | empty : Reads .empty []
  | set {chars : CharClass} {c : Char} (hc : chars.has c = true) : Reads (.set chars) [c]
  | assert {condition : Assertion} : Reads (.assert condition) []
  | seq {first second : Pattern} {text later : List Char} (hfirst : Reads first text)
      (hsecond : Reads second later) : Reads (.seq first second) (text ++ later)
  | left {first second : Pattern} {text : List Char} (h : Reads first text) :
      Reads (.alt first second) text
  | right {first second : Pattern} {text : List Char} (h : Reads second text) :
      Reads (.alt first second) text
  | rounds {body : Pattern} {least : Nat} {most : Option Nat} {greedy : Bool}
      {texts : List (List Char)} (hleast : least ≤ texts.length)
      (hmost : ∀ limit ∈ most, texts.length ≤ max limit least)
      (hbody : ∀ text ∈ texts, Reads body text) :
      Reads (.rounds body least most greedy) texts.flatten
  | group {index : Nat} {body : Pattern} {text : List Char} (h : Reads body text) :
      Reads (.group index body) text

-- The groups of a pattern by their indices.
def groups : Pattern → List (Nat × Pattern)
  | seq first second => first.groups ++ second.groups
  | alt first second => first.groups ++ second.groups
  | rounds body _ _ _ => body.groups
  | group index body => (index, body) :: body.groups
  | _ => []

-- A capture of a group of the pattern: its text is one that the group reads.
def Captured (pattern : Pattern) (capture : Capture) : Prop :=
  ∃ body, (capture.index, body) ∈ pattern.groups ∧ Reads body capture.text

-- What a search has done once it succeeds: it has read a text of the given kind, made captures of
-- the given kind, and what follows has succeeded from there.
def Succeeds (kind : List Char → Prop) (captured : Capture → Prop) (spot : Spot)
    (found : Captures) (finish : Continuation) (result : Spot × Captures) : Prop :=
  ∃ text stop made, spot.rest = text ++ stop.rest ∧ kind text ∧
    (∀ capture ∈ made, captured capture) ∧ finish stop (made ++ found) = some result

-- A search that reads texts of one kind and makes captures of one kind.
def Sound (search : Spot → Captures → Continuation → Option (Spot × Captures))
    (kind : List Char → Prop) (captured : Capture → Prop) : Prop :=
  ∀ spot found finish result, search spot found finish = some result →
    Succeeds kind captured spot found finish result

section Rounds

variable {round : Spot → Captures → Continuation → Option (Spot × Captures)}
  {kind : List Char → Prop} {captured : Capture → Prop} {greedy : Bool}

-- The texts of rounds one after the other, at least and at most so many.
def Rounds (kind : List Char → Prop) (least : Nat) (most : Option Nat) (text : List Char) : Prop :=
  ∃ texts : List (List Char), text = texts.flatten ∧ least ≤ texts.length ∧
    (∀ limit ∈ most, texts.length ≤ limit) ∧ ∀ t ∈ texts, kind t

theorem prefer_eq_some {more fewer : Unit → Option (Spot × Captures)} {result : Spot × Captures}
    (h : prefer greedy more fewer = some result) :
    more () = some result ∨ fewer () = some result := by
  unfold prefer at h
  split at h
  · exact (Option.or_eq_some_iff.mp h).imp id (·.2)
  · exact ((Option.or_eq_some_iff.mp h).imp id (·.2)).symm

-- Nothing is read and what follows comes next.
theorem succeeds_none {most : Option Nat} {spot : Spot} {found : Captures} {finish : Continuation}
    {result : Spot × Captures} (h : finish spot found = some result) :
    Succeeds (Rounds kind 0 most) captured spot found finish result :=
  ⟨[], spot, [], rfl, ⟨[], rfl, Nat.le_refl _, by simp, by simp⟩, by simp, h⟩

-- One round and then some more.
theorem succeeds_round {least : Nat} (most : Option Nat) {spot : Spot} {found : Captures}
    {next finish : Continuation} {result : Spot × Captures} (hround : Sound round kind captured)
    (h : round spot found next = some result)
    (hnext : ∀ stop made, next stop made = some result →
      Succeeds (Rounds kind least most) captured stop made finish result) :
    Succeeds (Rounds kind (least + 1) (most.map (· + 1))) captured spot found finish result := by
  obtain ⟨text, stop, made, hrest, htext, hmade, hthen⟩ := hround _ _ _ _ h
  obtain ⟨later, last, more, hlater, ⟨texts, rfl, hleast, hmost, hkind⟩, hmore, hfinish⟩ :=
    hnext _ _ hthen
  refine ⟨text ++ texts.flatten, last, more ++ made, ?_, ⟨text :: texts, rfl, ?_, ?_, ?_⟩, ?_, ?_⟩
  · rw [hrest, hlater, List.append_assoc]
  · exact Nat.succ_le_succ hleast
  · intro limit hlimit
    obtain ⟨fewer, hfewer, rfl⟩ := Option.map_eq_some_iff.mp hlimit
    exact Nat.succ_le_succ (hmost fewer hfewer)
  · exact List.forall_mem_cons.mpr ⟨htext, hkind⟩
  · exact List.forall_mem_append.mpr ⟨hmore, hmade⟩
  · rw [List.append_assoc]
    exact hfinish

theorem Succeeds.fewer {least other : Nat} (hle : other ≤ least) {most : Option Nat} {spot : Spot}
    {found : Captures} {finish : Continuation} {result : Spot × Captures}
    (h : Succeeds (Rounds kind least most) captured spot found finish result) :
    Succeeds (Rounds kind other most) captured spot found finish result := by
  obtain ⟨text, stop, made, hrest, ⟨texts, htexts, hleast, hrounds⟩, hmade, hfinish⟩ := h
  exact ⟨text, stop, made, hrest, ⟨texts, htexts, Nat.le_trans hle hleast, hrounds⟩, hmade, hfinish⟩

theorem sound_moreRounds (hround : Sound round kind captured) (most : Nat) :
    Sound (moreRounds round greedy most) (Rounds kind 0 none) captured := by
  induction most with
  | zero => exact fun _ _ _ _ h => succeeds_none h
  | succ most ih =>
      intro spot found finish result h
      simp only [moreRounds] at h
      rcases prefer_eq_some h with h | h
      · refine Succeeds.fewer (Nat.zero_le 1) (succeeds_round none hround h ?_)
        intro stop made hthen
        split at hthen
        · exact ih _ _ _ _ hthen
        · cases hthen
      · exact succeeds_none h

theorem sound_optionalRounds (hround : Sound round kind captured) (most : Nat) :
    Sound (optionalRounds round greedy most) (Rounds kind 0 (some most)) captured := by
  induction most with
  | zero => exact fun _ _ _ _ h => succeeds_none h
  | succ most ih =>
      intro spot found finish result h
      simp only [optionalRounds] at h
      rcases prefer_eq_some h with h | h
      · exact Succeeds.fewer (Nat.zero_le 1)
          (succeeds_round (some most) hround h fun stop made hthen => ih _ _ _ _ hthen)
      · exact succeeds_none h

theorem sound_someRounds (hround : Sound round kind captured) :
    Sound (someRounds round greedy) (Rounds kind 1 none) captured := by
  intro spot found finish result h
  refine succeeds_round none hround h fun stop made hthen => ?_
  split at hthen
  · exact sound_moreRounds hround _ _ _ _ _ hthen
  · exact succeeds_none hthen

-- Exactly so many rounds before a search of some more rounds.
theorem succeeds_exactRounds {least : Nat} {most : Option Nat} {next finish : Continuation}
    {result : Spot × Captures} (hround : Sound round kind captured)
    (hnext : ∀ stop made, next stop made = some result →
      Succeeds (Rounds kind least most) captured stop made finish result) (count : Nat)
    (spot : Spot) (found : Captures) (h : exactRounds round count spot found next = some result) :
    Succeeds (Rounds kind (least + count) (most.map (· + count))) captured spot found finish
      result := by
  induction count generalizing spot found with
  | zero => simpa using hnext _ _ h
  | succ count ih =>
      have hmost : most.map (· + (count + 1)) = (most.map (· + count)).map (· + 1) := by
        rw [Option.map_map]
        rfl
      rw [hmost]
      exact succeeds_round _ hround h fun stop made hthen => ih _ _ hthen

end Rounds

theorem Sound.imp {search : Spot → Captures → Continuation → Option (Spot × Captures)}
    {kind other : List Char → Prop} {captured wider : Capture → Prop}
    (h : Sound search kind captured) (hkind : ∀ text, kind text → other text)
    (hcaptured : ∀ capture, captured capture → wider capture) : Sound search other wider := by
  intro spot found finish result hsearch
  obtain ⟨text, stop, made, hrest, htext, hmade, hfinish⟩ := h _ _ _ _ hsearch
  exact ⟨text, stop, made, hrest, hkind text htext, fun c hc => hcaptured c (hmade c hc), hfinish⟩

theorem capture_text {index : Nat} {start stop : Spot} {text : List Char}
    (h : start.rest = text ++ stop.rest) : (⟨index, start, stop⟩ : Capture).text = text := by
  unfold Capture.text
  rw [h, List.length_append, Nat.add_sub_cancel, List.take_left]

theorem Captured.of_subset {pattern other : Pattern} (h : pattern.groups ⊆ other.groups)
    (capture : Capture) : pattern.Captured capture → other.Captured capture :=
  fun ⟨body, hmem, hreads⟩ => ⟨body, h hmem, hreads⟩

theorem sound_rounds {body : Pattern} (hbody : Sound body.run (Reads body) body.Captured)
    (least : Nat) (most : Option Nat) (greedy : Bool) :
    Sound (rounds body least most greedy).run
      (Rounds (Reads body) least (most.map (max · least))) body.Captured := by
  intro spot found finish result h
  cases most with
  | some most =>
      have hexact := succeeds_exactRounds hbody
        (fun stop made hthen => sound_optionalRounds hbody _ _ _ _ _ hthen) least spot found h
      rwa [Nat.zero_add, Option.map_some, Nat.sub_add_eq_max] at hexact
  | none =>
      cases least with
      | zero =>
          unfold run at h
          split at h
          · rcases prefer_eq_some h with h | h
            · exact (sound_someRounds hbody _ _ _ _ h).fewer (Nat.zero_le 1)
            · exact succeeds_none h
          · exact sound_moreRounds hbody _ _ _ _ _ h
      | succ least =>
          rw [Nat.add_comm least 1]
          exact succeeds_exactRounds hbody
            (fun stop made hthen => sound_someRounds hbody _ _ _ _ hthen) least spot found h

-- Whatever a pattern matches is a text that it reads, and so is what its groups hold.
theorem sound_run (pattern : Pattern) : Sound pattern.run (Reads pattern) pattern.Captured := by
  induction pattern with
  | empty => exact fun spot _ _ _ h => ⟨[], spot, [], rfl, .empty, by simp, h⟩
  | set chars =>
      intro spot found finish result h
      unfold run at h
      split at h
      · cases h
      · rename_i c rest hrest
        split at h
        · rename_i hc
          exact ⟨[c], spot.next c rest, [], hrest, .set hc, by simp, h⟩
        · cases h
  | assert condition =>
      intro spot found finish result h
      unfold run at h
      split at h
      · exact ⟨[], spot, [], rfl, .assert, by simp, h⟩
      · cases h
  | seq first second ihfirst ihsecond =>
      intro spot found finish result h
      obtain ⟨text, stop, made, hrest, htext, hmade, hthen⟩ := ihfirst _ _ _ _ h
      obtain ⟨later, last, more, hlater, hkind, hmore, hfinish⟩ := ihsecond _ _ _ _ hthen
      refine ⟨text ++ later, last, more ++ made, ?_, .seq htext hkind, ?_, ?_⟩
      · rw [hrest, hlater, List.append_assoc]
      · refine List.forall_mem_append.mpr ⟨fun c hc => ?_, fun c hc => ?_⟩
        · exact (hmore c hc).of_subset (List.subset_append_right _ _)
        · exact (hmade c hc).of_subset (List.subset_append_left _ _)
      · rw [List.append_assoc]
        exact hfinish
  | alt first second ihfirst ihsecond =>
      intro spot found finish result h
      rcases prefer_eq_some h with h | h
      · exact ihfirst.imp (fun _ => .left) (Captured.of_subset (List.subset_append_left _ _))
          _ _ _ _ h
      · exact ihsecond.imp (fun _ => .right) (Captured.of_subset (List.subset_append_right _ _))
          _ _ _ _ h
  | rounds body least most greedy ih =>
      intro spot found finish result h
      obtain ⟨_, stop, made, hrest, ⟨texts, rfl, hleast, hmost, hbody⟩, hmade, hfinish⟩ :=
        sound_rounds ih least most greedy _ _ _ _ h
      refine ⟨texts.flatten, stop, made, hrest, .rounds hleast ?_ hbody,
        fun c hc => (hmade c hc).of_subset (List.Subset.refl _), hfinish⟩
      exact fun limit hlimit => hmost _ (Option.mem_map_of_mem _ hlimit)
  | group index body ih =>
      intro spot found finish result h
      obtain ⟨text, stop, made, hrest, htext, hmade, hthen⟩ := ih _ _ _ _ h
      refine ⟨text, stop, ⟨index, spot, stop⟩ :: made, hrest, .group htext, ?_, hthen⟩
      refine List.forall_mem_cons.mpr ⟨⟨body, List.mem_cons_self, ?_⟩, fun c hc => ?_⟩
      · rw [capture_text hrest]
        exact htext
      · exact (hmade c hc).of_subset (List.subset_cons_self _ _)

section Inversion

variable {first second body : Pattern} {chars : CharClass} {text : List Char}

theorem Reads.exists_seq (h : Reads (.seq first second) text) :
    ∃ front back, text = front ++ back ∧ Reads first front ∧ Reads second back := by
  cases h with
  | seq hfirst hsecond => exact ⟨_, _, rfl, hfirst, hsecond⟩

theorem Reads.exists_set (h : Reads (.set chars) text) : ∃ c, text = [c] ∧ chars.has c = true := by
  cases h with
  | set hc => exact ⟨_, rfl, hc⟩

theorem Reads.eq_char {c : Char} (h : Reads (char c) text) : text = [c] := by
  obtain ⟨d, rfl, hd⟩ := Reads.exists_set h
  rw [show d = c by simpa [CharClass.has] using hd]

theorem Reads.eq_assert {condition : Assertion} (h : Reads (.assert condition) text) :
    text = [] := by
  cases h
  rfl

theorem Reads.of_group {index : Nat} (h : Reads (.group index body) text) : Reads body text := by
  cases h with
  | group h => exact h

theorem Reads.eq_nil_or_of_maybe (h : Reads (maybe body) text) : text = [] ∨ Reads body text := by
  cases h with
  | @rounds _ _ _ _ texts hleast hmost hbody =>
      have hle : texts.length ≤ 1 := hmost 1 rfl
      match texts with
      | [] => exact .inl rfl
      | [only] => exact .inr (by simpa using hbody only List.mem_cons_self)
      | _ :: _ :: _ => simp at hle

private theorem flatten_of_set {texts : List (List Char)}
    (h : ∀ text ∈ texts, Reads (set chars) text) :
    texts.flatten.length = texts.length ∧ ∀ c ∈ texts.flatten, chars.has c = true := by
  induction texts with
  | nil => simp
  | cons text texts ih =>
      obtain ⟨htext, htexts⟩ := List.forall_mem_cons.mp h
      obtain ⟨c, rfl, hc⟩ := htext.exists_set
      obtain ⟨hlength, hall⟩ := ih htexts
      rw [List.flatten_cons, List.length_append, List.length_singleton, hlength, List.length_cons]
      exact ⟨Nat.add_comm _ _, List.forall_mem_cons.mpr ⟨hc, hall⟩⟩

-- Rounds over a class read so many characters of the class.
theorem Reads.of_rounds_set {least : Nat} {most : Option Nat} {greedy : Bool}
    (h : Reads (.rounds (.set chars) least most greedy) text) :
    least ≤ text.length ∧ ∀ c ∈ text, chars.has c = true := by
  cases h with
  | rounds hleast hmost hbody =>
      obtain ⟨hlength, hall⟩ := flatten_of_set hbody
      exact ⟨hlength ▸ hleast, hall⟩

theorem Reads.eq_chars {word : List Char} (h : Reads (Pattern.chars word) text) : text = word := by
  induction word generalizing text with
  | nil => cases h; rfl
  | cons c word ih =>
      cases word with
      | nil => exact Reads.eq_char h
      | cons d word =>
          obtain ⟨front, back, rfl, hfront, hback⟩ := Reads.exists_seq h
          rw [hfront.eq_char, ih hback]
          rfl

end Inversion

-- Where nothing that the pattern reads stands, there is no match.
theorem run_eq_none {pattern : Pattern} {spot : Spot}
    (h : ∀ text later, spot.rest = text ++ later → ¬Reads pattern text) (found : Captures)
    (finish : Continuation) : pattern.run spot found finish = none := by
  cases hrun : pattern.run spot found finish with
  | none => rfl
  | some result =>
      obtain ⟨text, stop, _, hrest, hreads, _⟩ := sound_run pattern _ _ _ _ hrun
      exact absurd hreads (h text stop.rest hrest)

section Match

variable {pattern : Pattern} {spot : Spot} {found : Match}

theorem sound_matchAt (h : pattern.matchAt spot = some found) :
    found.start = spot ∧ (∀ capture ∈ found.captures, pattern.Captured capture) ∧
      ∃ text, spot.rest = text ++ found.stop.rest ∧ Reads pattern text := by
  obtain ⟨⟨stop, captures⟩, hrun, rfl⟩ := Option.map_eq_some_iff.mp h
  obtain ⟨text, last, made, hrest, hreads, hmade, hfinish⟩ := sound_run pattern _ _ _ _ hrun
  obtain ⟨rfl, rfl⟩ : last = stop ∧ made ++ [] = captures := by simpa using hfinish
  exact ⟨rfl, by simpa using hmade, text, hrest, hreads⟩

theorem matchAt_eq_none (h : ∀ text later, spot.rest = text ++ later → ¬Reads pattern text) :
    pattern.matchAt spot = none := by
  rw [matchAt, run_eq_none h]
  rfl

-- The text of a group is one that the group reads, or nothing if the group took no part.
theorem group_reads (h : pattern.matchAt spot = some found) (index : Nat) :
    found.group index = [] ∨
      ∃ body, (index, body) ∈ pattern.groups ∧ Reads body (found.group index) := by
  unfold Match.group Match.group?
  cases hcapture : found.capture? index with
  | none => exact .inl rfl
  | some capture =>
      obtain ⟨body, hmem, hreads⟩ :=
        (sound_matchAt h).2.1 capture (List.mem_of_find?_eq_some hcapture)
      have hindex : capture.index = index := by simpa using List.find?_some hcapture
      exact .inr ⟨body, hindex ▸ hmem, hreads⟩

theorem matchAt_of_findFrom (h : pattern.findFrom spot = some found) :
    found.start.rest <:+ spot.rest ∧ pattern.matchAt found.start = some found := by
  induction spot using findFrom.induct pattern with
  | case1 spot other hmatch =>
      rw [findFrom, hmatch] at h
      cases h
      rw [(sound_matchAt hmatch).1]
      exact ⟨List.suffix_rfl, hmatch⟩
  | case2 spot hmatch hrest =>
      rw [findFrom, hmatch] at h
      dsimp only at h
      split at h
      · cases h
      · rename_i hcons
        rw [hrest] at hcons
        cases hcons
  | case3 spot hmatch c rest hrest ih =>
      rw [findFrom, hmatch] at h
      dsimp only at h
      split at h
      · cases h
      · rename_i hcons
        rw [hrest] at hcons
        cases hcons
        obtain ⟨hsuffix, hfound⟩ := ih h
        exact ⟨hrest ▸ hsuffix.trans (List.suffix_cons _ _), hfound⟩

-- A pattern that reads no part of a text is not found in it.
theorem find?_eq_none {source : List Char}
    (h : ∀ text, text <:+: source → ¬Reads pattern text) : pattern.find? source = none := by
  cases hfind : pattern.find? source with
  | none => rfl
  | some found =>
      obtain ⟨⟨front, hfront⟩, hmatch⟩ := matchAt_of_findFrom hfind
      obtain ⟨_, _, text, hrest, hreads⟩ := sound_matchAt hmatch
      rw [hrest, ← List.append_assoc] at hfront
      exact absurd hreads (h text ⟨front, found.stop.rest, hfront⟩)

theorem matchAt_of_mem_matchesFrom {most : Nat} {touching : Bool}
    (h : found ∈ pattern.matchesFrom most spot touching) :
    found.start.rest <:+ spot.rest ∧ pattern.matchAt found.start = some found := by
  induction most generalizing spot touching with
  | zero => cases h
  | succ most ih =>
      unfold matchesFrom at h
      cases hfirst : pattern.findFrom spot with
      | none =>
          rw [hfirst] at h
          cases h
      | some first =>
          obtain ⟨hsuffix, hmatch⟩ := matchAt_of_findFrom hfirst
          rw [hfirst] at h
          dsimp only at h
          split at h
          · rcases List.mem_cons.mp h with rfl | h
            · exact ⟨hsuffix, hmatch⟩
            · obtain ⟨hlater, hfound⟩ := ih h
              obtain ⟨_, _, text, hrest, _⟩ := sound_matchAt hmatch
              exact ⟨hlater.trans (List.IsSuffix.trans ⟨text, hrest.symm⟩ hsuffix), hfound⟩
          · have hhere : found ∈ (if touching then [] else [first]) → found = first := by
              split
              · rintro ⟨⟩
              · exact List.mem_singleton.mp
            split at h
            · exact hhere h ▸ ⟨hsuffix, hmatch⟩
            · rename_i c rest hrest
              rcases List.mem_append.mp h with h | h
              · exact hhere h ▸ ⟨hsuffix, hmatch⟩
              · obtain ⟨hlater, hfound⟩ := ih h
                exact ⟨hrest ▸ hlater.trans (List.suffix_cons _ _), hfound⟩

theorem matchAt_of_mem_findAll {text : List Char} (h : found ∈ pattern.findAll text) :
    pattern.matchAt found.start = some found :=
  (matchAt_of_mem_matchesFrom h).2

end Match

-- All texts that the pattern reads, where its form says that they are so many.
def readings? : Pattern → Option (List (List Char))
  | empty => some [[]]
  | set (.one c) => some [[c]]
  | seq first second => do
    let texts ← first.readings?
    let laters ← second.readings?
    some (texts.flatMap fun text => laters.map (text ++ ·))
  | alt first second => do some ((← first.readings?) ++ (← second.readings?))
  | rounds body least most greedy =>
    if least = 0 ∧ most = some 1 ∧ greedy then body.readings?.map ([] :: ·) else none
  | group _ body => body.readings?
  | _ => none

theorem Reads.mem_readings {pattern : Pattern} {text : List Char} (h : Reads pattern text)
    {texts : List (List Char)} (htexts : pattern.readings? = some texts) : text ∈ texts := by
  induction pattern generalizing text texts with
  | empty =>
      obtain rfl := Option.some.inj htexts
      cases h
      exact List.mem_singleton_self _
  | set chars =>
      obtain ⟨c, rfl, hc⟩ := h.exists_set
      cases chars with
      | one d =>
          obtain rfl := Option.some.inj htexts
          rw [show c = d by simpa [CharClass.has] using hc]
          exact List.mem_singleton_self _
      | _ => cases htexts
  | assert => cases htexts
  | seq first second ihfirst ihsecond =>
      obtain ⟨front, back, rfl, hfront, hback⟩ := h.exists_seq
      obtain ⟨fronts, hfronts, htexts⟩ := Option.bind_eq_some_iff.mp htexts
      obtain ⟨backs, hbacks, htexts⟩ := Option.bind_eq_some_iff.mp htexts
      obtain rfl := Option.some.inj htexts
      exact List.mem_flatMap.mpr ⟨front, ihfirst hfront hfronts,
        List.mem_map.mpr ⟨back, ihsecond hback hbacks, rfl⟩⟩
  | alt first second ihfirst ihsecond =>
      obtain ⟨firsts, hfirsts, htexts⟩ := Option.bind_eq_some_iff.mp htexts
      obtain ⟨seconds, hseconds, htexts⟩ := Option.bind_eq_some_iff.mp htexts
      obtain rfl := Option.some.inj htexts
      cases h with
      | left h => exact List.mem_append_left _ (ihfirst h hfirsts)
      | right h => exact List.mem_append_right _ (ihsecond h hseconds)
  | rounds body least most greedy ih =>
      rw [readings?, Option.ite_none_right_eq_some] at htexts
      obtain ⟨⟨rfl, rfl, rfl⟩, hmap⟩ := htexts
      obtain ⟨others, hothers, rfl⟩ := Option.map_eq_some_iff.mp hmap
      rcases Reads.eq_nil_or_of_maybe h with rfl | h
      · exact List.mem_cons_self
      · exact List.mem_cons_of_mem _ (ih h hothers)
  | group index body ih => exact ih h.of_group htexts

-- In whatever the pattern reads there is one of the words.
def holds (words : List String) : Pattern → Bool
  | seq first second =>
    (seq first second).readings?.any (fun texts =>
      texts.all fun text => words.any fun word => word.toList <:+: text) ||
        first.holds words || second.holds words
  | alt first second => first.holds words && second.holds words
  | group _ body => body.holds words
  | _ => false

theorem Reads.exists_infix {pattern : Pattern} {text : List Char} (h : Reads pattern text)
    {words : List String} (hholds : pattern.holds words = true) :
    ∃ word ∈ words, word.toList <:+: text := by
  induction h with
  | @seq first second text later hfirst hsecond ihfirst ihsecond =>
      rw [holds, Bool.or_eq_true, Bool.or_eq_true] at hholds
      rcases hholds with (hfinite | hholds) | hholds
      · obtain ⟨texts, htexts, hall⟩ := Option.any_eq_true _ _ |>.mp hfinite
        have hmem := (hfirst.seq hsecond).mem_readings htexts
        simpa using List.all_eq_true.mp hall _ hmem
      · obtain ⟨word, hword, hwithin⟩ := ihfirst hholds
        exact ⟨word, hword, hwithin.trans (List.prefix_append _ _).isInfix⟩
      · obtain ⟨word, hword, hwithin⟩ := ihsecond hholds
        exact ⟨word, hword, hwithin.trans (List.suffix_append _ _).isInfix⟩
  | left _ ih =>
      rw [holds, Bool.and_eq_true] at hholds
      exact ih hholds.1
  | right _ ih =>
      rw [holds, Bool.and_eq_true] at hholds
      exact ih hholds.2
  | group _ ih => exact ih hholds
  | _ => cases hholds

-- The pattern is not found in a text without these words.
theorem find?_eq_none_of_holds {pattern : Pattern} {words : List String}
    (hholds : pattern.holds words = true) {source : List Char}
    (h : ∀ word ∈ words, ¬word.toList <:+: source) : pattern.find? source = none :=
  find?_eq_none fun _ hpart hreads =>
    let ⟨word, hword, hwithin⟩ := hreads.exists_infix hholds
    h word hword (hwithin.trans hpart)

end LivePreview.Pattern
