import LivePreview.Proofs.Diagnosis.KnownNames
import LivePreview.Proofs.Pattern.Scanning
import LivePreview.Proofs.Script.Binding
import LivePreview.Proofs.Text.Infix
import Mathlib.Order.Bounds.Basic

namespace LivePreview

namespace Script

open Pattern
open Spot (between)
open Text (byteLength)

-- The name of a component: a capital letter, and letters, digits, `_` and `$` behind it.
def IsComponent (name : List Char) : Prop :=
  ∃ c more, name = c :: more ∧ c.isUpper = true ∧
    ∀ d ∈ more, d.isAlphanum = true ∨ d = '_' ∨ d = '$'

-- At the byte offset stands a tag of the component, between characters that may be beside a tag.
def TagAt (source name : List Char) (offset : Nat) : Prop :=
  ∃ front later, source = front ++ '<' :: (name ++ later) ∧ offset = byteLength front ∧
    IsComponent name ∧
    (∀ c ∈ front.getLast?, Text.isBlank c = true ∨ c ∈ "(\x7b>?:,=[;&|".toList) ∧
    ∃ c ∈ later.head?, Text.isBlank c = true ∨ c = '/' ∨ c = '>' ∨ c = '.'

-- Wherever the name stands by itself, it stands behind `<` or `</`.
def OnlyInTags (source name : List Char) : Prop :=
  ∀ front later, source = front ++ name ++ later → (∀ c ∈ front.getLast?, inName c = false) →
    (∀ c ∈ later.head?, inName c = false) → ['<'] <:+ front ∨ ['<', '/'] <:+ front

section Names

variable {name later : List Char} {c : Char}

-- The characters behind the capital letter.
private def nameChars : CharClass :=
  .union (.range 'A' 'Z') (.union (.range 'a' 'z') (.union (.range '0' '9') (.ofList ['_', '$'])))

private theorem capitals_has : (CharClass.range 'A' 'Z').has c = true ↔ c.isUpper = true := by
  have hupper : c.isUpper = true ↔ 'A' ≤ c ∧ c ≤ 'Z' := decide_eq_true_iff
  rw [hupper, CharClass.has, Bool.and_eq_true, decide_eq_true_iff, decide_eq_true_iff]

private theorem nameChars_has :
    nameChars.has c = true ↔ c.isAlphanum = true ∨ c = '_' ∨ c = '$' := by
  have halphanum : c.isAlphanum = (c.isUpper || c.isLower || c.isDigit) := rfl
  have hlower : c.isLower = (CharClass.range 'a' 'z').has c := rfl
  have hdigit : c.isDigit = (CharClass.range '0' '9').has c := rfl
  rw [halphanum, hlower, hdigit, Bool.or_eq_true, Bool.or_eq_true, ← capitals_has]
  simp [nameChars, CharClass.has, CharClass.ofList, or_assoc]

theorem IsComponent.ne_nil (h : IsComponent name) : name ≠ [] := by
  obtain ⟨c, more, rfl, _⟩ := h
  exact List.cons_ne_nil c more

theorem IsComponent.inName (h : IsComponent name) (hc : c ∈ name) : inName c = true := by
  obtain ⟨first, more, rfl, hfirst, hmore⟩ := h
  rcases List.mem_cons.mp hc with rfl | hc
  · refine inName_of_isAlphanum ?_
    have halphanum : c.isAlphanum = (c.isUpper || c.isLower || c.isDigit) := rfl
    rw [halphanum, hfirst, Bool.true_or, Bool.true_or]
  · rcases hmore c hc with halphanum | rfl | rfl
    · exact inName_of_isAlphanum halphanum
    · decide
    · decide

private theorem isComponent_of_reads
    (h : Reads (.seq (.set (.range 'A' 'Z')) (.star (.set nameChars))) name) :
    IsComponent name := by
  obtain ⟨first, more, rfl, hfirst, hmore⟩ := h.exists_seq
  obtain ⟨c, rfl, hc⟩ := hfirst.exists_set
  exact ⟨c, more, rfl, capitals_has.mp hc,
    fun d hd => nameChars_has.mp (hmore.of_rounds_set.2 d hd)⟩

-- What may follow the name of a tag goes on no name.
private theorem not_nameChars (h : Text.isBlank c = true ∨ c = '/' ∨ c = '>' ∨ c = '.') :
    nameChars.has c = false := by
  rcases h with h | rfl | rfl | rfl
  · exact Text.not_of_isBlank (by decide +kernel) h
  · decide
  · decide
  · decide

theorem takes_componentTag {spot : Spot} (h : IsComponent name)
    (hlater : ∀ c ∈ later.head?, Text.isBlank c = true ∨ c = '/' ∨ c = '>' ∨ c = '.') :
    componentTag.Takes spot ('<' :: name) later [(1, name)] := by
  obtain ⟨c, more, rfl, hc, hmore⟩ := h
  have hname : (Pattern.seq (.set (.range 'A' 'Z')) (.star (.set nameChars))).Takes
      (spot.skip 1) ([c] ++ more) later [] :=
    (takes_set (capitals_has.mpr hc)).seq (takes_star
      (fun d hd => nameChars_has.mpr (hmore d hd)) fun d hd => not_nameChars (hlater d hd))
  exact (takes_char '<').seq (hname.group 1)

end Names

section Tags

variable {source name : List Char} {found : Match} {offset : Nat}

-- What is found is `<` with the name behind it that it is found under.
theorem exists_of_componentTag (h : found ∈ componentTag.findAll source) :
    ∃ front name later, source = front ++ '<' :: (name ++ later) ∧ IsComponent name ∧
      found.start = between front ('<' :: (name ++ later)) ∧
      found.stop = between (front ++ '<' :: name) later ∧ found.group 1 = name := by
  obtain ⟨start, stop, captures⟩ := found
  have hstart : Inside source start [] := ⟨(within_of_mem_findAll h).1, by simp⟩
  obtain ⟨result, hrun, heq⟩ := Option.map_eq_some_iff.mp (matchAt_of_mem_findAll h)
  obtain ⟨-, rfl, rfl⟩ := Match.mk.inj heq
  unfold componentTag at hrun
  rw [run_seq] at hrun
  obtain ⟨mark, spot, earlier, hmark, hreads, _, hspot, hrun⟩ := run_inside hrun hstart
  rw [run_group] at hrun
  obtain ⟨name, stop, made, hname, hcomponent, _, hstop, hfinish⟩ := run_inside hrun hspot
  obtain rfl := Option.some.inj hfinish
  obtain ⟨front, hsource, hfrom⟩ := hstart.spot.eq_between
  obtain ⟨read, hsource', hto⟩ := hstop.spot.eq_between
  have hrest : start.rest = '<' :: (name ++ stop.rest) := by
    rw [hmark, hreads.eq_char, hname]
    rfl
  rw [hrest] at hsource hfrom
  have hread : read ++ stop.rest = (front ++ '<' :: name) ++ stop.rest := by
    rw [← hsource', hsource, List.append_assoc, List.cons_append]
  obtain rfl := List.append_cancel_right hread
  exact ⟨front, name, stop.rest, hsource, isComponent_of_reads hcomponent, hfrom, hto,
    capture_text hname⟩

-- Within a tag no other one starts.
theorem not_firsts_of_mem {c : Char} {text : List Char} (h : Reads componentTag (c :: text)) :
    ∀ d ∈ text, componentTag.firsts.has d = false := by
  intro d hd
  obtain ⟨mark, name, hsplit, hmark, hname⟩ := h.exists_seq
  rw [hmark.eq_char] at hsplit
  obtain ⟨-, rfl⟩ := List.cons.inj hsplit
  have hd' := (isComponent_of_reads hname.of_group).inName hd
  refine Bool.eq_false_iff.mpr fun hfirst => ?_
  change (CharClass.one '<').has d = true at hfirst
  obtain rfl : d = '<' := by simpa [CharClass.has] using hfirst
  revert hd'
  decide

private theorem precedesTag_iff {c : Char} :
    precedesTag c = true ↔ Text.isBlank c = true ∨ c ∈ "(\x7b>?:,=[;&|".toList := by
  rw [precedesTag, Bool.or_eq_true, List.contains_iff_mem]

private theorem followsTagName_iff {c : Char} :
    followsTagName c = true ↔ Text.isBlank c = true ∨ c = '/' ∨ c = '>' ∨ c = '.' := by
  simp [followsTagName, or_assoc]

-- No tag is missed, although what is found does not overlap.
theorem mem_componentTags_iff :
    (name, offset) ∈ componentTags source ↔ TagAt source name offset := by
  rw [componentTags, List.mem_filterMap]
  simp only [Option.ite_none_right_eq_some, Bool.and_eq_true, Option.all_eq_true,
    Option.any_eq_true, Option.some.injEq, Prod.mk.injEq, precedesTag_iff, followsTagName_iff]
  constructor
  · rintro ⟨found, hfound, ⟨hbefore, hbehind⟩, rfl, rfl⟩
    obtain ⟨front, name, later, hsource, hname, hstart, hstop, hgroup⟩ :=
      exists_of_componentTag hfound
    rw [hstart] at hbefore ⊢
    rw [hstop] at hbehind
    rw [hgroup]
    exact ⟨front, later, hsource, rfl, hname, hbefore, hbehind⟩
  · rintro ⟨front, later, rfl, rfl, hname, hbefore, hbehind⟩
    have hlater : ∀ c ∈ later.head?, Text.isBlank c = true ∨ c = '/' ∨ c = '>' ∨ c = '.' := by
      obtain ⟨d, hd, hfollows⟩ := hbehind
      exact fun c hc => Option.some.inj (hd.symm.trans hc) ▸ hfollows
    have htakes : componentTag.Takes (between front ('<' :: (name ++ later))) ('<' :: name) later
        [(1, name)] := takes_componentTag hname hlater
    obtain ⟨captures, hcaptures, hmatch⟩ := htakes.exists_matchAt rfl
    have hstop := Spot.skip_between front ('<' :: name) later
    refine ⟨_, (scans_findAll rfl _).mem_of_matchAt rfl (fun _ _ => not_firsts_of_mem) rfl hmatch,
      ⟨hbefore, ?_⟩, ?_, rfl⟩
    · rw [List.cons_append] at hstop
      rw [hstop]
      exact hbehind
    · rw [Match.group, Match.group?_eq, hcaptures]
      rfl

-- The tags come in the order in which they stand.
theorem pairwise_componentTags (source : List Char) :
    (componentTags source).Pairwise fun first second => first.2 < second.2 := by
  refine List.Pairwise.filterMap _ ?_ ((scans_findAll rfl source).pairwise_offset rfl)
  intro found other hlt tag htag tag' htag'
  obtain ⟨-, htag⟩ := Option.ite_none_right_eq_some.mp htag
  obtain ⟨-, htag'⟩ := Option.ite_none_right_eq_some.mp htag'
  rwa [← Option.some.inj htag, ← Option.some.inj htag']

theorem firstOfEachName_sublist (seen : List (List Char)) (tags : List (List Char × Nat)) :
    (firstOfEachName seen tags).Sublist tags := by
  induction tags generalizing seen with
  | nil => exact .slnil
  | cons tag tags ih =>
      unfold firstOfEachName
      split
      · exact (ih seen).cons tag
      · exact (ih (tag.1 :: seen)).cons_cons tag

-- Of the tags with one name, which come in the order in which they stand, the foremost is kept.
theorem mem_firstOfEachName_iff {seen : List (List Char)} {tags : List (List Char × Nat)}
    (h : tags.Pairwise fun first second => first.2 < second.2) :
    (name, offset) ∈ firstOfEachName seen tags ↔
      name ∉ seen ∧ IsLeast {place | (name, place) ∈ tags} offset := by
  induction tags generalizing seen with
  | nil => simp [firstOfEachName, IsLeast]
  | cons tag tags ih =>
      obtain ⟨htag, htags⟩ := List.pairwise_cons.mp h
      have hother (hne : name ≠ tag.1) :
          {place | (name, place) ∈ tag :: tags} = {place | (name, place) ∈ tags} := by
        refine Set.ext fun place => ?_
        exact List.mem_cons.trans (or_iff_right fun heq => hne (congrArg Prod.fst heq))
      have hleast : IsLeast {place | (tag.1, place) ∈ tag :: tags} tag.2 := by
        refine ⟨List.mem_cons_self, fun place hplace => ?_⟩
        rcases List.mem_cons.mp hplace with heq | hplace
        · exact (congrArg Prod.snd heq).ge
        · exact (htag _ hplace).le
      unfold firstOfEachName
      split
      · rename_i hseen
        rw [ih htags]
        refine and_congr_right fun hnew => ?_
        have hne : name ≠ tag.1 := fun heq => hnew (heq ▸ List.contains_iff_mem.mp hseen)
        rw [hother hne]
      · rename_i hseen
        rw [List.mem_cons, ih htags, List.mem_cons, not_or]
        by_cases hname : name = tag.1
        · subst hname
          constructor
          · rintro (heq | ⟨⟨hne, _⟩, _⟩)
            · obtain rfl : offset = tag.2 := congrArg Prod.snd heq
              exact ⟨fun hmem => hseen (List.contains_iff_mem.mpr hmem), hleast⟩
            · exact absurd rfl hne
          · rintro ⟨_, hoffset⟩
            exact .inl (Prod.ext rfl (hoffset.unique hleast))
        · rw [hother hname, or_iff_right fun heq => hname (congrArg Prod.fst heq),
            and_iff_right hname]

-- No component is named twice.
theorem nodup_firstOfEachName (seen : List (List Char)) (tags : List (List Char × Nat)) :
    ((firstOfEachName seen tags).map (·.1)).Nodup ∧
      ∀ tag ∈ firstOfEachName seen tags, tag.1 ∉ seen := by
  induction tags generalizing seen with
  | nil => exact ⟨List.nodup_nil, by simp [firstOfEachName]⟩
  | cons tag tags ih =>
      unfold firstOfEachName
      split
      · exact ih seen
      · rename_i hnew
        obtain ⟨hnodup, hfresh⟩ := ih (tag.1 :: seen)
        refine ⟨List.nodup_cons.mpr ⟨fun hmem => ?_, hnodup⟩, fun other hother => ?_⟩
        · obtain ⟨other, hother, heq⟩ := List.mem_map.mp hmem
          exact hfresh other hother (heq ▸ List.mem_cons_self)
        · rcases List.mem_cons.mp hother with rfl | hother
          · simpa using hnew
          · exact fun hseen => hfresh other hother (List.mem_cons_of_mem _ hseen)

theorem tagAt_of_undeclared {tag : List Char × Nat} (h : tag ∈ undeclaredComponents source) :
    TagAt source tag.1 tag.2 :=
  mem_componentTags_iff.mp ((firstOfEachName_sublist _ _).subset (List.mem_filter.mp h).1)

theorem TagAt.isComponent (h : TagAt source name offset) : IsComponent name := by
  obtain ⟨_, _, _, _, hname, _⟩ := h
  exact hname

theorem TagAt.exists_placeAt? (h : TagAt source name offset) :
    ∃ place, Text.placeAt? source offset = some place := by
  obtain ⟨front, later, rfl, rfl, _⟩ := h
  exact ⟨Text.placeAfter front, by rw [Text.placeAt?, Text.before_append]; rfl⟩

theorem colon_notMem_component {tag : List Char × Nat} (h : tag ∈ undeclaredComponents source) :
    ':' ∉ tag.1 := by
  intro hcolon
  have hname := (tagAt_of_undeclared h).isComponent.inName hcolon
  revert hname
  decide

end Tags

section Bound

variable {source name front later : List Char}

private theorem suffix_one_iff {text : List Char} {c : Char} :
    [c] <:+ text ↔ text.getLast? = some c := by
  rw [List.getLast?_eq_some_iff]
  exact exists_congr fun front => eq_comm

private theorem suffix_two_iff {text : List Char} {c d : Char} :
    [c, d] <:+ text ↔ text.getLast? = some d ∧ text.dropLast.getLast? = some c := by
  simp only [List.getLast?_eq_some_iff]
  constructor
  · rintro ⟨front, rfl⟩
    exact ⟨⟨front ++ [c], by simp⟩, front, by simp⟩
  · rintro ⟨⟨front, rfl⟩, before, hbefore⟩
    rw [List.dropLast_concat] at hbefore
    exact ⟨before, by simp [hbefore]⟩

private theorem any_eq_false_iff {last : Option Char} :
    last.any inName = false ↔ ∀ c ∈ last, inName c = false := by
  cases last <;> simp

theorem free_iff : Free front later ↔ (∀ c ∈ front.getLast?, inName c = false) ∧
    (∀ c ∈ later.head?, inName c = false) ∧ ¬['<'] <:+ front ∧ ¬['<', '/'] <:+ front := by
  rw [suffix_one_iff, suffix_two_iff, not_and, ← any_eq_false_iff, ← any_eq_false_iff]
  exact ⟨fun ⟨hleft, hright, htag, hend⟩ => ⟨hleft, hright, htag, hend⟩,
    fun ⟨hleft, hright, htag, hend⟩ => ⟨hleft, hright, htag, hend⟩⟩

theorem isBound_eq_false_iff : isBound source name = false ↔ OnlyInTags source name := by
  rw [← Bool.not_eq_true, isBound_iff]
  simp only [free_iff, not_exists, not_and, not_not, OnlyInTags, or_iff_not_imp_left]

-- Where the occurrences of a name are read without overlap, none is passed over that stands by
-- itself: within another occurrence, a character of the name is in front of it.
theorem exists_pieces_of_alone (hne : name ≠ []) (hname : ∀ c ∈ name, inName c = true)
    (hsource : source = front ++ (name ++ later)) (hleft : ∀ c ∈ front.getLast?, inName c = false) :
    ∃ before after, Text.pieces name source = before ++ after ∧ before ≠ [] ∧ after ≠ [] ∧
      name.intercalate before = front ∧ name.intercalate after = later := by
  fun_induction Text.pieces name source generalizing front with
  | case1 source hcut =>
      have hinfix : Text.contains name source = true :=
        Text.contains_iff.mpr ⟨front, later, by rw [hsource, List.append_assoc]⟩
      rw [Text.contains, hcut] at hinfix
      cases hinfix
  | case2 => contradiction
  | case3 source first rest hcut _ ih =>
      have hfirst : first ++ (name ++ rest) = front ++ (name ++ later) := by
        rw [← hsource, Text.eq_append_of_cut? hcut, List.append_assoc]
      obtain ⟨extra, rfl⟩ : first <+: front :=
        List.prefix_of_prefix_length_le ⟨_, hfirst⟩ ⟨_, rfl⟩ (Text.length_le_of_cut? hcut hsource)
      rw [List.append_assoc] at hfirst
      have hover := List.append_cancel_left hfirst
      rcases List.append_eq_append_iff.mp hover with ⟨beyond, rfl, rfl⟩ | ⟨within, hwithin, hlater⟩
      · -- The occurrence is behind the first one.
        have hbeyond : ∀ c ∈ beyond.getLast?, inName c = false := by
          intro c hc
          refine hleft c ?_
          rw [← List.append_assoc, List.getLast?_append, hc]
          rfl
        obtain ⟨before, after, hpieces, hbefore, hafter, rfl, hrest⟩ := ih rfl hbeyond
        refine ⟨first :: before, after, ?_, List.cons_ne_nil _ _, hafter, ?_, hrest⟩
        · rw [hpieces, List.cons_append]
        · rw [List.intercalate_cons_of_ne_nil hbefore, List.append_assoc]
      · -- It is the first one, or a character of the first one is in front of it.
        obtain rfl : extra = [] := by
          by_contra hsome
          obtain ⟨c, hc⟩ := Option.isSome_iff_exists.mp (List.getLast?_isSome.mpr hsome)
          have hnot : inName c = false :=
            hleft c (by rw [List.getLast?_append_of_ne_nil _ hsome, hc]; rfl)
          have hmem : c ∈ name := hwithin ▸ List.mem_append_left _ (List.mem_of_getLast? hc)
          rw [hname c hmem] at hnot
          cases hnot
        have hrest : rest = later := List.append_cancel_left hover
        refine ⟨[first], Text.pieces name rest, rfl, by simp, Text.pieces_ne_nil _ _, ?_, ?_⟩
        · rw [List.intercalate_singleton, List.append_nil]
        · rw [Text.intercalate_pieces, hrest]

-- A name is bound just where a search for its occurrences without overlap comes to one that stands
-- by itself outside tags.
theorem isBound_iff_pieces (h : IsComponent name) :
    isBound source name = true ↔ ∃ before after, Text.pieces name source = before ++ after ∧
      before ≠ [] ∧ after ≠ [] ∧ Free (name.intercalate before) (name.intercalate after) := by
  rw [isBound_iff]
  constructor
  · rintro ⟨front, later, hsource, hfree⟩
    obtain ⟨before, after, hpieces, hbefore, hafter, rfl, rfl⟩ := exists_pieces_of_alone h.ne_nil
      (fun _ => h.inName) (hsource.trans (List.append_assoc ..)) (free_iff.mp hfree).1
    exact ⟨before, after, hpieces, hbefore, hafter, hfree⟩
  · rintro ⟨before, after, hpieces, hbefore, hafter, hfree⟩
    refine ⟨_, _, ?_, hfree⟩
    rw [← Text.intercalate_append hbefore hafter, ← hpieces, Text.intercalate_pieces]

end Bound

-- What is reported are the first tags of the components that stand in tags only, in the order of
-- these tags and each component once.
theorem undeclaredComponents_firstTags (source : List Char) :
    ((undeclaredComponents source).map (·.2)).Pairwise (· < ·) ∧
      ((undeclaredComponents source).map (·.1)).Nodup ∧
      ∀ name offset, (name, offset) ∈ undeclaredComponents source ↔
        IsLeast {place | TagAt source name place} offset ∧ OnlyInTags source name := by
  have hsorted := pairwise_componentTags source
  have hkept : (undeclaredComponents source).Sublist (firstOfEachName [] (componentTags source)) :=
    List.filter_sublist
  refine ⟨?_, (nodup_firstOfEachName [] _).1.sublist (hkept.map _), fun name offset => ?_⟩
  · exact List.pairwise_map.mpr (hsorted.sublist (hkept.trans (firstOfEachName_sublist _ _)))
  · rw [undeclaredComponents, List.mem_filter, mem_firstOfEachName_iff hsorted, Bool.not_eq_true',
      isBound_eq_false_iff]
    simp only [mem_componentTags_iff, List.not_mem_nil, not_false_eq_true, true_and]

end Script

end LivePreview
