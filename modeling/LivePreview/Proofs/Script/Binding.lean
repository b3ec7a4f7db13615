import LivePreview.Proofs.Linking.Names
import LivePreview.Proofs.Script.Imports
import LivePreview.Script.Tags
import Mathlib.Data.List.TakeWhile

namespace LivePreview

theorem Text.eq_append_of_before? {word text front : List Char}
    (h : Text.before? word text = some front) : text = front ++ word := by
  obtain ⟨rest, hrest, rfl⟩ := Option.map_eq_some_iff.mp h
  rw [← List.reverse_reverse text, after?_eq_some_iff.mp hrest, List.reverse_append,
    List.reverse_reverse]

theorem Text.endsWith_append (front word : List Char) :
    Text.endsWith word (front ++ word) = true := by
  have hafter : Text.after? word.reverse (front ++ word).reverse = some front.reverse :=
    Text.after?_eq_some_iff.mpr List.reverse_append
  rw [Text.endsWith, Text.before?, hafter]
  rfl

namespace Script

theorem not_inName_of_isBlank {c : Char} (h : Text.isBlank c = true) : inName c = false :=
  Text.not_of_isBlank (by decide +kernel) h

-- Nothing beside the name belongs to it, and it stands in no tag.
structure Free (front later : List Char) : Prop where
  left : front.getLast?.any inName = false
  right : later.head?.any inName = false
  noTag : front.getLast? ≠ some '<'
  noEndTag : front.getLast? = some '/' → front.dropLast.getLast? ≠ some '<'

-- The name stands at the front of the text, where `read` comes before it.
private def standsAt (name read source : List Char) : Bool :=
  (Text.after? name source).any fun later =>
    !read.getLast?.any inName && !later.head?.any inName &&
      !(read.getLast? == some '<' ||
        (read.getLast? == some '/' && read.dropLast.getLast? == some '<'))

private theorem standsAt_iff {name read source : List Char} :
    standsAt name read source = true ↔ ∃ later, source = name ++ later ∧ Free read later := by
  rw [standsAt, Option.any_eq_true]
  refine exists_congr fun later => ?_
  rw [Text.after?_eq_some_iff]
  refine and_congr_right fun _ => ?_
  simp only [Bool.and_eq_true, Bool.not_eq_true', Bool.or_eq_false_iff, Bool.and_eq_false_imp,
    beq_iff_eq, beq_eq_false_iff_ne]
  exact ⟨fun ⟨⟨hleft, hright⟩, htag, hend⟩ => ⟨hleft, hright, htag, hend⟩,
    fun ⟨hleft, hright, htag, hend⟩ => ⟨⟨hleft, hright⟩, htag, hend⟩⟩

private theorem boundIn_nil (name read : List Char) :
    boundIn name read.dropLast.getLast? read.getLast? [] = standsAt name read [] := by
  rw [boundIn, standsAt]
  cases Text.after? name [] <;> simp

private theorem boundIn_cons (name read : List Char) (c : Char) (source : List Char) :
    boundIn name read.dropLast.getLast? read.getLast? (c :: source) =
      (standsAt name read (c :: source) || boundIn name (read ++ [c]).dropLast.getLast?
        (read ++ [c]).getLast? source) := by
  rw [boundIn, standsAt, List.dropLast_concat, List.getLast?_concat]
  cases Text.after? name (c :: source) <;> simp

theorem boundIn_iff {name source : List Char} (read : List Char) :
    boundIn name read.dropLast.getLast? read.getLast? source = true ↔
      ∃ front later, source = front ++ name ++ later ∧ Free (read ++ front) later := by
  induction source generalizing read with
  | nil =>
      rw [boundIn_nil, standsAt_iff]
      constructor
      · rintro ⟨later, hsource, hfree⟩
        exact ⟨[], later, hsource, by rwa [List.append_nil]⟩
      · rintro ⟨front, later, hsource, hfree⟩
        obtain ⟨rfl, rfl, rfl⟩ := by simpa using hsource.symm
        exact ⟨[], rfl, by rwa [List.append_nil] at hfree⟩
  | cons c source ih =>
      rw [boundIn_cons, Bool.or_eq_true, standsAt_iff, ih]
      simp only [List.append_assoc, List.singleton_append]
      constructor
      · rintro (⟨later, hsource, hfree⟩ | ⟨front, later, hsource, hfree⟩)
        · exact ⟨[], later, hsource, by rwa [List.append_nil]⟩
        · exact ⟨c :: front, later, congrArg (c :: ·) hsource, hfree⟩
      · rintro ⟨front, later, hsource, hfree⟩
        cases front with
        | nil => exact .inl ⟨later, hsource, by rwa [List.append_nil] at hfree⟩
        | cons d front =>
            obtain ⟨rfl, hrest⟩ := List.cons.inj hsource
            exact .inr ⟨front, later, hrest, hfree⟩

-- A name is bound in a script where it stands by itself outside tags.
theorem isBound_iff {source name : List Char} :
    isBound source name = true ↔
      ∃ front later, source = front ++ name ++ later ∧ Free front later :=
  boundIn_iff []

end Script

namespace ImportPatch

open Script

-- A character beside which a name stands by itself.
def setsApart (c : Char) : Bool := Text.isBlank c || [',', '\x7b', '\x7d'].contains c

-- The part stands in the whole with nothing beside it but what sets it apart.
def Apart (part whole : List Char) : Prop :=
  ∃ front later, whole = front ++ part ++ later ∧ (∀ c ∈ front.getLast?, setsApart c = true) ∧
    ∀ c ∈ later.head?, setsApart c = true

namespace Apart

variable {part whole : List Char}

theorem trans {widest : List Char} (h : Apart part whole) (hwhole : Apart whole widest) :
    Apart part widest := by
  obtain ⟨front, later, rfl, hfront, hlater⟩ := h
  obtain ⟨front', later', rfl, hfront', hlater'⟩ := hwhole
  refine ⟨front' ++ front, later ++ later', by simp, fun c hc => ?_, fun c hc => ?_⟩
  · rw [List.getLast?_append] at hc
    rcases Option.or_eq_some_iff.mp hc with hc | ⟨_, hc⟩
    · exact hfront c hc
    · exact hfront' c hc
  · rw [List.head?_append] at hc
    rcases Option.or_eq_some_iff.mp hc with hc | ⟨_, hc⟩
    · exact hlater c hc
    · exact hlater' c hc

-- What is dropped from both ends sets the rest apart.
theorem of_dropped (front later : List Char) (h : whole = front ++ part ++ later)
    (hfront : ∀ c ∈ front, setsApart c = true) (hlater : ∀ c ∈ later, setsApart c = true) :
    Apart part whole :=
  ⟨front, later, h, fun c hc => hfront c (List.mem_of_getLast? hc),
    fun c hc => hlater c (List.mem_of_mem_head? hc)⟩

theorem refl (part : List Char) : Apart part part := ⟨[], [], by simp, by simp, by simp⟩

theorem dropWhile (drop : Char → Bool) (hdrop : ∀ c, drop c = true → setsApart c = true)
    (text : List Char) : Apart (text.dropWhile drop) text :=
  of_dropped (text.takeWhile drop) [] (by simp)
    (fun c hc => hdrop c (List.mem_takeWhile_imp hc)) (by simp)

theorem reverse {part whole : List Char} (h : Apart part whole) :
    Apart part.reverse whole.reverse := by
  obtain ⟨front, later, rfl, hfront, hlater⟩ := h
  refine ⟨later.reverse, front.reverse, by simp, ?_, ?_⟩
  · rwa [List.getLast?_reverse]
  · rwa [List.head?_reverse]

theorem dropTrailing {c : Char} (hc : setsApart c = true) (text : List Char) :
    Apart (ImportPatch.dropTrailing c text) text := by
  have h := (dropWhile (· == c) (fun d hd => by rwa [beq_iff_eq.mp hd])
    text.reverse).reverse
  rwa [List.reverse_reverse] at h

theorem trimEnd (text : List Char) : Apart (Text.trimEnd text) text := by
  have h := (dropWhile Text.isBlank (fun c hc => by simp [setsApart, hc])
    text.reverse).reverse
  rwa [List.reverse_reverse] at h

theorem trim (text : List Char) : Apart (Text.trim text) text :=
  (trimEnd _).trans (dropWhile Text.isBlank (fun c hc => by simp [setsApart, hc]) text)

-- The items between separators are set apart by these.
theorem of_mem_intercalate (between : List Char) (hne : between ≠ [])
    (hbetween : ∀ c ∈ between, setsApart c = true) {item : List Char} {items : List (List Char)}
    (h : item ∈ items) : Apart item (between.intercalate items) := by
  obtain ⟨c, more, rfl⟩ := List.exists_cons_of_ne_nil hne
  induction items with
  | nil => cases h
  | cons first items ih =>
      cases items with
      | nil =>
          rw [List.mem_singleton.mp h, List.intercalate_singleton]
          exact refl first
      | cons second items =>
          rw [List.intercalate_cons_cons]
          rcases List.mem_cons.mp h with rfl | h
          · refine ⟨[], (c :: more) ++ (c :: more).intercalate (second :: items), by simp, by simp, ?_⟩
            simpa using hbetween c List.mem_cons_self
          · refine (ih h).trans ⟨first ++ c :: more, [], by simp, fun d hd => ?_, by simp⟩
            rw [List.getLast?_append_of_ne_nil _ hne] at hd
            exact hbetween d (List.mem_of_getLast? hd)

theorem of_mem_splitOn {separator : Char} (hseparator : setsApart separator = true)
    {item text : List Char} (h : item ∈ text.splitOn separator) : Apart item text := by
  have hitem := of_mem_intercalate [separator] (by simp) (by simpa using hseparator) h
  rwa [List.intercalate_splitOn] at hitem

-- A name that is set apart in a script is bound there.
theorem isBound {name source : List Char} (h : Apart name source) : isBound source name = true := by
  obtain ⟨front, later, hsource, hfront, hlater⟩ := h
  have hname : ∀ c, setsApart c = true → inName c = false ∧ c ≠ '<' ∧ c ≠ '/' := by
    intro c hc
    rcases (by simpa [setsApart] using hc : Text.isBlank c = true ∨ c = ',' ∨ c = '\x7b' ∨ c = '\x7d')
      with hblank | rfl | rfl | rfl
    · refine ⟨not_inName_of_isBlank hblank, ?_, ?_⟩
      · rintro rfl
        revert hblank
        decide
      · rintro rfl
        revert hblank
        decide
    all_goals decide
  refine isBound_iff.mpr ⟨front, later, hsource, ?_, ?_, ?_, ?_⟩
  · cases hlast : front.getLast? with
    | none => rfl
    | some c => exact (hname c (hfront c hlast)).1
  · cases hhead : later.head? with
    | none => rfl
    | some c => exact (hname c (hlater c hhead)).1
  · exact fun hlast => (hname _ (hfront _ hlast)).2.1 rfl
  · exact fun hlast => absurd rfl (hname _ (hfront _ hlast)).2.2

end Apart

section Merging

variable {clause : List Char} {known : KnownName}

theorem apart_default (clause : List Char) : Apart (ClauseParts.ofClause clause).default clause := by
  unfold ClauseParts.ofClause
  split
  · exact .refl clause
  · rename_i before inner hcut
    rw [Text.eq_append_of_cut? hcut]
    refine (Apart.trim _).trans ((Apart.dropTrailing (by decide) _).trans
      ((Apart.trim _).trans ⟨[], '\x7b' :: inner, by simp, by simp, ?_⟩))
    simpa using (by decide : setsApart '\x7b' = true)

theorem apart_item {item : List Char} (h : item ∈ (ClauseParts.ofClause clause).items) :
    Apart item clause := by
  unfold ClauseParts.ofClause at h
  split at h
  · cases h
  · rename_i before inner hcut
    obtain ⟨piece, hpiece, hitem⟩ := List.mem_filterMap.mp h
    have heq : item = Text.trim piece := by
      split at hitem
      · cases hitem
      · exact (Option.some.inj hitem).symm
    rw [Text.eq_append_of_cut? hcut, heq]
    refine (Apart.trim piece).trans ((Apart.of_mem_splitOn (by decide) hpiece).trans
      ((Apart.dropTrailing (by decide) _).trans ((Apart.trimEnd inner).trans
        ⟨before ++ ['\x7b'], [], by simp, ?_, by simp⟩)))
    simpa using (by decide : setsApart '\x7b' = true)

-- A clause that has the name already binds it.
theorem apart_of_alreadyBound (h : merge clause known = .alreadyBound) :
    Apart known.name.toList clause := by
  refine Apart.trans ?_ (Apart.trim clause)
  unfold merge at h
  dsimp only at h
  split at h
  · cases h
  split at h
  · split at h
    · rename_i hdefault
      exact hdefault ▸ apart_default _
    · split at h <;> cases h
  · split at h
    · rename_i hany
      obtain ⟨item, hitem, hends⟩ := List.any_eq_true.mp hany
      refine Apart.trans ?_ (apart_item hitem)
      rcases Bool.or_eq_true_iff.mp hends with heq | hends
      · exact beq_iff_eq.mp heq ▸ .refl item
      · obtain ⟨front, hfront⟩ := Option.isSome_iff_exists.mp hends
        refine ⟨front ++ " as ".toList, [], ?_, ?_, by simp⟩
        · rw [Text.eq_append_of_before? hfront, List.append_nil, List.append_assoc]
        · rw [List.getLast?_append, show " as ".toList.getLast? = some ' ' by decide,
            Option.some_or]
          simpa using (by decide : setsApart ' ' = true)
    · cases h

theorem apart_braces {items : List (List Char)} {item : List Char} (h : item ∈ items) :
    Apart item ("\x7b ".toList ++ ", ".toList.intercalate items ++ " \x7d".toList) := by
  have hbetween : ", ".toList.all setsApart = true := by decide
  have hopen : "\x7b ".toList.getLast?.toList.all setsApart = true := by decide
  have hclose : " \x7d".toList.head?.toList.all setsApart = true := by decide
  refine (Apart.of_mem_intercalate ", ".toList (by decide) (List.all_eq_true.mp hbetween) h).trans
    ⟨"\x7b ".toList, " \x7d".toList, rfl, fun c hc => ?_, fun c hc => ?_⟩
  · exact List.all_eq_true.mp hopen c (Option.mem_toList.mpr hc)
  · exact List.all_eq_true.mp hclose c (Option.mem_toList.mpr hc)

theorem apart_render {parts : ClauseParts} {item : List Char} (h : item ∈ parts.items) :
    Apart item parts.render := by
  unfold ClauseParts.render
  dsimp only
  split
  · exact apart_braces h
  · rw [if_neg (List.ne_nil_of_mem h)]
    exact (apart_braces h).trans ⟨parts.default ++ ", ".toList, [], by simp, by
      rw [List.getLast?_append, show ", ".toList.getLast? = some ' ' by decide,
        Option.some_or]
      simpa using (by decide : setsApart ' ' = true), by simp⟩

theorem apart_render_default (parts : ClauseParts) (h : parts.default ≠ []) :
    Apart parts.default parts.render := by
  unfold ClauseParts.render
  dsimp only
  rw [if_neg h]
  split
  · exact .refl _
  · refine ⟨[], _, by rw [List.nil_append, List.append_assoc], by simp, fun c hc => ?_⟩
    obtain rfl : ',' = c := Option.some.inj hc
    decide

-- What a clause is to which the name is added.
theorem of_merged {merged : List Char} (h : merge clause known = .merged merged) :
    '*' ∉ Text.trim clause ∧
      ((known.isDefault = true ∧ (ClauseParts.ofClause (Text.trim clause)).default = [] ∧
          merged = { ClauseParts.ofClause (Text.trim clause) with
            default := known.name.toList }.render) ∨
        known.isDefault = false ∧
          merged = { ClauseParts.ofClause (Text.trim clause) with
            items := (ClauseParts.ofClause (Text.trim clause)).items ++ [known.name.toList] }.render) := by
  unfold merge at h
  dsimp only at h
  split at h
  · cases h
  rename_i hstar
  split at h
  · split at h
    · cases h
    · split at h
      · exact ⟨hstar, .inl ⟨‹_›, ‹_›, (Merge.merged.inj h).symm⟩⟩
      · cases h
  · split at h
    · cases h
    · exact ⟨hstar, .inr ⟨Bool.eq_false_iff.mpr ‹_›, (Merge.merged.inj h).symm⟩⟩

-- A clause to which the name is added binds it.
theorem apart_of_merged {merged : List Char} (hname : known.name.toList ≠ [])
    (h : merge clause known = .merged merged) : Apart known.name.toList merged := by
  obtain ⟨_, ⟨_, _, rfl⟩ | ⟨_, rfl⟩⟩ := of_merged h
  · exact apart_render_default ⟨known.name.toList, _⟩ hname
  · exact apart_render (by simp)

end Merging

-- An import statement that is found starts a line. Its clause stands between blanks, and so does the
-- word behind the clause.
theorem exists_statement_of_importFrom {module : String} {source : List Char}
    {found : Pattern.Match} {clause : Capture} (h : found ∈ (importFrom module).findAll source)
    (hclause : found.capture? 1 = some clause) :
    ∃ front gap back behind mark later, source = front ++ found.start.rest ∧
      (∀ c ∈ front.getLast?, c = '\n') ∧
      found.start.rest = "import".toList ++ (gap ++ clause.start.rest) ∧
      clause.start.rest = clause.text ++ clause.stop.rest ∧
      clause.stop.rest = back ++ ("from".toList ++ (behind ++ mark :: later)) ∧
      IsGap gap ∧ IsGap back ∧ IsGap behind ∧ (mark = '"' ∨ mark = '\'') := by
  have hmatch := Pattern.matchAt_of_mem_findAll h
  obtain ⟨front, hsource, hstart⟩ := (Pattern.within_of_mem_findAll h).1.eq_between
  rw [hstart] at hmatch
  obtain ⟨hline, _, himport⟩ := exists_import_of_matchAt hmatch
  obtain rfl := Option.some.inj (himport.capture.symm.trans hclause)
  obtain ⟨_, _, @⟨gap, back, behind, mark, mark', hgap, hback, hbehind, hmark, _⟩, hopening,
    hclosing⟩ := himport.frame
  refine ⟨front, gap, back, behind, mark, module.toList ++ mark' :: found.stop.rest, hsource, hline,
    ?_, himport.rest, ?_, hgap, hback, hbehind, ?_⟩
  · rw [hopening, List.append_assoc]
  · rw [hclosing]
    simp only [List.append_assoc, List.cons_append, List.nil_append]
  · simpa [Form.isQuote, or_comm] using hmark

-- The clause of an import statement stands between blanks.
theorem exists_of_importFrom {module : String} {source : List Char} {found : Pattern.Match}
    {clause : Capture} (h : found ∈ (importFrom module).findAll source)
    (hclause : found.capture? 1 = some clause) :
    ∃ front, source = front ++ clause.text ++ clause.stop.rest ∧
      clause.start.rest = clause.text ++ clause.stop.rest ∧
      (∀ c ∈ front.getLast?, Text.isBlank c = true) ∧
      ∀ c ∈ clause.stop.rest.head?, Text.isBlank c = true := by
  obtain ⟨front, gap, back, behind, mark, later, hsource, _, hstart, hclauseRest, hstop, hgap, hback,
    _⟩ := exists_statement_of_importFrom h hclause
  refine ⟨front ++ "import".toList ++ gap, ?_, hclauseRest, fun c hc => ?_, fun c hc => ?_⟩
  · rw [hsource, hstart, hclauseRest]
    simp only [List.append_assoc]
  · rw [List.getLast?_append_of_ne_nil _ hgap.nonempty] at hc
    exact hgap.blank c (List.mem_of_getLast? hc)
  · rw [hstop, List.head?_append_of_ne_nil _ hback.nonempty] at hc
    exact hback.blank c (List.mem_of_mem_head? hc)

-- What comes of adding a name to the import found: no edit if the import binds it already.
def Edited (source : List Char) (known : KnownName) (result : Option (List Char))
    (found : Pattern.Match) : Prop :=
  ∃ clause, found.capture? 1 = some clause ∧
    ((result = none ∧ merge clause.text known = .alreadyBound) ∨
      ∃ merged, merge clause.text known = .merged merged ∧
        result = some (source.take (source.length - clause.start.rest.length) ++ merged ++
          clause.stop.rest))

-- An import that is passed over: it binds types only, or it cannot take the name.
def Declines (known : KnownName) (found : Pattern.Match) : Prop :=
  ∀ clause ∈ found.capture? 1,
    bindsTypes clause.text = true ∨ merge clause.text known = .incompatible

theorem mergeFirst?_cons_of_declines {known : KnownName} {found : Pattern.Match}
    (h : Declines known found) (source : List Char) (founds : List Pattern.Match) :
    mergeFirst? source known (found :: founds) = mergeFirst? source known founds := by
  rw [mergeFirst?]
  split
  · rfl
  · rename_i clause hclause
    rcases h clause hclause with htypes | hmerge
    · rw [if_pos htypes]
    · rw [hmerge, ite_self]

theorem mergeFirst?_cons_of_alreadyBound {known : KnownName} {found : Pattern.Match}
    {clause : Capture} (hclause : found.capture? 1 = some clause)
    (hvalues : bindsTypes clause.text = false) (hbound : merge clause.text known = .alreadyBound)
    (source : List Char) (founds : List Pattern.Match) :
    mergeFirst? source known (found :: founds) = some none := by
  rw [mergeFirst?, hclause]
  dsimp only
  rw [if_neg (Bool.eq_false_iff.mp hvalues), hbound]

theorem mergeFirst?_append (source : List Char) (known : KnownName)
    (passed founds : List Pattern.Match) :
    mergeFirst? source known (passed ++ founds) =
      (mergeFirst? source known passed).or (mergeFirst? source known founds) := by
  induction passed with
  | nil => rfl
  | cons found passed ih =>
      rw [List.cons_append, mergeFirst?, mergeFirst?]
      split
      · exact ih
      · split
        · exact ih
        · split
          · rfl
          · rfl
          · exact ih

theorem mergeFirst?_append_of_declines {known : KnownName} {passed : List Pattern.Match}
    (h : ∀ found ∈ passed, Declines known found) (source : List Char)
    (founds : List Pattern.Match) :
    mergeFirst? source known (passed ++ founds) = mergeFirst? source known founds := by
  have hnone : mergeFirst? source known passed = none := by
    induction passed with
    | nil => rfl
    | cons found passed ih =>
        obtain ⟨hfound, hpassed⟩ := List.forall_mem_cons.mp h
        rw [mergeFirst?_cons_of_declines hfound, ih hpassed]
  rw [mergeFirst?_append, hnone, Option.none_or]

-- The imports in front of the one to which the name is added are passed over.
theorem exists_first_edited {source : List Char} {known : KnownName} {founds : List Pattern.Match}
    {result : Option (List Char)} (h : mergeFirst? source known founds = some result) :
    ∃ passed found later, founds = passed ++ found :: later ∧
      (∀ other ∈ passed, Declines known other) ∧
      (∀ clause ∈ found.capture? 1, bindsTypes clause.text = false) ∧
      Edited source known result found := by
  induction founds with
  | nil => cases h
  | cons found founds ih =>
      by_cases hdeclines : Declines known found
      · rw [mergeFirst?_cons_of_declines hdeclines] at h
        obtain ⟨passed, other, later, rfl, hpassed, hother⟩ := ih h
        exact ⟨found :: passed, other, later, rfl,
          List.forall_mem_cons.mpr ⟨hdeclines, hpassed⟩, hother⟩
      · simp only [Declines, not_forall, not_or] at hdeclines
        obtain ⟨clause, hclause, htypes, hmerge⟩ := hdeclines
        have hvalues : ∀ clause ∈ found.capture? 1, bindsTypes clause.text = false := by
          intro other hother
          obtain rfl := Option.some.inj (hclause.symm.trans hother)
          simpa using htypes
        refine ⟨[], found, founds, rfl, List.forall_mem_nil _, hvalues, clause, hclause, ?_⟩
        unfold mergeFirst? at h
        rw [hclause] at h
        dsimp only at h
        rw [if_neg htypes] at h
        split at h
        · rename_i merged hmerged
          exact .inr ⟨merged, hmerged, (Option.some.inj h).symm⟩
        · rename_i hbound
          exact .inl ⟨(Option.some.inj h).symm, hbound⟩
        · exact absurd ‹_› hmerge

theorem exists_edited {source : List Char} {known : KnownName} {founds : List Pattern.Match}
    {result : Option (List Char)} (h : mergeFirst? source known founds = some result) :
    ∃ found ∈ founds, Edited source known result found := by
  obtain ⟨passed, found, later, rfl, _, _, hedited⟩ := exists_first_edited h
  exact ⟨found, by simp, hedited⟩

-- The import of a name is not added again only where the name is bound already.
theorem isBound_of_addImport?_eq_none {source : List Char} {known : KnownName}
    (h : addImport? source known = none) : isBound source known.name.toList = true := by
  unfold addImport? at h
  split at h
  · rename_i result hmerge
    obtain ⟨found, hfound, clause, hclause, ⟨_, hbound⟩ | ⟨merged, _, rfl⟩⟩ :=
      exists_edited hmerge
    · obtain ⟨front, hsource, _, hfront, hlater⟩ := exists_of_importFrom hfound hclause
      refine ((apart_of_alreadyBound hbound).trans ⟨front, clause.stop.rest, hsource, ?_, ?_⟩).isBound
      · exact fun c hc => by simp [setsApart, hfront c hc]
      · exact fun c hc => by simp [setsApart, hlater c hc]
    · cases h
  · cases h

theorem apart_statement (known : KnownName) :
    ∃ front later, (statement known).toList = front ++ known.name.toList ++ later ∧
      front.getLast? = some ' ' ∧ later.head? = some ' ' := by
  have htext : ∀ text : String, toString text = text := fun _ => rfl
  unfold statement
  split
  · refine ⟨"import ".toList, " from '".toList ++ known.module.toList ++ "';\n".toList, ?_, ?_, ?_⟩
    · simp only [String.toList_append, htext, List.append_assoc]
    · decide
    · rfl
  · refine ⟨"import \x7b ".toList,
      " \x7d from '".toList ++ known.module.toList ++ "';\n".toList, ?_, ?_, ?_⟩
    · simp only [String.toList_append, htext, List.append_assoc]
      rfl
    · decide
    · rfl

-- A script to which the import of a name is added binds the name.
theorem isBound_of_addImport? {source fixed : List Char} {known : KnownName}
    (hname : known.name.toList ≠ []) (h : addImport? source known = some fixed) :
    isBound fixed known.name.toList = true := by
  have hapart : Apart known.name.toList fixed := by
    unfold addImport? at h
    split at h
    · rename_i result hmerge
      obtain ⟨found, hfound, clause, hclause, ⟨rfl, _⟩ | ⟨merged, hmerged, rfl⟩⟩ :=
        exists_edited hmerge
      · cases h
      · obtain ⟨front, hsource, hstart, hfront, hlater⟩ := exists_of_importFrom hfound hclause
        have hbefore : source.take (source.length - clause.start.rest.length) = front := by
          rw [hstart, hsource, List.append_assoc, List.length_append, Nat.add_sub_cancel,
            List.take_left]
        rw [hbefore] at h
        cases h
        refine (apart_of_merged hname hmerged).trans ⟨front, clause.stop.rest, rfl, ?_, ?_⟩
        · exact fun c hc => by simp [setsApart, hfront c hc]
        · exact fun c hc => by simp [setsApart, hlater c hc]
    · cases h
      obtain ⟨front, later, hstatement, hfront, hlater⟩ := apart_statement known
      rw [hstatement]
      refine ⟨directives source ++ front, later ++ source.drop (directives source).length, ?_, ?_, ?_⟩
      · simp only [List.append_assoc]
      · rw [List.getLast?_append, hfront, Option.some_or]
        simpa using (by decide : setsApart ' ' = true)
      · rw [List.head?_append, hlater, Option.some_or]
        simpa using (by decide : setsApart ' ' = true)
  exact hapart.isBound

end ImportPatch

end LivePreview
