import LivePreview.Proofs.Linking.Grammar
import LivePreview.Proofs.Script.Merging

namespace LivePreview.ImportPatch

open Linking (Forms Item Itemized ImportClause IsName Renaming)

section Trimming

variable {clause : List Char}

-- A clause takes a name as it does without the blanks around it.
theorem merge_trim (clause : List Char) (known : KnownName) :
    merge (Text.trim clause) known = merge clause known := by
  unfold merge
  rw [Text.trim_trim]

theorem bindsTypes_iff : bindsTypes clause = true ↔ ∃ c rest,
    Text.trimStart clause = "type".toList ++ c :: rest ∧ (Text.isBlank c = true ∨ c = '\x7b') := by
  unfold bindsTypes
  cases hafter : Text.after? "type".toList (Text.trimStart clause) with
  | none =>
      refine iff_of_false (by simp) ?_
      rintro ⟨c, rest, htype, _⟩
      rw [Text.after?_eq_some_iff.mpr htype] at hafter
      cases hafter
  | some behind =>
      rw [Text.after?_eq_some_iff.mp hafter]
      cases behind with
      | nil => simp
      | cons c rest => simp

theorem bindsTypes_trim (h : ∀ c ∈ clause.getLast?, Text.isBlank c = false) :
    bindsTypes (Text.trim clause) = bindsTypes clause := by
  have hstart : Text.trimStart (Text.trim clause) = Text.trim clause :=
    Text.trimStart_eq_self fun _ => Text.not_blank_head_trim
  unfold bindsTypes
  rw [hstart, Text.trimStart_eq_trim h]

end Trimming

section Merged

variable {clause merged : List Char} {known : KnownName}

theorem ClauseParts.trim_default (clause : List Char) :
    Text.trim (ofClause (Text.trim clause)).default = (ofClause (Text.trim clause)).default := by
  unfold ofClause
  split <;> exact Text.trim_trim _

theorem dropTrailing_isPrefix (c : Char) (text : List Char) : dropTrailing c text <+: text := by
  rw [dropTrailing, ← List.reverse_suffix, List.reverse_reverse]
  exact List.dropWhile_suffix _

-- The default of a clause leads it.
theorem ClauseParts.default_isPrefix (clause : List Char) :
    (ofClause (Text.trim clause)).default <+: Text.trim clause := by
  have htrim {text : List Char} (h : text <+: Text.trim clause) : Text.trim text <+: text := by
    refine Text.trim_isPrefix fun c hc => ?_
    obtain ⟨rest, hrest⟩ := h
    have hhead : c ∈ (Text.trim clause).head? := by
      rw [← hrest, List.head?_append, hc]
      rfl
    exact Text.not_blank_head_trim hhead
  unfold ofClause
  split
  · exact List.prefix_rfl
  · rename_i before inner hcut
    have hbefore : before <+: Text.trim clause :=
      ⟨['\x7b'] ++ inner, by rw [Text.eq_append_of_cut? hcut, List.append_assoc]⟩
    have hdropped := (dropTrailing_isPrefix ',' _).trans (htrim hbefore)
    exact (htrim (hdropped.trans hbefore)).trans (hdropped.trans hbefore)

theorem ClauseParts.trim_render {parts : ClauseParts}
    (h : Text.trim parts.default = parts.default) : Text.trim parts.render = parts.render := by
  have hopen : "\x7b ".toList.head? = some '\x7b' := by decide
  have hclose : " \x7d".toList.getLast? = some '\x7d' := by decide
  have hlast (front : List Char) : ∀ c ∈ (front ++ " \x7d".toList).getLast?,
      Text.isBlank c = false := fun c hc => by
    rw [List.getLast?_append, hclose] at hc
    exact Option.some.inj hc ▸ by decide
  have hhead {c : Char} (hc : c ∈ parts.default.head?) : Text.isBlank c = false :=
    Text.not_blank_head_trim (h.symm ▸ hc)
  unfold render
  dsimp only
  split
  · refine Text.trim_eq_self (fun c hc => ?_) (hlast _)
    rw [List.append_assoc, List.head?_append, hopen] at hc
    exact Option.some.inj hc ▸ by decide
  split
  · exact h
  · rename_i hne _
    refine Text.trim_eq_self (fun c hc => ?_) fun c hc => hlast _ c (by rwa [← List.append_assoc] at hc)
    rw [List.append_assoc, List.head?_append_of_ne_nil _ hne] at hc
    exact hhead hc

theorem trim_of_merged (hname : Bare known.name.toList) (h : merge clause known = .merged merged) :
    Text.trim merged = merged := by
  obtain ⟨_, ⟨_, _, rfl⟩ | ⟨_, rfl⟩⟩ := of_merged h
  · exact ClauseParts.trim_render hname.trim_eq
  · exact ClauseParts.trim_render (ClauseParts.trim_default clause)

theorem ClauseParts.default_isPrefix_render (parts : ClauseParts) (h : parts.default ≠ []) :
    parts.default <+: parts.render := by
  unfold render
  dsimp only
  rw [if_neg h]
  split
  · exact List.prefix_rfl
  · rw [List.append_assoc]
    exact List.prefix_append _ _

-- A clause that takes a name binds values after that if it did before.
theorem bindsTypes_of_merged (hknown : known ∈ KnownName.table)
    (hvalues : bindsTypes (Text.trim clause) = false) (h : merge clause known = .merged merged) :
    bindsTypes merged = false := by
  have hname := bare_of_known hknown
  have hmerged := trim_of_merged hname h
  refine Bool.eq_false_iff.mpr fun htypes => ?_
  obtain ⟨c, rest, htype, hc⟩ := bindsTypes_iff.mp htypes
  rw [Text.trimStart_eq_self fun d hd => Text.not_blank_head_trim (hmerged.symm ▸ hd)] at htype
  obtain ⟨_, ⟨hkind, _, rfl⟩ | ⟨_, rfl⟩⟩ := of_merged h
  · have hfirst : ∀ known ∈ KnownName.table, known.isDefault = true →
        known.name.toList.head? ≠ some 't' := by decide
    refine hfirst known hknown hkind ?_
    obtain ⟨more, hmore⟩ := ClauseParts.default_isPrefix_render
      { ClauseParts.ofClause (Text.trim clause) with default := known.name.toList } hname.nonempty
    rw [htype] at hmore
    rw [← List.head?_append_of_ne_nil _ hname.nonempty, hmore]
    rfl
  · have hprefix := ClauseParts.default_isPrefix clause
    generalize ClauseParts.ofClause (Text.trim clause) = parts at hprefix htype
    rw [ClauseParts.render_of_items (by simp), ClauseParts.lead] at htype
    dsimp only at htype
    split at htype
    · have hfirst : '\x7b' = 't' := (List.cons.inj htype).1
      exact absurd hfirst (by decide)
    · -- The word and the character behind it stand before the comma, in the clause that was there.
      rw [List.append_assoc, List.cons_append] at htype
      rcases Script.Form.exists_of_append_cons_eq htype.symm with ⟨more, hword, hcomma⟩ |
        ⟨more, hdefault, _⟩
      · cases more with
        | nil =>
            obtain rfl : ',' = c := (List.cons.inj hcomma).1
            exact absurd hc (by decide)
        | cons d more =>
            obtain rfl : ',' = d := (List.cons.inj hcomma).1
            have hmem : ',' ∈ "type".toList := hword ▸ by simp
            exact absurd hmem (by decide)
      · obtain ⟨behind, hbehind⟩ := hprefix
        refine Bool.eq_false_iff.mp hvalues (bindsTypes_iff.mpr ⟨c, more ++ behind, ?_, hc⟩)
        rw [Text.trimStart_eq_self fun _ => Text.not_blank_head_trim, ← hbehind, hdefault,
          List.append_assoc, List.cons_append]

end Merged

section Binding

variable {clause merged : List Char} {known : KnownName} {spelled : Linking.Clause}

-- The parts of a clause that is spelled as a default and items.
def partsOf (spelled : Linking.Clause) : ClauseParts :=
  ⟨spelled.default?.getD [], spelled.items.map Item.text⟩

-- A clause without the module as a whole.
structure Listed (spelled : Linking.Clause) : Prop where
  default : ∀ name ∈ spelled.default?, IsName name
  items : ∀ item ∈ spelled.items, item.WellFormed
  whole : spelled.whole? = none

theorem ofClause_itemized {front text : List Char} {items : List Item} (hfront : '\x7b' ∉ front)
    (h : Itemized items text) :
    ClauseParts.ofClause (front ++ '\x7b' :: (text ++ ['\x7d'])) =
      ⟨Text.trim (dropTrailing ',' (Text.trim front)), items.map Item.text⟩ := by
  have hbrace : '\x7d' ∉ text := fun hmem => by
    rcases h.chars hmem with hname | hblank | hcomma
    · exact absurd hname (by decide)
    · exact absurd hblank (by decide)
    · cases hcomma
  have htext : dropTrailing '\x7d' (Text.trimEnd (text ++ ['\x7d'])) = text := by
    rw [Text.trimEnd_concat (by decide), dropTrailing_concat_self, dropTrailing_of_not_mem hbrace]
  rw [ClauseParts.ofClause, Text.cut?_char _ hfront]
  dsimp only
  rw [htext, ← h.pieces]
  refine congrArg (ClauseParts.mk _) ?_
  generalize text.splitOn ',' = pieces
  induction pieces with
  | nil => rfl
  | cons piece pieces ih =>
      rw [List.filterMap_cons, ih, List.map_cons]
      cases Text.trim piece with
      | nil => rfl
      | cons c rest => exact (List.filter_cons_of_pos (by simp)).symm

-- What stands before the braces is a name and a comma.
theorem trim_lead {name gap gap' : List Char} (hname : IsName name)
    (hgap : ∀ c ∈ gap, Text.isBlank c = true) (hgap' : ∀ c ∈ gap', Text.isBlank c = true) :
    Text.trim (dropTrailing ',' (Text.trim (name ++ (gap ++ ',' :: gap')))) = name := by
  have hsplit : name ++ (gap ++ ',' :: gap') = (name ++ gap ++ [',']) ++ gap' := by simp
  have htrim : Text.trim ((name ++ gap ++ [',']) ++ gap') = name ++ gap ++ [','] := by
    refine Text.trim_append_blanks hgap' (fun c hc => ?_) fun c hc => ?_
    · rw [List.append_assoc, List.head?_append_of_ne_nil _ hname.nonempty] at hc
      exact hname.not_blank_head c hc
    · rw [List.getLast?_concat] at hc
      exact Option.some.inj hc ▸ by decide
  have hcomma : ',' ∉ name ++ gap := by
    have hother : ',' ∉ name := hname.not_mem (by decide)
    simp [hother, Linking.comma_not_blank hgap]
  rw [hsplit, htrim, dropTrailing_concat_self, dropTrailing_of_not_mem hcomma]
  exact Text.trim_append_blanks hgap hname.not_blank_head hname.not_blank_last

theorem listed_of_spelled (h : spelled.Spelled clause) (hstar : '*' ∉ Text.trim clause) :
    Listed spelled ∧ ClauseParts.ofClause (Text.trim clause) = partsOf spelled := by
  have hcore := h.core_trim
  have hnothing : ClauseParts.ofClause [] = ⟨[], []⟩ := by decide
  have hnone : ∀ name ∈ (none : Option (List Char)), IsName name :=
    fun name hname => absurd hname (Option.not_mem_none name)
  generalize Text.trim clause = core at hcore hstar
  cases hcore with
  | nothing => exact ⟨⟨hnone, List.forall_mem_nil _, rfl⟩, hnothing⟩
  | @default name hname =>
      refine ⟨⟨fun other hother => Option.some.inj hother ▸ hname, List.forall_mem_nil _, rfl⟩, ?_⟩
      rw [ClauseParts.ofClause, Text.cut?_char_eq_none (hname.not_mem (by decide))]
      rfl
  | forms hforms =>
      cases hforms with
      | whole _ _ _ => exact absurd List.mem_cons_self hstar
      | list hlist =>
          exact ⟨⟨hnone, hlist.wellFormed, rfl⟩, ofClause_itemized List.not_mem_nil hlist⟩
  | @both name gap gap' text forms hname hgap hgap' hforms =>
      cases hforms with
      | whole _ _ _ => exact absurd (by simp) hstar
      | @list items text hlist =>
          refine ⟨⟨fun other hother => Option.some.inj hother ▸ hname, hlist.wellFormed, rfl⟩, ?_⟩
          have hblank {gap : List Char} (hgap : ∀ c ∈ gap, Text.isBlank c = true) : '\x7b' ∉ gap :=
            fun hmem => absurd (hgap _ hmem) (by decide)
          have hfront : '\x7b' ∉ name ++ (gap ++ ',' :: gap') := by
            have hbrace : '\x7b' ∉ name := hname.not_mem (by decide)
            simp [hbrace, hblank hgap, hblank hgap']
          have hassoc : name ++ (gap ++ ',' :: (gap' ++ '\x7b' :: (text ++ ['\x7d']))) =
              name ++ (gap ++ ',' :: gap') ++ '\x7b' :: (text ++ ['\x7d']) := by
            simp only [List.append_assoc, List.cons_append]
          rw [hassoc, ofClause_itemized hfront hlist, trim_lead hname hgap hgap']
          rfl

-- A clause without the module as a whole holds no star.
theorem not_star_of_spelled (h : spelled.Spelled clause) (hwhole : spelled.whole? = none) :
    '*' ∉ Text.trim clause := by
  have hlist {items : List Item} {text : List Char} (h : Itemized items text) :
      '*' ∉ '\x7b' :: (text ++ ['\x7d']) := by
    have htext : '*' ∉ text := fun hmem => by
      rcases h.chars hmem with hname | hblank | hcomma
      · exact absurd hname (by decide)
      · exact absurd hblank (by decide)
      · cases hcomma
    simp [htext]
  have hcore := h.core_trim
  generalize Text.trim clause = core at hcore
  cases hcore with
  | nothing => exact List.not_mem_nil
  | default hname => exact hname.not_mem (by decide)
  | forms hforms =>
      cases hforms with
      | whole _ _ _ => cases hwhole
      | list hitems => exact hlist hitems
  | both hname hgap hgap' hforms =>
      cases hforms with
      | whole _ _ _ => cases hwhole
      | list hitems =>
          have hblank {gap : List Char} (hgap : ∀ c ∈ gap, Text.isBlank c = true) : '*' ∉ gap :=
            fun hmem => absurd (hgap _ hmem) (by decide)
          rw [List.mem_append, List.mem_append, List.mem_cons, List.mem_append]
          simp only [not_or]
          exact ⟨hname.not_mem (by decide), hblank hgap, by decide, hblank hgap', hlist hitems⟩

-- The item binds the name, and the word `as` stands behind a space and in front of the only one.
inductive Carries (name : List Char) : Item → Prop
  | plain : Carries name (.plain name)
  | renamed {other gap : List Char} (hgap : gap.getLast? = some ' ') :
      Carries name (.renamed other gap [' '] name)

theorem Carries.endsWith {name : List Char} {item : Item} (h : Carries name item) :
    (item.text == name || Text.endsWith (" as ".toList ++ name) item.text) = true := by
  cases h with
  | plain => simp [Item.text_plain]
  | @renamed other gap hgap =>
      obtain ⟨front, rfl⟩ := List.getLast?_eq_some_iff.mp hgap
      have hword : " as ".toList = ' ' :: ("as".toList ++ [' ']) := by decide
      have htext : (Item.renamed other (front ++ [' ']) [' '] name).text =
          other ++ front ++ (" as ".toList ++ name) := by
        simp only [Item.text_renamed, hword, List.append_assoc, List.cons_append, List.nil_append]
      rw [htext, Text.endsWith_append, Bool.or_true]

-- The clause binds the known name as what it is.
def Binds (known : KnownName) (spelled : Linking.Clause) : Prop :=
  if known.isDefault then spelled.default? = some known.name.toList
  else ∃ item ∈ spelled.items, Carries known.name.toList item

theorem merge_of_binds (hspelled : spelled.Spelled clause) (hwhole : spelled.whole? = none)
    (hbinds : Binds known spelled) : merge clause known = .alreadyBound := by
  have hstar := not_star_of_spelled hspelled hwhole
  obtain ⟨_, hparts⟩ := listed_of_spelled hspelled hstar
  unfold Binds at hbinds
  unfold merge
  dsimp only
  rw [if_neg hstar, hparts]
  split at hbinds
  · rw [if_pos ‹_›, partsOf, hbinds]
    exact if_pos rfl
  · obtain ⟨item, hitem, hcarries⟩ := hbinds
    have hitem' : item.text ∈ (partsOf spelled).items := List.mem_map_of_mem hitem
    rw [if_neg ‹_›, if_pos (List.any_eq_true.mpr ⟨item.text, hitem', hcarries.endsWith⟩)]

theorem itemized_intercalate {items : List Item} (h : ∀ item ∈ items, item.WellFormed) :
    Itemized items (' ' :: (", ".toList.intercalate (items.map Item.text) ++ [' '])) := by
  have hspace : ∀ c ∈ [' '], Text.isBlank c = true := by decide
  have hcommas : ", ".toList = [',', ' '] := by decide
  induction items with
  | nil => exact .nil (by decide)
  | cons item items ih =>
      obtain ⟨hitem, hitems⟩ := List.forall_mem_cons.mp h
      cases items with
      | nil =>
          rw [List.map_singleton, List.intercalate_singleton]
          exact .single hitem hspace hspace
      | cons next items =>
          rw [List.map_cons, List.map_cons, List.intercalate_cons_cons, hcommas]
          have hmore := Itemized.cons hitem hspace (List.forall_mem_nil _) (ih hitems)
          rw [List.map_cons, hcommas] at hmore
          simpa only [List.append_assoc, List.cons_append, List.nil_append] using hmore

-- The clause that is written for the parts binds what they do.
theorem parse_render (h : Listed spelled) : ImportClause.parse (partsOf spelled).render =
    ⟨spelled.default?, none, spelled.items.filterMap fun item => Renaming.ofItem? item.text⟩ := by
  have hbraces : "\x7b ".toList ++ ", ".toList.intercalate (spelled.items.map Item.text) ++
      " \x7d".toList = '\x7b' ::
        ((' ' :: (", ".toList.intercalate (spelled.items.map Item.text) ++ [' '])) ++ ['\x7d']) := by
    have hopen : "\x7b ".toList = ['\x7b', ' '] := by decide
    have hclose : " \x7d".toList = [' ', '\x7d'] := by decide
    rw [hopen, hclose]
    simp
  have hlist := Forms.Spelled.list (itemized_intercalate h.items)
  have hcore {other : Linking.Clause} {text : List Char} (h : other.Core text) :
      ImportClause.parse text = ⟨other.default?, other.whole?,
        other.items.filterMap fun item => Renaming.ofItem? item.text⟩ :=
    Linking.parse_of_spelled ⟨[], text, [], by simp, h, List.forall_mem_nil _, List.forall_mem_nil _⟩
  unfold ClauseParts.render partsOf
  dsimp only
  rw [hbraces]
  cases hdefault : spelled.default? with
  | none => exact hcore (.forms hlist)
  | some name =>
      have hname := h.default name hdefault
      rw [Option.getD_some, if_neg hname.nonempty]
      split
      · rename_i hitems
        rw [List.map_eq_nil_iff.mp hitems]
        exact hcore (.default hname)
      · have hspace : ∀ c ∈ [' '], Text.isBlank c = true := by decide
        have hcommas : ", ".toList = [',', ' '] := by decide
        rw [hcommas, List.append_assoc]
        exact hcore (.both hname (List.forall_mem_nil _) hspace hlist)

-- What a clause binds when the known name is added to it.
def added (known : KnownName) (binds : ImportClause) : ImportClause :=
  if known.isDefault then { binds with default? := some known.name.toList }
  else { binds with named := binds.named ++ [⟨known.name.toList, known.name.toList⟩] }

-- A clause that takes a name binds the name after that, and otherwise what it did before.
theorem parse_of_merged (hknown : known ∈ KnownName.table) (hspelled : spelled.Spelled clause)
    (h : merge clause known = .merged merged) :
    ImportClause.parse merged = added known (ImportClause.parse clause) := by
  have hname : IsName known.name.toList := by
    have hplain := KnownName.plain_of_mem hknown
    refine ⟨hplain.nonempty, fun c hc => ?_⟩
    rw [Linking.inIdentifier, Text.isWordCharacter_of_isAlphanum (hplain.name c hc), Bool.true_or]
  obtain ⟨hstar, hmerged⟩ := of_merged h
  obtain ⟨hlisted, hparts⟩ := listed_of_spelled hspelled hstar
  rw [hparts] at hmerged
  rw [Linking.parse_of_spelled hspelled, hlisted.whole, added]
  rcases hmerged with ⟨hkind, _, rfl⟩ | ⟨hkind, rfl⟩
  · rw [if_pos hkind]
    have hlisted' : Listed ⟨some known.name.toList, spelled.forms?⟩ :=
      ⟨fun other hother => Option.some.inj hother ▸ hname, hlisted.items, hlisted.whole⟩
    exact parse_render hlisted'
  · have hitem : (Item.plain known.name.toList).WellFormed :=
      ⟨List.forall_mem_singleton.mpr hname, List.forall_mem_nil _⟩
    have hlisted' : Listed ⟨spelled.default?,
        some (.list (spelled.items ++ [.plain known.name.toList]))⟩ := by
      refine ⟨hlisted.default, ?_, rfl⟩
      exact List.forall_mem_append.mpr ⟨hlisted.items, List.forall_mem_singleton.mpr hitem⟩
    have hbinding : Renaming.ofItem? (Item.plain known.name.toList).text =
        some ⟨known.name.toList, known.name.toList⟩ := Renaming.ofItem?_text hitem trivial
    have hbindings : [Item.plain known.name.toList].filterMap
        (fun item => Renaming.ofItem? item.text) = [⟨known.name.toList, known.name.toList⟩] := by
      simp only [List.filterMap_cons, hbinding, List.filterMap_nil]
    have hparse : ImportClause.parse (ClauseParts.mk (spelled.default?.getD [])
        ((spelled.items ++ [Item.plain known.name.toList]).map Item.text)).render =
        ⟨spelled.default?, none, (spelled.items ++ [Item.plain known.name.toList]).filterMap
          fun item => Renaming.ofItem? item.text⟩ := parse_render hlisted'
    rw [List.map_append, List.filterMap_append, hbindings] at hparse
    rw [if_neg (Bool.eq_false_iff.mp hkind)]
    exact hparse

end Binding

end LivePreview.ImportPatch
