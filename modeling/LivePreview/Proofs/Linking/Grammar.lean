import LivePreview.Linking.Clause
import LivePreview.Proofs.Script.Binding
import LivePreview.Proofs.Text.Infix
import LivePreview.Proofs.Text.Trimming

namespace LivePreview.Linking

-- A character that may stand in a name that is bound.
def inIdentifier (c : Char) : Bool := Text.isWordCharacter c || c == '$'

theorem not_inIdentifier_of_isBlank {c : Char} (h : Text.isBlank c = true) :
    inIdentifier c = false :=
  Text.not_of_isBlank (by decide +kernel) h

-- A name as it stands in an import clause.
structure IsName (name : List Char) : Prop where
  nonempty : name ≠ []
  chars : ∀ c ∈ name, inIdentifier c = true

namespace IsName

variable {name : List Char}

theorem ne_of_mem (h : IsName name) {c d : Char} (hc : c ∈ name) (hd : inIdentifier d = false) :
    c ≠ d := by
  rintro rfl
  rw [h.chars c hc] at hd
  cases hd

theorem not_mem (h : IsName name) {d : Char} (hd : inIdentifier d = false) : d ∉ name :=
  fun hmem => h.ne_of_mem hmem hd rfl

theorem not_blank (h : IsName name) {c : Char} (hc : c ∈ name) : Text.isBlank c = false := by
  cases hblank : Text.isBlank c with
  | false => rfl
  | true =>
      have hother := not_inIdentifier_of_isBlank hblank
      rw [h.chars c hc] at hother
      cases hother

theorem not_blank_head (h : IsName name) : ∀ c ∈ name.head?, Text.isBlank c = false :=
  fun _ hc => h.not_blank (List.mem_of_mem_head? hc)

theorem not_blank_last (h : IsName name) : ∀ c ∈ name.getLast?, Text.isBlank c = false :=
  fun _ hc => h.not_blank (List.mem_of_getLast? hc)

end IsName

-- An item between the braces of a clause. The gaps keep its words apart.
inductive Item where
  | plain (name : List Char)
  | renamed (name gap gap' newName : List Char)
  | type (gap name : List Char)
deriving DecidableEq

namespace Item

def text : Item → List Char
  | plain name => name
  | renamed name gap gap' newName => name ++ (gap ++ ("as".toList ++ (gap' ++ newName)))
  | type gap name => "type".toList ++ (gap ++ name)

theorem text_plain (name : List Char) : (plain name).text = name := rfl

theorem text_renamed (name gap gap' newName : List Char) :
    (renamed name gap gap' newName).text = name ++ (gap ++ ("as".toList ++ (gap' ++ newName))) := rfl

theorem text_type (gap name : List Char) :
    (type gap name).text = "type".toList ++ (gap ++ name) := rfl

def names : Item → List (List Char)
  | plain name => [name]
  | renamed name _ _ newName => [name, newName]
  | type _ name => [name]

def gaps : Item → List (List Char)
  | plain _ => []
  | renamed _ gap gap' _ => [gap, gap']
  | type gap _ => [gap]

-- The value that the item binds.
def binding? : Item → Option Renaming
  | plain name => some ⟨name, name⟩
  | renamed name _ _ newName => some ⟨name, newName⟩
  | type _ _ => none

structure WellFormed (item : Item) : Prop where
  names : ∀ name ∈ item.names, IsName name
  gaps : ∀ gap ∈ item.gaps, ImportPatch.IsGap gap

-- The word `as` stands between spaces, and a space stands behind `type` exactly where it tells that
-- the item is a type.
def Spaced : Item → Prop
  | plain _ => True
  | renamed name gap gap' _ =>
      name ≠ "type".toList ∧ gap.getLast? = some ' ' ∧ gap'.head? = some ' '
  | type gap _ => gap.head? = some ' '

variable {item : Item}

theorem text_head (h : item.WellFormed) :
    ∃ c, item.text.head? = some c ∧ inIdentifier c = true := by
  have hstart {name : List Char} (later : List Char) (hname : IsName name) :
      ∃ c, (name ++ later).head? = some c ∧ inIdentifier c = true := by
    obtain ⟨c, rest, rfl⟩ := List.exists_cons_of_ne_nil hname.nonempty
    exact ⟨c, rfl, hname.chars c List.mem_cons_self⟩
  cases item with
  | plain name => simpa [text_plain] using hstart [] (h.names name (by simp [names]))
  | renamed name gap gap' newName => exact hstart _ (h.names name (by simp [names]))
  | type gap name => exact ⟨'t', rfl, by decide⟩

theorem text_last (h : item.WellFormed) :
    ∃ c, item.text.getLast? = some c ∧ inIdentifier c = true := by
  have hend (front : List Char) {name : List Char} (hname : IsName name) :
      ∃ c, (front ++ name).getLast? = some c ∧ inIdentifier c = true := by
    rw [List.getLast?_append_of_ne_nil _ hname.nonempty, List.getLast?_eq_some_getLast hname.nonempty]
    exact ⟨_, rfl, hname.chars _ (List.getLast_mem _)⟩
  cases item with
  | plain name => exact hend [] (h.names name (by simp [names]))
  | renamed name gap gap' newName =>
      rw [text_renamed, ← List.append_assoc, ← List.append_assoc, ← List.append_assoc]
      exact hend _ (h.names newName (by simp [names]))
  | type gap name =>
      rw [text_type, ← List.append_assoc]
      exact hend _ (h.names name (by simp [names]))

theorem text_ne_nil (h : item.WellFormed) : item.text ≠ [] := by
  obtain ⟨c, hc, _⟩ := text_head h
  rintro hnil
  rw [hnil] at hc
  cases hc

-- An item holds names and blanks only.
theorem chars_of_mem_text (h : item.WellFormed) {c : Char} (hc : c ∈ item.text) :
    inIdentifier c = true ∨ Text.isBlank c = true := by
  have has : ∀ c ∈ "as".toList, inIdentifier c = true := by decide
  have htype : ∀ c ∈ "type".toList, inIdentifier c = true := by decide
  have hname (name : List Char) (hmem : name ∈ item.names) (hc : c ∈ name) :
      inIdentifier c = true ∨ Text.isBlank c = true := .inl ((h.names name hmem).chars c hc)
  have hgap (gap : List Char) (hmem : gap ∈ item.gaps) (hc : c ∈ gap) :
      inIdentifier c = true ∨ Text.isBlank c = true := .inr ((h.gaps gap hmem).blank c hc)
  cases item with
  | plain name => exact hname name (by simp [names]) hc
  | renamed name gap gap' newName =>
      simp only [text_renamed, List.mem_append] at hc
      rcases hc with hc | hc | hc | hc | hc
      · exact hname name (by simp [names]) hc
      · exact hgap gap (by simp [gaps]) hc
      · exact .inl (has c hc)
      · exact hgap gap' (by simp [gaps]) hc
      · exact hname newName (by simp [names]) hc
  | type gap name =>
      simp only [text_type, List.mem_append] at hc
      rcases hc with hc | hc | hc
      · exact .inl (htype c hc)
      · exact hgap gap (by simp [gaps]) hc
      · exact hname name (by simp [names]) hc

theorem not_mem_text (h : item.WellFormed) {d : Char} (hd : inIdentifier d = false)
    (hblank : Text.isBlank d = false) : d ∉ item.text := by
  intro hmem
  rcases chars_of_mem_text h hmem with hc | hc
  · rw [hc] at hd
    cases hd
  · rw [hc] at hblank
    cases hblank

theorem trim_text (h : item.WellFormed) {gap gap' : List Char}
    (hgap : ∀ c ∈ gap, Text.isBlank c = true) (hgap' : ∀ c ∈ gap', Text.isBlank c = true) :
    Text.trim (gap ++ (item.text ++ gap')) = item.text := by
  have hsolid {c : Char} (hc : inIdentifier c = true) : Text.isBlank c = false := by
    by_contra hblank
    rw [not_inIdentifier_of_isBlank (by simpa using hblank)] at hc
    cases hc
  obtain ⟨c, hhead, hc⟩ := text_head h
  obtain ⟨d, hlast, hd⟩ := text_last h
  refine Text.trim_between hgap hgap' (fun b hb => ?_) fun b hb => ?_
  · rw [hhead] at hb
    exact Option.some.inj hb ▸ hsolid hc
  · rw [hlast] at hb
    exact Option.some.inj hb ▸ hsolid hd

end Item

-- Items between braces, with commas between them and blanks around each. A comma may stand behind
-- the last one.
inductive Itemized : List Item → List Char → Prop
  | nil {gap : List Char} (hgap : ∀ c ∈ gap, Text.isBlank c = true) : Itemized [] gap
  | single {item : Item} {gap gap' : List Char} (hitem : item.WellFormed)
      (hgap : ∀ c ∈ gap, Text.isBlank c = true) (hgap' : ∀ c ∈ gap', Text.isBlank c = true) :
      Itemized [item] (gap ++ (item.text ++ gap'))
  | cons {item : Item} {items : List Item} {gap gap' text : List Char} (hitem : item.WellFormed)
      (hgap : ∀ c ∈ gap, Text.isBlank c = true) (hgap' : ∀ c ∈ gap', Text.isBlank c = true)
      (h : Itemized items text) : Itemized (item :: items) (gap ++ (item.text ++ (gap' ++ ',' :: text)))

theorem comma_not_blank {gap : List Char} (hgap : ∀ c ∈ gap, Text.isBlank c = true) : ',' ∉ gap :=
  fun hmem => by simpa using (hgap ',' hmem).symm.trans (by decide : Text.isBlank ',' = false)

namespace Itemized

variable {items : List Item} {text : List Char}

-- Between the commas there are the items and blanks.
theorem pieces (h : Itemized items text) :
    ((text.splitOn ',').map Text.trim).filter (· ≠ []) = items.map Item.text := by
  have hcomma {item : Item} (hitem : item.WellFormed) : ',' ∉ item.text :=
    Item.not_mem_text hitem (by decide) (by decide)
  induction h with
  | nil hgap =>
      rw [List.splitOn_eq_singleton (comma_not_blank hgap), List.map_singleton,
        Text.trim_blanks hgap]
      rfl
  | @single item gap gap' hitem hgap hgap' =>
      have hplain : ',' ∉ gap ++ (item.text ++ gap') := by
        simp [comma_not_blank hgap, hcomma hitem, comma_not_blank hgap']
      rw [List.splitOn_eq_singleton hplain, List.map_singleton, Item.trim_text hitem hgap hgap',
        List.filter_singleton]
      simp [Item.text_ne_nil hitem]
  | @cons item items gap gap' text hitem hgap hgap' _ ih =>
      have hplain : ',' ∉ gap ++ (item.text ++ gap') := by
        simp [comma_not_blank hgap, hcomma hitem, comma_not_blank hgap']
      have hsplit : (gap ++ (item.text ++ (gap' ++ ',' :: text))).splitOn ',' =
          (gap ++ (item.text ++ gap')) :: text.splitOn ',' := by
        have hassoc : gap ++ (item.text ++ (gap' ++ ',' :: text)) =
            (gap ++ (item.text ++ gap')) ++ ',' :: text := by
          simp only [List.append_assoc]
        rw [hassoc, List.splitOn_append_cons_self, List.splitOn_eq_singleton hplain]
        rfl
      rw [hsplit, List.map_cons, Item.trim_text hitem hgap hgap', List.filter_cons_of_pos
        (by simpa using Item.text_ne_nil hitem), ih, List.map_cons]

theorem wellFormed (h : Itemized items text) : ∀ item ∈ items, item.WellFormed := by
  induction h with
  | nil => exact List.forall_mem_nil _
  | single hitem => exact List.forall_mem_singleton.mpr hitem
  | cons hitem _ _ _ ih => exact List.forall_mem_cons.mpr ⟨hitem, ih⟩

-- A character of a list is one of an item, or a comma or a blank.
theorem chars (h : Itemized items text) {c : Char} (hc : c ∈ text) :
    inIdentifier c = true ∨ Text.isBlank c = true ∨ c = ',' := by
  have hitem {item : Item} (hitem : item.WellFormed) (hc : c ∈ item.text) :
      inIdentifier c = true ∨ Text.isBlank c = true ∨ c = ',' :=
    (Item.chars_of_mem_text hitem hc).imp_right .inl
  induction h with
  | nil hgap => exact .inr (.inl (hgap c hc))
  | single hwell hgap hgap' =>
      rcases List.mem_append.mp hc with hc | hc
      · exact .inr (.inl (hgap c hc))
      · rcases List.mem_append.mp hc with hc | hc
        · exact hitem hwell hc
        · exact .inr (.inl (hgap' c hc))
  | cons hwell hgap hgap' _ ih =>
      rcases List.mem_append.mp hc with hc | hc
      · exact .inr (.inl (hgap c hc))
      · rcases List.mem_append.mp hc with hc | hc
        · exact hitem hwell hc
        · rcases List.mem_append.mp hc with hc | hc
          · exact .inr (.inl (hgap' c hc))
          · rcases List.mem_cons.mp hc with rfl | hc
            · exact .inr (.inr rfl)
            · exact ih hc

end Itemized

-- What a clause binds besides the default export.
inductive Forms where
  | whole (name : List Char)
  | list (items : List Item)

inductive Forms.Spelled : Forms → List Char → Prop
  | whole {name gap gap' : List Char} (hname : IsName name)
      (hgap : ∀ c ∈ gap, Text.isBlank c = true) (hgap' : ImportPatch.IsGap gap') :
      Spelled (.whole name) ('*' :: (gap ++ ("as".toList ++ (gap' ++ name))))
  | list {items : List Item} {text : List Char} (h : Itemized items text) :
      Spelled (.list items) ('\x7b' :: (text ++ ['\x7d']))

-- A clause, as what it binds.
structure Clause where
  default? : Option (List Char)
  forms? : Option Forms

namespace Clause

-- The text spells the clause, without blanks around it.
inductive Core : Clause → List Char → Prop
  | nothing : Core ⟨none, none⟩ []
  | default {name : List Char} (hname : IsName name) : Core ⟨some name, none⟩ name
  | forms {forms : Forms} {text : List Char} (h : forms.Spelled text) : Core ⟨none, some forms⟩ text
  | both {name gap gap' text : List Char} {forms : Forms} (hname : IsName name)
      (hgap : ∀ c ∈ gap, Text.isBlank c = true) (hgap' : ∀ c ∈ gap', Text.isBlank c = true)
      (h : forms.Spelled text) :
      Core ⟨some name, some forms⟩ (name ++ (gap ++ ',' :: (gap' ++ text)))

-- The text spells the clause.
def Spelled (clause : Clause) (text : List Char) : Prop :=
  ∃ gap core gap', text = gap ++ (core ++ gap') ∧ clause.Core core ∧
    (∀ c ∈ gap, Text.isBlank c = true) ∧ ∀ c ∈ gap', Text.isBlank c = true

def whole? (clause : Clause) : Option (List Char) :=
  match clause.forms? with
  | some (.whole name) => some name
  | _ => none

def items (clause : Clause) : List Item :=
  match clause.forms? with
  | some (.list items) => items
  | _ => []

-- The names of the values that the clause binds.
def names (clause : Clause) : List (List Char) :=
  clause.default?.toList ++ clause.whole?.toList ++
    (clause.items.filterMap Item.binding?).map (·.newName)

end Clause

section Forms

variable {forms : Forms} {text : List Char}

theorem Forms.Spelled.ends (h : forms.Spelled text) :
    (∃ c, text.head? = some c ∧ (c = '*' ∨ c = '\x7b')) ∧
      ∀ c ∈ text.getLast?, Text.isBlank c = false := by
  cases h with
  | @whole name gap gap' hname _ _ =>
      refine ⟨⟨'*', rfl, .inl rfl⟩, fun c hc => hname.not_blank_last c ?_⟩
      have hassoc : '*' :: (gap ++ ("as".toList ++ (gap' ++ name))) =
          ('*' :: (gap ++ ("as".toList ++ gap'))) ++ name := by
        simp only [List.cons_append, List.append_assoc]
      rwa [hassoc, List.getLast?_append_of_ne_nil _ hname.nonempty] at hc
  | list h =>
      refine ⟨⟨'\x7b', rfl, .inr rfl⟩, fun c hc => ?_⟩
      rw [← List.cons_append, List.getLast?_concat] at hc
      exact Option.some.inj hc ▸ by decide

end Forms

section Core

variable {clause : Clause} {text : List Char}

theorem Clause.Core.ends (h : clause.Core text) :
    (∀ c ∈ text.head?, Text.isBlank c = false) ∧ ∀ c ∈ text.getLast?, Text.isBlank c = false := by
  cases h with
  | nothing => simp
  | default hname => exact ⟨hname.not_blank_head, hname.not_blank_last⟩
  | forms h =>
      obtain ⟨⟨c, hhead, hc⟩, hlast⟩ := h.ends
      refine ⟨fun d hd => ?_, hlast⟩
      obtain rfl : c = d := Option.some.inj (hhead.symm.trans hd)
      rcases hc with rfl | rfl <;> decide
  | @both name gap gap' text forms hname _ _ h =>
      obtain ⟨⟨c, hhead, _⟩, hlast⟩ := h.ends
      have hne : text ≠ [] := by
        rintro rfl
        cases hhead
      constructor
      · rw [List.head?_append_of_ne_nil _ hname.nonempty]
        exact hname.not_blank_head
      · have hassoc : name ++ (gap ++ ',' :: (gap' ++ text)) =
            (name ++ (gap ++ ',' :: gap')) ++ text := by
          simp only [List.append_assoc, List.cons_append]
        rw [hassoc, List.getLast?_append_of_ne_nil _ hne]
        exact hlast

theorem Clause.Spelled.core_trim (h : clause.Spelled text) : clause.Core (Text.trim text) := by
  obtain ⟨gap, core, gap', rfl, hcore, hgap, hgap'⟩ := h
  rwa [Text.trim_between hgap hgap' hcore.ends.1 hcore.ends.2]

end Core

section Reading

theorem Renaming.ofItem?_trim (item : List Char) : ofItem? (Text.trim item) = ofItem? item := by
  obtain ⟨_, _, _, _, _, hhead, hlast⟩ := Text.exists_trim item
  unfold ofItem?
  rw [Text.trim_eq_self hhead hlast]

theorem cut?_as {blanks : List Char} (later : List Char)
    (hblanks : ∀ c ∈ blanks, Text.isBlank c = true) :
    Text.cut? " as ".toList (blanks ++ (" as ".toList ++ later)) = some (blanks, later) := by
  have hword : " as ".toList = [' ', 'a', 's', ' '] := by decide
  induction blanks with
  | nil => simp [hword, Text.cut?, Text.after?]
  | cons c blanks ih =>
      obtain ⟨_, hrest⟩ := List.forall_mem_cons.mp hblanks
      have hahead : Text.after? " as ".toList (c :: (blanks ++ (" as ".toList ++ later))) = none := by
        refine Option.eq_none_iff_forall_not_mem.mpr fun text htext => ?_
        have hwhole := (List.cons.inj (Text.after?_eq_some_iff.mp htext)).2
        cases blanks with
        | nil =>
            have hne : ' ' ≠ 'a' := by decide
            exact hne (List.cons.inj hwhole).1
        | cons d blanks =>
            have hd := hrest d List.mem_cons_self
            rw [(List.cons.inj hwhole).1] at hd
            revert hd
            decide
      rw [List.cons_append, Text.cut?, hahead, ih hrest]
      rfl

-- What starts with the word `type` and a space starts with a word of four letters.
theorem eq_type_of_startsWith {name gap later : List Char} (hname : IsName name)
    (hgap : ImportPatch.IsGap gap)
    (h : Text.startsWith "type ".toList (name ++ (gap ++ later)) = true) :
    name = "type".toList := by
  obtain ⟨rest, hrest⟩ := Option.isSome_iff_exists.mp h
  obtain ⟨b, blanks, rfl⟩ := List.exists_cons_of_ne_nil hgap.nonempty
  have hword : "type ".toList = "type".toList ++ [' '] := by decide
  have hsplit := Text.after?_eq_some_iff.mp hrest
  rw [hword, List.append_assoc] at hsplit
  rcases List.append_eq_append_iff.mp hsplit with ⟨more, htype, hmore⟩ | ⟨more, hlong, hmore⟩
  · cases more with
    | nil => rw [htype, List.append_nil]
    | cons c more =>
        have hb : b ∈ "type".toList := by
          rw [htype, (List.cons.inj hmore).1]
          simp
        have hblank : ∀ c ∈ "type".toList, Text.isBlank c = false := by decide
        have hother := hgap.blank b List.mem_cons_self
        rw [hblank b hb] at hother
        cases hother
  · cases more with
    | nil => rw [hlong, List.append_nil]
    | cons c more =>
        have hc : ' ' ∈ name := by
          rw [hlong, (List.cons.inj hmore).1]
          simp
        exact absurd hc (hname.not_mem (by decide))

-- An item whose words are spaced as they should be is read as what it binds.
theorem Renaming.ofItem?_text {item : Item} (h : item.WellFormed) (hspaced : item.Spaced) :
    ofItem? item.text = item.binding? := by
  have htrim : Text.trim item.text = item.text := by
    have hbare : Text.trim (item.text ++ []) = item.text :=
      Item.trim_text h (List.forall_mem_nil _) (List.forall_mem_nil _)
    rwa [List.append_nil] at hbare
  have has : ' ' ∈ " as ".toList := by decide
  have htype : ' ' ∈ "type ".toList := by decide
  unfold ofItem?
  simp only [htrim]
  cases item with
  | plain name =>
      have hname : IsName name := h.names name (by simp [Item.names])
      have hspace : ' ' ∉ name := hname.not_mem (by decide)
      have hstart : Text.startsWith "type ".toList name = false := by
        refine Bool.eq_false_iff.mpr fun htrue => hspace ?_
        obtain ⟨rest, hrest⟩ := Option.isSome_iff_exists.mp htrue
        rw [Text.after?_eq_some_iff.mp hrest]
        exact List.mem_append_left _ htype
      have hcut : Text.cut? " as ".toList name = none := by
        refine Option.not_isSome_iff_eq_none.mp fun hsome => hspace ?_
        exact (Text.contains_iff.mp hsome).subset has
      simp only [Item.text_plain, Item.binding?, hname.nonempty, hstart, hcut, Bool.false_eq_true,
        or_self, if_false]
  | renamed name gap gap' newName =>
      obtain ⟨hother, hlast, hfirst⟩ := hspaced
      have hname : IsName name := h.names name (by simp [Item.names])
      have hnew : IsName newName := h.names newName (by simp [Item.names])
      have hgap : ImportPatch.IsGap gap := h.gaps gap (by simp [Item.gaps])
      have hgap' : ImportPatch.IsGap gap' := h.gaps gap' (by simp [Item.gaps])
      have hstart : ¬ Text.startsWith "type ".toList (Item.renamed name gap gap' newName).text = true :=
        fun htrue => hother (eq_type_of_startsWith hname hgap htrue)
      obtain ⟨front, rfl⟩ := List.getLast?_eq_some_iff.mp hlast
      obtain ⟨back, rfl⟩ : ∃ back, gap' = ' ' :: back := ⟨_, List.eq_cons_of_mem_head? hfirst⟩
      have hfront : ∀ c ∈ front, Text.isBlank c = true := fun c hc => hgap.blank c (by simp [hc])
      have hback : ∀ c ∈ back, Text.isBlank c = true := fun c hc => hgap'.blank c (by simp [hc])
      have hwhole : (Item.renamed name (front ++ [' ']) (' ' :: back) newName).text =
          name ++ (front ++ (" as ".toList ++ (back ++ newName))) := by
        have hword : " as ".toList = ' ' :: ("as".toList ++ [' ']) := by decide
        simp only [Item.text_renamed, hword, List.append_assoc, List.cons_append, List.nil_append]
      have hcut : Text.cut? " as ".toList (Item.renamed name (front ++ [' ']) (' ' :: back) newName).text =
          some (name ++ front, back ++ newName) := by
        have hfirstWord : " as ".toList = ' ' :: "as ".toList := by decide
        have hblanks := cut?_as (back ++ newName) hfront
        rw [hwhole, hfirstWord, Text.cut?_append (hname.not_mem (by decide)), ← hfirstWord,
          hblanks]
        rfl
      have hleft : Text.trim (name ++ front) = name :=
        Text.trim_append_blanks hfront hname.not_blank_head hname.not_blank_last
      have hright : Text.trim (back ++ newName) = newName :=
        Text.trim_blanks_append hback hnew.not_blank_head hnew.not_blank_last
      rw [if_neg (not_or.mpr ⟨Item.text_ne_nil h, hstart⟩), hcut]
      dsimp only
      rw [hleft, hright]
      rfl
  | type gap name =>
      obtain ⟨back, rfl⟩ : ∃ back, gap = ' ' :: back := ⟨_, List.eq_cons_of_mem_head? hspaced⟩
      have hstart : Text.startsWith "type ".toList (Item.type (' ' :: back) name).text = true :=
        Option.isSome_iff_exists.mpr ⟨back ++ name, Text.after?_eq_some_iff.mpr (by
          have hword : "type ".toList = "type".toList ++ [' '] := by decide
          simp only [Item.text_type, hword, List.append_assoc, List.cons_append, List.nil_append])⟩
      rw [if_pos (.inr hstart)]
      rfl

theorem Itemized.ofItems {items : List Item} {text : List Char} (h : Itemized items text) :
    Renaming.ofItems text = items.filterMap fun item => Renaming.ofItem? item.text := by
  have htrim : Renaming.ofItems text =
      (((text.splitOn ',').map Text.trim).filter (· ≠ [])).filterMap Renaming.ofItem? := by
    rw [Renaming.ofItems, List.filterMap_filter, List.filterMap_map]
    refine List.filterMap_congr fun item _ => ?_
    by_cases hnil : Text.trim item = []
    · have hnone : Renaming.ofItem? item = none := by
        unfold Renaming.ofItem?
        rw [hnil]
        exact if_pos (.inl rfl)
      simp [hnil, hnone]
    · simp [hnil, Renaming.ofItem?_trim]
  rw [htrim, h.pieces, List.filterMap_map]
  rfl

theorem Itemized.drop_braces {items : List Item} {text : List Char} (h : Itemized items text) :
    dropClosingBraces (Text.trimEnd (text ++ ['\x7d'])) = text := by
  have hbrace : '\x7d' ∉ text := fun hmem => by
    rcases h.chars hmem with hname | hblank | hcomma
    · revert hname
      decide
    · revert hblank
      decide
    · cases hcomma
  rw [Text.trimEnd_concat (by decide), dropClosingBraces, List.reverse_append,
    List.reverse_singleton, List.singleton_append, List.dropWhile_cons_of_pos (by simp)]
  cases hreverse : text.reverse with
  | nil => rw [List.reverse_eq_nil_iff.mp hreverse]; rfl
  | cons c rest =>
      have hc : c ≠ '\x7d' := by
        rintro rfl
        exact hbrace (List.mem_reverse.mp (hreverse ▸ List.mem_cons_self))
      rw [List.dropWhile_cons_of_neg (by simpa using hc), ← hreverse, List.reverse_reverse]

theorem starAlias_eq {name gap gap' : List Char} (hname : IsName name)
    (hgap : ∀ c ∈ gap, Text.isBlank c = true) (hgap' : ImportPatch.IsGap gap') :
    starAlias (gap ++ ("as".toList ++ (gap' ++ name))) = name := by
  obtain ⟨b, blanks, hblanks⟩ := List.exists_cons_of_ne_nil hgap'.nonempty
  have hb : 'a' ≠ b := by
    rintro rfl
    have hblank := hgap'.blank 'a' (hblanks ▸ List.mem_cons_self)
    revert hblank
    decide
  have hword : "as".toList = ['a', 's'] := by decide
  have htrim : Text.trim (gap ++ ("as".toList ++ (gap' ++ name))) =
      "as".toList ++ (gap' ++ name) := by
    refine Text.trim_blanks_append hgap (fun c hc => ?_) fun c hc => hname.not_blank_last c ?_
    · obtain rfl : 'a' = c := Option.some.inj hc
      decide
    · rwa [← List.append_assoc, List.getLast?_append_of_ne_nil _ hname.nonempty] at hc
  have hfirst : Text.after? "as".toList ("as".toList ++ (gap' ++ name)) = some (gap' ++ name) :=
    Text.after?_eq_some_iff.mpr rfl
  have hsecond : Text.after? "as".toList (gap' ++ name) = none := by
    rw [hword, hblanks, List.cons_append, Text.after?, if_neg hb]
  have hdrop : Text.dropRepeated "as".toList ("as".toList ++ (gap' ++ name)) = gap' ++ name := by
    rw [Text.dropRepeated]
    split
    · rename_i rest hrest
      obtain rfl : gap' ++ name = rest := Option.some.inj (hfirst.symm.trans hrest)
      rw [if_neg (by decide), Text.dropRepeated]
      split
      · rename_i other hother
        rw [hsecond] at hother
        cases hother
      · rfl
    · rename_i hnone
      rw [hfirst] at hnone
      cases hnone
  rw [starAlias, htrim, hdrop]
  exact Text.trim_blanks_append hgap'.blank hname.not_blank_head hname.not_blank_last

theorem splitDefault_name {name : List Char} (hname : IsName name) (later : List Char) :
    ImportClause.splitDefault (name ++ later) =
      (some (Text.trim ((name ++ later).takeWhile (· != ','))),
        Text.trim ((name ++ later).drop (((name ++ later).takeWhile (· != ',')).length + 1))) := by
  obtain ⟨c, rest, rfl⟩ := List.exists_cons_of_ne_nil hname.nonempty
  have hbrace : c ≠ '\x7b' := hname.ne_of_mem List.mem_cons_self (by decide)
  have hstar : c ≠ '*' := hname.ne_of_mem List.mem_cons_self (by decide)
  rw [List.cons_append]
  unfold ImportClause.splitDefault
  split
  · rename_i hnil
    cases hnil
  · rename_i hcons
    exact absurd (List.cons.inj hcons).1 hbrace
  · rename_i hcons
    exact absurd (List.cons.inj hcons).1 hstar
  · rfl

theorem splitDefault_alone {name : List Char} (hname : IsName name) :
    ImportClause.splitDefault name = (some name, []) := by
  have htake : name.takeWhile (· != ',') = name :=
    List.takeWhile_eq_self_iff.mpr fun c hc => by simpa using hname.ne_of_mem hc (by decide)
  have hsplit := splitDefault_name hname []
  rw [List.append_nil, htake, Text.trim_eq_self hname.not_blank_head hname.not_blank_last,
    List.drop_eq_nil_of_le (Nat.le_succ _)] at hsplit
  exact hsplit

theorem splitDefault_both {name gap gap' text : List Char} {forms : Forms} (hname : IsName name)
    (hgap : ∀ c ∈ gap, Text.isBlank c = true) (hgap' : ∀ c ∈ gap', Text.isBlank c = true)
    (h : forms.Spelled text) :
    ImportClause.splitDefault (name ++ (gap ++ ',' :: (gap' ++ text))) = (some name, text) := by
  have hfront : ∀ c ∈ name ++ gap, (c != ',') = true := by
    refine List.forall_mem_append.mpr ⟨fun c hc => ?_, fun c hc => ?_⟩
    · simpa using hname.ne_of_mem hc (by decide)
    · have hne : c ≠ ',' := by
        rintro rfl
        exact comma_not_blank hgap hc
      simpa using hne
  have htake : (name ++ (gap ++ ',' :: (gap' ++ text))).takeWhile (· != ',') = name ++ gap := by
    rw [← List.append_assoc, List.takeWhile_append_of_pos hfront,
      List.takeWhile_cons_of_neg (by simp), List.append_nil]
  have hdrop : (name ++ (gap ++ ',' :: (gap' ++ text))).drop ((name ++ gap).length + 1) =
      gap' ++ text := by
    rw [← List.append_assoc, ← List.drop_drop, List.drop_left]
    rfl
  have hend := Text.trim_append_blanks hgap hname.not_blank_head hname.not_blank_last
  have hrest := Text.trim_blanks_append hgap' (Clause.Core.forms h).ends.1
    (Clause.Core.forms h).ends.2
  rw [splitDefault_name hname, htake, hdrop, hend, hrest]

theorem splitDefault_forms {forms : Forms} {text : List Char} (h : forms.Spelled text) :
    ImportClause.splitDefault text = (none, text) := by
  obtain ⟨⟨c, hhead, hc⟩, _⟩ := h.ends
  rw [List.eq_cons_of_mem_head? hhead]
  rcases hc with rfl | rfl <;> rfl

-- A clause is read as what it spells.
theorem parse_of_spelled {clause : Clause} {text : List Char} (h : clause.Spelled text) :
    ImportClause.parse text = ⟨clause.default?, clause.whole?,
      clause.items.filterMap fun item => Renaming.ofItem? item.text⟩ := by
  have hforms {default? : Option (List Char)} {forms : Forms} {core rest : List Char}
      (hforms : forms.Spelled rest) (hsplit : ImportClause.splitDefault core = (default?, rest))
      (hcore : Text.trim text = core) :
      ImportClause.parse text = ⟨default?, (Clause.mk default? (some forms)).whole?,
        (Clause.mk default? (some forms)).items.filterMap fun item =>
          Renaming.ofItem? item.text⟩ := by
    rw [ImportClause.parse, hcore, hsplit]
    cases hforms with
    | whole hname hgap hgap' =>
        exact congrArg (fun name => ImportClause.mk default? (some name) [])
          (starAlias_eq hname hgap hgap')
    | list hlist =>
        have hitems := hlist.ofItems
        rw [← hlist.drop_braces] at hitems
        exact congrArg (ImportClause.mk default? none) (hlist.drop_braces ▸ hitems)
  have hcore := h.core_trim
  generalize hcoreText : Text.trim text = core at hcore
  cases hcore with
  | nothing =>
      rw [ImportClause.parse, hcoreText]
      rfl
  | default hname =>
      rw [ImportClause.parse, hcoreText, splitDefault_alone hname]
      rfl
  | forms hspelled => exact hforms hspelled (splitDefault_forms hspelled) hcoreText
  | both hname hgap hgap' hspelled =>
      exact hforms hspelled (splitDefault_both hname hgap hgap' hspelled) hcoreText

end Reading

end LivePreview.Linking
