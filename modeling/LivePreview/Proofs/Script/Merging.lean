import LivePreview.EntryPoint
import LivePreview.Proofs.Diagnosis.KnownNames
import LivePreview.Proofs.Diagnosis.Undefined
import LivePreview.Proofs.Linking.Alike
import LivePreview.Proofs.Script.Components
import Mathlib.Logic.Relation

namespace LivePreview.Script

open Linking

-- The components that are undeclared in a script.
def undeclaredNames (source : List Char) : List String :=
  (undeclaredComponents source).map fun tag => String.ofList tag.1

-- The script with the import of one more name added to it.
def Adds (name : String) (source fixed : List Char) : Prop :=
  ∃ known, KnownName.find? name = some known ∧ ImportPatch.addImport? source known = some fixed

-- The script after imports of components that it lacks were added to it, one after another.
def Patched (source : List Char) : List Char → Prop :=
  Relation.ReflTransGen (fun text later => ∃ name ∈ undeclaredNames source, Adds name text later)
    source

-- However imports of the components that it lacks are added to a script, it stays otherwise what it
-- was: it leads to the same modules of the project, and it lacks no more and no fewer of the others.
structure TakesImports (registered? : String → Option String) (source : List Char) : Prop where
  reads : ∀ text, Patched source text → ReadsAlike registered? (fun module =>
    ∃ name ∈ undeclaredNames source, ∃ known, KnownName.find? name = some known ∧
      known.module = module) source text
  holds : ∀ text, Patched source text → FileKind.script.mayHold (String.ofList text) =
    FileKind.script.mayHold (String.ofList source)
  mounts : ∀ text, Patched source text → EntryPoint.mountsPage (String.ofList text) =
    EntryPoint.mountsPage (String.ofList source)
  lacks : ∀ text later name other, Patched source text → name ∈ undeclaredNames source →
    Adds name text later → other ≠ name →
      (other ∈ undeclaredNames later ↔ other ∈ undeclaredNames text)

theorem not_mem_undeclaredNames {source : List Char} {name : String}
    (h : isBound source name.toList = true) : name ∉ undeclaredNames source := by
  intro hmem
  obtain ⟨tag, htag, rfl⟩ := List.mem_map.mp hmem
  rw [String.toList_ofList] at h
  have hfree := (List.mem_filter.mp htag).2
  rw [h] at hfree
  cases hfree

theorem name_of_find? {name : String} {known : KnownName} (h : KnownName.find? name = some known) :
    known ∈ KnownName.table ∧ known.name = name :=
  ⟨List.mem_of_find?_eq_some h, by simpa using List.find?_some h⟩

-- An import that is added binds its name.
theorem not_mem_of_adds {source fixed : List Char} {name : String} (h : Adds name source fixed) :
    name ∉ undeclaredNames fixed := by
  obtain ⟨known, hknown, hfixed⟩ := h
  obtain ⟨hmem, rfl⟩ := name_of_find? hknown
  exact not_mem_undeclaredNames
    (ImportPatch.isBound_of_addImport? (KnownName.plain_of_mem hmem).nonempty hfixed)

-- The import of a component that a script lacks can be added if the name is known, and then the
-- script lacks it no more.
theorem exists_addImport?_of_undeclared {source : List Char} {name : String} {known : KnownName}
    (hname : name ∈ undeclaredNames source) (hknown : KnownName.find? name = some known) :
    ∃ fixed, ImportPatch.addImport? source known = some fixed ∧ name ∉ undeclaredNames fixed := by
  cases hfixed : ImportPatch.addImport? source known with
  | none =>
      obtain ⟨_, rfl⟩ := name_of_find? hknown
      have hbound := ImportPatch.isBound_of_addImport?_eq_none hfixed
      exact absurd hname (not_mem_undeclaredNames hbound)
  | some fixed => exact ⟨fixed, rfl, not_mem_of_adds ⟨known, hknown, hfixed⟩⟩

-- The clause of the import that takes the name spans lines and has no end of its own.
theorem exists_addImport?_of_undeclared_openClause :
    "Link" ∈ undeclaredNames
        "import x, \x7b y,\n// \x7d,\n from 'react-router-dom'\nr(<Link/>)".toList ∧
      KnownName.find? "Link" = some ⟨"Link", "react-router-dom", false⟩ ∧
      ∃ fixed, ImportPatch.addImport?
          "import x, \x7b y,\n// \x7d,\n from 'react-router-dom'\nr(<Link/>)".toList
          ⟨"Link", "react-router-dom", false⟩ = some fixed ∧ "Link" ∉ undeclaredNames fixed := by
  have hname : "Link" ∈ undeclaredNames
      "import x, \x7b y,\n// \x7d,\n from 'react-router-dom'\nr(<Link/>)".toList := by
    decide +kernel
  have hknown : KnownName.find? "Link" = some ⟨"Link", "react-router-dom", false⟩ := by
    decide
  exact ⟨hname, hknown, exists_addImport?_of_undeclared hname hknown⟩

namespace TakesImports

variable {registered? : String → Option String} {source text : List Char}

theorem subset_of_adds (h : TakesImports registered? source) {later : List Char} {name : String}
    (htext : Patched source text) (hname : name ∈ undeclaredNames source)
    (hadds : Adds name text later) : undeclaredNames later ⊆ undeclaredNames text := by
  intro other hother
  have hne : other ≠ name := fun heq => not_mem_of_adds hadds (heq ▸ hother)
  exact (h.lacks text later name other htext hname hadds hne).mp hother

theorem subset (h : TakesImports registered? source) (htext : Patched source text) :
    undeclaredNames text ⊆ undeclaredNames source := by
  induction htext with
  | refl => exact List.Subset.refl _
  | tail hpatched hstep ih =>
      obtain ⟨name, hname, hadds⟩ := hstep
      exact List.Subset.trans (h.subset_of_adds hpatched hname hadds) ih

end TakesImports

end LivePreview.Script

namespace LivePreview

namespace ImportPatch

theorem dropTrailing_concat_self (c : Char) (text : List Char) :
    dropTrailing c (text ++ [c]) = dropTrailing c text := by
  simp [dropTrailing]

theorem dropTrailing_concat_of_ne {c d : Char} (h : d ≠ c) (text : List Char) :
    dropTrailing c (text ++ [d]) = text ++ [d] := by
  simp [dropTrailing, h]

theorem dropTrailing_of_not_mem {c : Char} {text : List Char} (h : c ∉ text) :
    dropTrailing c text = text := by
  cases htext : text.reverse with
  | nil => rw [dropTrailing, htext, List.reverse_eq_nil_iff.mp htext]; rfl
  | cons d rest =>
      have hd : d ≠ c := by
        rintro rfl
        exact h (List.mem_reverse.mp (htext ▸ List.mem_cons_self))
      rw [dropTrailing, htext, List.dropWhile_cons_of_neg (by simpa using hd), ← htext,
        List.reverse_reverse]

-- A name that stands by itself between the marks of a clause.
structure Bare (name : List Char) : Prop where
  nonempty : name ≠ []
  chars : ∀ c ∈ name, Text.isBlank c = false ∧ c ≠ ',' ∧ c ≠ '\x7b'
  noStar : '*' ∉ name

theorem bare_of_known {known : KnownName} (h : known ∈ KnownName.table) :
    Bare known.name.toList := by
  have hplain := KnownName.plain_of_mem h
  refine ⟨hplain.nonempty, fun c hc => ⟨Text.not_blank_of_isAlphanum (hplain.name c hc), ?_, ?_⟩,
    fun hstar => ?_⟩
  · exact Text.ne_of_isAlphanum (hplain.name c hc) (by decide)
  · exact Text.ne_of_isAlphanum (hplain.name c hc) (by decide)
  · exact Text.ne_of_isAlphanum (hplain.name _ hstar) (by decide) rfl

theorem Apart.subset {part whole : List Char} (h : Apart part whole) : part ⊆ whole := by
  obtain ⟨front, later, rfl, _, _⟩ := h
  exact List.subset_append_of_subset_left _ (List.subset_append_right _ _)

-- The last of several items stands behind the last comma.
theorem exists_intercalate_concat (items : List (List Char)) (item : List Char) :
    ", ".toList.intercalate (items ++ [item]) = item ∨
      ∃ front, ", ".toList.intercalate (items ++ [item]) = front ++ ',' :: ' ' :: item := by
  have hbetween : ", ".toList = [',', ' '] := by decide
  rw [hbetween]
  induction items with
  | nil => exact .inl (List.intercalate_singleton ..)
  | cons first items ih =>
      obtain ⟨second, more, hitems⟩ : ∃ second more, items ++ [item] = second :: more :=
        List.exists_cons_of_ne_nil (by simp)
      rw [hitems] at ih
      rw [List.cons_append, hitems, List.intercalate_cons_cons]
      right
      rcases ih with hlast | ⟨front, hfront⟩
      · exact ⟨first, by rw [hlast, List.append_assoc]; rfl⟩
      · exact ⟨first ++ [',', ' '] ++ front, by rw [hfront]; simp⟩

theorem mem_splitOn_intercalate (items : List (List Char)) {name : List Char}
    (hname : Bare name) :
    ' ' :: (name ++ [' ']) ∈
      (' ' :: (", ".toList.intercalate (items ++ [name]) ++ [' '])).splitOn ',' := by
  have hplain : ',' ∉ ' ' :: (name ++ [' ']) := by
    simpa using fun hmem => (hname.chars ',' hmem).2.1 rfl
  rcases exists_intercalate_concat items name with hlast | ⟨front, hfront⟩
  · rw [hlast, List.splitOn_eq_singleton hplain]
    exact List.mem_singleton_self _
  · rw [hfront, List.append_assoc, List.cons_append, ← List.cons_append,
      List.splitOn_append_cons_self]
    refine List.mem_append_right _ ?_
    rw [List.cons_append, List.splitOn_eq_singleton hplain]
    exact List.mem_singleton_self _

namespace ClauseParts

-- What stands before the braces holds no brace and does not begin with a blank.
theorem default_ofClause (clause : List Char) :
    '\x7b' ∉ (ofClause (Text.trim clause)).default ∧
      ∀ c ∈ (ofClause (Text.trim clause)).default.head?, Text.isBlank c = false := by
  by_cases hbrace : '\x7b' ∈ Text.trim clause
  · obtain ⟨before, inner, hclause, hbefore⟩ := List.eq_append_cons_of_mem hbrace
    rw [ofClause, hclause, Text.cut?_char inner hbefore]
    refine ⟨fun hmem => hbefore ?_, fun c hc => Text.not_blank_head_trim hc⟩
    have hapart : Apart (Text.trim (dropTrailing ',' (Text.trim before))) before :=
      (Apart.trim _).trans ((Apart.dropTrailing (by decide) _).trans (Apart.trim _))
    exact hapart.subset hmem
  · rw [ofClause, Text.cut?_char_eq_none hbrace]
    exact ⟨hbrace, fun c hc => Text.not_blank_head_trim hc⟩

-- A clause with braces is read as it was written.
theorem ofClause_braces {front inner : List Char} (hfront : '\x7b' ∉ front)
    (hhead : ∀ c ∈ front.head?, Text.isBlank c = false) :
    ofClause (Text.trim (front ++ '\x7b' :: (inner ++ [' ', '\x7d']))) =
      { default := Text.trim (dropTrailing ',' (Text.trim front))
        items := ((inner ++ [' ']).splitOn ',').filterMap fun item =>
          match Text.trim item with
          | [] => none
          | item => some item } := by
  have hclose : Text.isBlank '\x7d' = false := by decide
  have htrim : Text.trim (front ++ '\x7b' :: (inner ++ [' ', '\x7d'])) =
      front ++ '\x7b' :: (inner ++ [' ', '\x7d']) := by
    refine Text.trim_eq_self (fun c hc => ?_) fun c hc => ?_
    · cases front with
      | nil =>
          obtain rfl : '\x7b' = c := Option.some.inj hc
          decide
      | cons d front => exact hhead c hc
    · have hlast : (front ++ '\x7b' :: (inner ++ [' ', '\x7d'])).getLast? = some '\x7d' := by
        rw [List.getLast?_append, List.getLast?_cons, List.getLast?_append]
        rfl
      rw [hlast] at hc
      exact Option.some.inj hc ▸ hclose
  have hinner : dropTrailing '\x7d' (Text.trimEnd (inner ++ [' ', '\x7d'])) = inner ++ [' '] := by
    rw [List.append_cons, Text.trimEnd_concat hclose, dropTrailing_concat_self,
      dropTrailing_concat_of_ne (by decide)]
  rw [htrim, ofClause, Text.cut?_char _ hfront]
  exact congrArg (fun text : List Char => ClauseParts.mk _ ((text.splitOn ',').filterMap _)) hinner

-- What stands before the braces of a clause that is written.
def lead (parts : ClauseParts) : List Char :=
  if parts.default = [] then [] else parts.default ++ [',', ' ']

theorem render_of_items {parts : ClauseParts} (h : parts.items ≠ []) :
    parts.render =
      parts.lead ++ '\x7b' :: (' ' :: ", ".toList.intercalate parts.items ++ [' ', '\x7d']) := by
  have hopen : "\x7b ".toList = ['\x7b', ' '] := by decide
  have hclose : " \x7d".toList = [' ', '\x7d'] := by decide
  have hbetween : ", ".toList = [',', ' '] := by decide
  unfold render lead
  rw [hopen, hclose, hbetween]
  dsimp only
  rw [if_neg h]
  split
  · rfl
  · simp

theorem lead_plain (parts : ClauseParts) (hbrace : '\x7b' ∉ parts.default)
    (hhead : ∀ c ∈ parts.default.head?, Text.isBlank c = false) :
    '\x7b' ∉ parts.lead ∧ ∀ c ∈ parts.lead.head?, Text.isBlank c = false := by
  unfold lead
  split
  · simp
  · rename_i hne
    rw [List.head?_append_of_ne_nil _ hne]
    exact ⟨by simpa using hbrace, hhead⟩

end ClauseParts

namespace Bare

variable {name : List Char}

theorem trim_eq (h : Bare name) : Text.trim name = name :=
  Text.trim_eq_self (fun c hc => (h.chars c (List.mem_of_mem_head? hc)).1)
    fun c hc => (h.chars c (List.mem_of_getLast? hc)).1

theorem noBrace (h : Bare name) : '\x7b' ∉ name := fun hmem => (h.chars _ hmem).2.2 rfl

theorem head (h : Bare name) : ∀ c ∈ name.head?, Text.isBlank c = false :=
  fun c hc => (h.chars c (List.mem_of_mem_head? hc)).1

-- Blanks around a name are trimmed.
theorem trim_between (h : Bare name) : Text.trim (' ' :: (name ++ [' '])) = name := by
  have hspace : ∀ c ∈ [' '], Text.isBlank c = true := by decide
  exact Text.trim_between hspace hspace h.head fun c hc => (h.chars c (List.mem_of_getLast? hc)).1

end Bare

-- A clause to which a name was added has it among its items.
theorem mem_items_of_added {parts : ClauseParts} {name : List Char} (hname : Bare name)
    (hbrace : '\x7b' ∉ parts.default) (hhead : ∀ c ∈ parts.default.head?, Text.isBlank c = false) :
    name ∈ (ClauseParts.ofClause
      (Text.trim { parts with items := parts.items ++ [name] }.render)).items := by
  obtain ⟨hfront, hfirst⟩ := ClauseParts.lead_plain
    { parts with items := parts.items ++ [name] } hbrace hhead
  rw [ClauseParts.render_of_items (by simp), ClauseParts.ofClause_braces hfront hfirst]
  refine List.mem_filterMap.mpr ⟨_, mem_splitOn_intercalate parts.items hname, ?_⟩
  rw [hname.trim_between]
  obtain ⟨c, rest, rfl⟩ := List.exists_cons_of_ne_nil hname.nonempty
  rfl

-- A clause to which a name was added as the default has it as the default.
theorem default_of_added (parts : ClauseParts) {name : List Char} (hname : Bare name) :
    (ClauseParts.ofClause (Text.trim { parts with default := name }.render)).default = name := by
  by_cases hitems : parts.items = []
  · have hrender : ClauseParts.render { parts with default := name } = name := by
      unfold ClauseParts.render
      rw [if_neg hname.nonempty, if_pos hitems]
    rw [hrender, hname.trim_eq, ClauseParts.ofClause, Text.cut?_char_eq_none hname.noBrace]
  · obtain ⟨hfront, hfirst⟩ := ClauseParts.lead_plain { parts with default := name }
      hname.noBrace hname.head
    have hrest : { parts with default := name }.items ≠ [] := hitems
    have hspace : ∀ c ∈ [' '], Text.isBlank c = true := by decide
    have hlast : ∀ c ∈ (name ++ [',']).getLast?, Text.isBlank c = false := fun c hc => by
      rw [List.getLast?_concat] at hc
      exact Option.some.inj hc ▸ by decide
    have hhead : ∀ c ∈ (name ++ [',']).head?, Text.isBlank c = false := fun c hc => by
      rw [List.head?_append_of_ne_nil _ hname.nonempty] at hc
      exact hname.head c hc
    have hcomma : ',' ∉ name := fun hmem => (hname.chars _ hmem).2.1 rfl
    rw [ClauseParts.render_of_items hrest, ClauseParts.ofClause_braces hfront hfirst,
      ClauseParts.lead, if_neg hname.nonempty, List.append_cons,
      Text.trim_append_blanks hspace hhead hlast, dropTrailing_concat_self,
      dropTrailing_of_not_mem hcomma, hname.trim_eq]

theorem mem_render {parts : ClauseParts} {c : Char} (h : c ∈ parts.render) :
    c ∈ parts.default ∨ (∃ item ∈ parts.items, c ∈ item) ∨ c ∈ [' ', ',', '\x7b', '\x7d'] := by
  have hbraces {c : Char} (h : c ∈ "\x7b ".toList ++ ", ".toList.intercalate parts.items ++
      " \x7d".toList) : (∃ item ∈ parts.items, c ∈ item) ∨ c ∈ [' ', ',', '\x7b', '\x7d'] := by
    have hopen : "\x7b ".toList ⊆ [' ', ',', '\x7b', '\x7d'] := by decide
    have hclose : " \x7d".toList ⊆ [' ', ',', '\x7b', '\x7d'] := by decide
    have hcommas : ", ".toList ⊆ [' ', ',', '\x7b', '\x7d'] := by decide
    simp only [List.mem_append] at h
    rcases h with (h | h) | h
    · exact .inr (hopen h)
    · exact (Text.mem_intercalate h).imp_right (hcommas ·)
    · exact .inr (hclose h)
  have hcommas : ", ".toList ⊆ [' ', ',', '\x7b', '\x7d'] := by decide
  unfold ClauseParts.render at h
  dsimp only at h
  split at h
  · exact .inr (hbraces h)
  split at h
  · exact .inl h
  · rw [List.append_assoc] at h
    rcases List.mem_append.mp h with h | h
    · exact .inl h
    · rcases List.mem_append.mp h with h | h
      · exact .inr (.inr (hcommas h))
      · exact .inr (hbraces h)

-- A clause that takes a name holds what it held and the name.
theorem mem_of_merged {clause merged : List Char} {known : KnownName} {c : Char}
    (h : merge clause known = .merged merged) (hc : c ∈ merged) :
    c ∈ Text.trim clause ∨ c ∈ known.name.toList ∨ c ∈ [' ', ',', '\x7b', '\x7d'] := by
  have hdefault := (apart_default (Text.trim clause)).subset
  have hitem {item : List Char} (hitem : item ∈ (ClauseParts.ofClause (Text.trim clause)).items)
      (hc : c ∈ item) : c ∈ Text.trim clause := (apart_item hitem).subset hc
  obtain ⟨_, ⟨_, _, rfl⟩ | ⟨_, rfl⟩⟩ := of_merged h
  · rcases mem_render hc with hc | ⟨item, hmem, hc⟩ | hc
    · exact .inr (.inl hc)
    · exact .inl (hitem hmem hc)
    · exact .inr (.inr hc)
  · rcases mem_render hc with hc | ⟨item, hmem, hc⟩ | hc
    · exact .inl (hdefault hc)
    · rcases List.mem_append.mp hmem with hmem | hmem
      · exact .inl (hitem hmem hc)
      · exact .inr (.inl (List.mem_singleton.mp hmem ▸ hc))
    · exact .inr (.inr hc)

-- A clause that takes a name has it afterwards.
theorem merge_of_merged {clause merged : List Char} {known : KnownName}
    (hname : Bare known.name.toList) (h : merge clause known = .merged merged) :
    merge merged known = .alreadyBound := by
  obtain ⟨hbrace, hhead⟩ := ClauseParts.default_ofClause clause
  obtain ⟨hstar, hmerged⟩ := of_merged h
  have hnoStar : '*' ∉ Text.trim merged := fun hmem => by
    rcases mem_of_merged h (Text.trim_subset merged hmem) with hc | hc | hc
    · exact hstar hc
    · exact hname.noStar hc
    · exact absurd hc (by decide)
  unfold merge
  dsimp only
  rw [if_neg hnoStar]
  rcases hmerged with ⟨hkind, _, rfl⟩ | ⟨hkind, rfl⟩
  · rw [if_pos hkind, if_pos (default_of_added _ hname)]
  · have hmem := mem_items_of_added hname hbrace hhead
    rw [if_neg (Bool.eq_false_iff.mp hkind),
      if_pos (List.any_eq_true.mpr ⟨_, hmem, by rw [beq_self_eq_true, Bool.true_or]⟩)]

-- A clause that takes a name does not stay as it was.
theorem ne_of_merged {clause merged : List Char} {known : KnownName}
    (hname : Bare known.name.toList) (h : merge clause known = .merged merged) :
    merged ≠ clause := by
  rintro rfl
  rw [merge_of_merged hname h] at h
  cases h

-- Whatever import is added, the script does not stay as it was.
theorem ne_of_addImport? {source fixed : List Char} {known : KnownName}
    (hname : Bare known.name.toList) (h : addImport? source known = some fixed) :
    fixed ≠ source := by
  unfold addImport? at h
  split at h
  · rename_i result hmerge
    obtain ⟨found, hfound, clause, hclause, ⟨rfl, _⟩ | ⟨merged, hmerged, rfl⟩⟩ :=
      exists_edited hmerge
    · cases h
    · obtain ⟨front, hsource, hstart, _, _⟩ := exists_of_importFrom hfound hclause
      have hbefore : source.take (source.length - clause.start.rest.length) = front := by
        rw [hstart, hsource, List.append_assoc, List.length_append, Nat.add_sub_cancel,
          List.take_left]
      rw [hbefore] at h
      intro heq
      rw [← Option.some.inj h, hsource, List.append_left_inj, List.append_right_inj] at heq
      exact ne_of_merged hname hmerged heq
  · intro heq
    have hlength := congrArg List.length ((Option.some.inj h).trans heq)
    have hpos : 0 < (statement known).toList.length := by
      obtain ⟨front, later, hstatement, _, _⟩ := apart_statement known
      rw [hstatement, List.length_append, List.length_append]
      have hname := List.length_pos_iff.mpr hname.nonempty
      omega
    simp only [List.length_append, List.length_drop] at hlength
    omega

end ImportPatch

end LivePreview
