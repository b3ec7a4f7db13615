import LivePreview.Proofs.Linking.Declarations

namespace LivePreview

namespace Text

theorem notMem_intercalate {c : Char} {between : List Char} {parts : List (List Char)}
    (hbetween : c ∉ between) (hparts : ∀ part ∈ parts, c ∉ part) :
    c ∉ between.intercalate parts := by
  intro h
  rcases mem_intercalate h with ⟨part, hpart, hc⟩ | hc
  · exact hparts part hpart hc
  · exact hbetween hc

-- A word with a character that stands nowhere else in the text stands in one place.
theorem existsUnique_split {word front back : List Char} {c : Char} (hword : c ∈ word)
    (hfront : c ∉ front) (hback : c ∉ back) :
    ∃! parts : List Char × List Char, front ++ (word ++ back) = parts.1 ++ (word ++ parts.2) := by
  refine ⟨(front, back), rfl, ?_⟩
  rintro ⟨other, behind⟩ (hsplit : front ++ (word ++ back) = other ++ (word ++ behind))
  have hcount := congrArg (List.count c) hsplit
  simp only [List.count_append, List.count_eq_zero_of_not_mem hfront,
    List.count_eq_zero_of_not_mem hback] at hcount
  have hother : c ∉ other := List.count_eq_zero.mp (by omega)
  obtain ⟨first, last, rfl, hfirst⟩ := List.eq_append_cons_of_mem hword
  have hplace : (front ++ first) ++ c :: (last ++ back) =
      (other ++ first) ++ c :: (last ++ behind) := by
    simpa only [List.append_assoc, List.cons_append] using hsplit
  have hahead {part : List Char} (hpart : c ∉ part) :
      ∀ d ∈ part ++ first, (fun d => d == c) d = false := by
    intro d hd
    have hne : d ≠ c := ne_of_mem_of_not_mem hd (List.not_mem_append hpart hfirst)
    simpa using hne
  obtain ⟨hsame, hrest⟩ := Script.Form.split_inj hplace (hahead hfront) (hahead hother)
    (beq_self_eq_true c) (beq_self_eq_true c)
  rw [List.append_cancel_right hsame, List.append_cancel_left hrest]

end Text

namespace Linking

-- A name that is declared, and what it is set to: a value or a field of it.
structure Reading where
  name : List Char
  value : Expression
  field? : Option (List Char)

def Target.readings (value : Expression) : Target → List Reading
  | name word => [⟨word, value, none⟩]
  | fields items => items.map fun item => ⟨item.newName, value, some item.name⟩

def Statement.readings : Statement → List Reading
  | evaluate _ => []
  | const target value => target.readings value

theorem Statement.map_name_readings (statement : Statement) :
    statement.readings.map Reading.name = statement.names := by
  cases statement with
  | evaluate value => rfl
  | const target value =>
      cases target with
      | name word => rfl
      | fields items =>
          simp only [readings, Target.readings, names, Target.names, List.map_map]
          rfl

namespace ImportClause

-- The clause has so many forms that the module is given a name first.
def temporary (clause : ImportClause) (count : Nat) : List (List Char) :=
  if 1 < clause.uses then [moduleName count] else []

-- The expression that the module is read through.
def module (clause : ImportClause) (id : String) (count : Nat) : Expression :=
  if 1 < clause.uses then .name (moduleName count) else .request id

-- What the names of the clause are to be read from: the default export through a function, and the
-- others each under its own name.
def readingsOf (clause : ImportClause) (module : Expression) : List Reading :=
  clause.default?.toList.map (⟨·, .default module, none⟩) ++
    clause.whole?.toList.map (⟨·, module, none⟩) ++
      clause.named.map fun item => ⟨item.newName, module, some item.name⟩

variable {clause : ImportClause} {id : String} {count : Nat}

theorem flatMap_readings (module : Expression) :
    (clause.readings module).flatMap Statement.readings = clause.readingsOf module := by
  have hnamed : (if clause.named = [] then [] else
      [Statement.const (.fields clause.named) module]).flatMap Statement.readings =
        clause.named.map fun item => ⟨item.newName, module, some item.name⟩ := by
    split
    · rename_i hnil
      rw [hnil]
      rfl
    · simp [Statement.readings, Target.readings]
  rw [readings, List.flatMap_append, List.flatMap_append, hnamed, readingsOf]
  cases clause.default? <;> cases clause.whole? <;> rfl

theorem readingsOf_eq_nil (h : clause.uses = 0) (module : Expression) :
    clause.readingsOf module = [] := by
  have hnames := names_eq_nil_of_uses h
  simp only [names, List.append_eq_nil_iff, Option.toList_eq_nil_iff, List.map_eq_nil_iff] at hnames
  obtain ⟨⟨hdefault, hwhole⟩, hnamed⟩ := hnames
  simp [readingsOf, hdefault, hwhole, hnamed]

theorem flatMap_statements (clause : ImportClause) (id : String) (count : Nat) :
    (clause.statements (.request id) count).flatMap Statement.readings =
      (clause.temporary count).map (⟨·, .request id, none⟩) ++
        clause.readingsOf (clause.module id count) := by
  unfold statements temporary module
  split
  · rename_i hnone
    rw [if_neg (by omega), if_neg (by omega), readingsOf_eq_nil hnone]
    rfl
  split
  · rename_i hone
    rw [if_neg (by omega), if_neg (by omega), flatMap_readings]
    rfl
  · rename_i hnone hone
    rw [if_pos (by omega), if_pos (by omega), List.flatMap_cons, flatMap_readings]
    rfl

theorem map_name_readingsOf (module : Expression) :
    (clause.readingsOf module).map Reading.name = clause.names := by
  simp [readingsOf, names, Function.comp_def]

end ImportClause

section Request

theorem IsName.quote_notMem {name : List Char} (h : IsName name) : '"' ∉ name :=
  h.not_mem (by decide)

theorem Target.quote_notMem {target : Target} (h : target.WellFormed) : '"' ∉ target.text := by
  cases target with
  | name word => exact IsName.quote_notMem h
  | fields items =>
      have hfield : ∀ part ∈ items.map Renaming.field, '"' ∉ part := by
        intro part hpart
        obtain ⟨item, hitem, rfl⟩ := List.mem_map.mp hpart
        obtain ⟨hname, hnew⟩ := h item hitem
        have hcolon : '"' ∉ ": ".toList := by decide
        unfold Renaming.field
        split
        · exact hname.quote_notMem
        · have hfront := List.not_mem_append hname.quote_notMem hcolon
          exact List.not_mem_append hfront hnew.quote_notMem
      have hopen : '"' ∉ "\x7b ".toList := by decide
      have hclose : '"' ∉ " \x7d".toList := by decide
      rw [text_fields]
      exact List.not_mem_append
        (List.not_mem_append hopen (Text.notMem_intercalate (by decide) hfield)) hclose

-- The text with the request in one place of it, and no quotation mark in others.
def Asks (id : String) (text : List Char) : Prop :=
  ∃ front back, text = front ++ (request id ++ back) ∧ '"' ∉ front ∧ '"' ∉ back

variable {id : String} {text : List Char}

theorem Asks.existsUnique (h : Asks id text) :
    ∃! parts : List Char × List Char, text = parts.1 ++ (request id ++ parts.2) := by
  obtain ⟨front, back, rfl, hfront, hback⟩ := h
  have hmark : '"' ∈ Text.quote id.toList := List.mem_append_left _ List.mem_cons_self
  have hquote : '"' ∈ request id := List.mem_append_left _ (List.mem_append_right _ hmark)
  exact Text.existsUnique_split hquote hfront hback

theorem Asks.surround (h : Asks id text) (front back : List Char) (hfront : '"' ∉ front)
    (hback : '"' ∉ back) : Asks id (front ++ (text ++ back)) := by
  obtain ⟨before, behind, rfl, hbefore, hbehind⟩ := h
  exact ⟨front ++ before, behind ++ back, by simp only [List.append_assoc],
    List.not_mem_append hfront hbefore, List.not_mem_append hbehind hback⟩

theorem asks_request (id : String) : Asks id (request id) :=
  ⟨[], [], (List.append_nil _).symm, List.not_mem_nil, List.not_mem_nil⟩

theorem asks_text_request (id : String) : Asks id (Expression.request id).text := asks_request id

theorem asks_text_default (id : String) : Asks id (Expression.default (.request id)).text := by
  rw [Expression.text_default, List.append_assoc]
  exact (asks_text_request id).surround _ _ (by decide) (by decide)

theorem Statement.asks_const (target : Target) {value : Expression} (htarget : target.WellFormed)
    (h : Asks id value.text) : Asks id (Statement.const target value).text := by
  have hfront : '"' ∉ "const ".toList ++ target.text ++ " = ".toList :=
    List.not_mem_append (List.not_mem_append (by decide) (Target.quote_notMem htarget)) (by decide)
  have hsurround := h.surround _ [';'] hfront (by decide)
  rwa [← List.append_assoc] at hsurround

theorem Statement.quote_notMem_const (target : Target) {value : Expression}
    (htarget : target.WellFormed) (h : '"' ∉ value.text) :
    '"' ∉ (Statement.const target value).text := by
  rw [text_const]
  have hconst : '"' ∉ "const ".toList ++ target.text :=
    List.not_mem_append (by decide) (Target.quote_notMem htarget)
  have hsign : '"' ∉ " = ".toList := by decide
  have hvalue := List.not_mem_append (List.not_mem_append hconst hsign) h
  exact List.not_mem_append hvalue (by decide)

end Request

namespace ImportClause

variable {clause : ImportClause}

-- What is read through a name has no quotation mark in it.
theorem quote_notMem_readings (h : clause.WellFormed) {word : List Char} (hword : IsName word) :
    ∀ statement ∈ clause.readings (.name word), '"' ∉ statement.text := by
  have hvalue : '"' ∉ (Expression.name word).text := hword.quote_notMem
  have hdefault : '"' ∉ (Expression.default (.name word)).text := by
    rw [Expression.text_default]
    exact List.not_mem_append (List.not_mem_append (by decide) hvalue) (by decide)
  intro statement hstatement
  simp only [readings, List.mem_append, List.mem_map, Option.mem_toList] at hstatement
  rcases hstatement with (⟨name, hname, rfl⟩ | ⟨name, hname, rfl⟩) | hfields
  · exact Statement.quote_notMem_const (.name name) (h.default? name hname) hdefault
  · exact Statement.quote_notMem_const (.name name) (h.whole? name hname) hvalue
  · split at hfields
    · cases hfields
    · obtain rfl := List.mem_singleton.mp hfields
      exact Statement.quote_notMem_const (.fields clause.named) h.named hvalue

-- A clause of one form is one statement.
theorem exists_readings_singleton (h : clause.WellFormed) (huses : clause.uses = 1) (id : String) :
    ∃ statement, clause.readings (.request id) = [statement] ∧ Asks id statement.text := by
  unfold uses at huses
  unfold readings
  cases hdefault : clause.default? with
  | some name =>
      have hothers : clause.whole? = none ∧ clause.named = [] := by
        cases hwhole : clause.whole? <;> by_cases hnamed : clause.named = [] <;> simp_all
      rw [hothers.1, hothers.2]
      exact ⟨_, rfl,
        Statement.asks_const (.name name) (h.default? name hdefault) (asks_text_default id)⟩
  | none =>
      cases hwhole : clause.whole? with
      | some name =>
          have hnamed : clause.named = [] := by
            by_cases hnamed : clause.named = [] <;> simp_all
          rw [hnamed]
          exact ⟨_, rfl,
            Statement.asks_const (.name name) (h.whole? name hwhole) (asks_text_request id)⟩
      | none =>
          have hnamed : clause.named ≠ [] := by
            rintro hnil
            simp [hdefault, hwhole, hnil] at huses
          rw [if_neg hnamed]
          exact ⟨_, rfl,
            Statement.asks_const (.fields clause.named) h.named (asks_text_request id)⟩

theorem asks_render (h : clause.WellFormed) (id : String) (count : Nat) :
    Asks id (clause.render (request id) count) := by
  have hrender := render_eq clause (.request id) count
  have hnone : '"' ∉ ([] : List Char) := List.not_mem_nil
  rw [show (Expression.request id).text = request id from rfl] at hrender
  rw [hrender, statements]
  split
  · rw [List.map_singleton, List.intercalate_singleton]
    exact (asks_request id).surround [] [';'] hnone (by decide)
  split
  · rename_i hone
    obtain ⟨statement, hstatement, hasks⟩ := exists_readings_singleton h hone id
    rwa [hstatement, List.map_singleton, List.intercalate_singleton]
  · have hname := isName_moduleName count
    have hfirst := Statement.asks_const (.name (moduleName count)) hname (asks_text_request id)
    have hlater : '"' ∉ [' '].intercalate
        ((clause.readings (.name (moduleName count))).map Statement.text) := by
      refine Text.notMem_intercalate (by decide) fun part hpart => ?_
      obtain ⟨statement, hstatement, rfl⟩ := List.mem_map.mp hpart
      exact quote_notMem_readings h hname statement hstatement
    rw [List.map_cons]
    by_cases hnil : (clause.readings (.name (moduleName count))).map Statement.text = []
    · rw [hnil, List.intercalate_singleton]
      exact hfirst
    · rw [List.intercalate_cons_of_ne_nil hnil, List.append_assoc]
      exact hfirst.surround [] _ hnone (List.not_mem_append (by decide) hlater)

end ImportClause

namespace Clause

-- What a text that spells the clause is to be read as.
def read (clause : Clause) : ImportClause :=
  ⟨clause.default?, clause.whole?, clause.items.filterMap Item.binding?⟩

-- A clause is read as what it spells, without its types, and it asks for the exports that it names.
-- What is rendered sets each name of the clause, the default export being read through a function
-- and the others under their own names, and it asks for the module in one place. In front of them it
-- sets the name of the module, if the clause has several forms.
theorem render_spelled {clause : Clause} {text : List Char} (h : clause.Spelled text)
    (hspaced : ∀ item ∈ clause.items, item.Spaced) :
    ImportClause.parse text = clause.read ∧
    (ImportClause.parse text).required =
      (clause.items.filterMap Item.binding?).map (fun binding => String.ofList binding.name) ++
        (if clause.default?.isSome then ["default"] else []) ∧
    ∀ (id : String) (count : Nat), ∃ statements : List Statement,
      (ImportClause.parse text).render (request id) count =
        [' '].intercalate (statements.map Statement.text) ∧
      statements.flatMap Statement.readings =
        (clause.read.temporary count).map (⟨·, .request id, none⟩) ++
          clause.read.readingsOf (clause.read.module id count) ∧
      (∀ name ∉ clause.read.temporary count,
        (statements.flatMap Statement.names).count name = clause.names.count name) ∧
      ∃! parts : List Char × List Char,
        (ImportClause.parse text).render (request id) count =
          parts.1 ++ (request id ++ parts.2) := by
  have hparse : ImportClause.parse text = clause.read := parse_of_spaced h hspaced
  have hwell : clause.read.WellFormed := hparse ▸ wellFormed_parse h hspaced
  rw [hparse]
  refine ⟨rfl, rfl, fun id count => ⟨clause.read.statements (.request id) count,
    clause.read.render_eq (.request id) count, ImportClause.flatMap_statements _ id count,
    fun name hname => ?_, (ImportClause.asks_render hwell id count).existsUnique⟩⟩
  have hnames : (clause.read.statements (.request id) count).flatMap Statement.names =
      clause.read.temporary count ++ clause.names := by
    have hreadings := congrArg (List.map Reading.name)
      (ImportClause.flatMap_statements clause.read id count)
    simp only [List.map_flatMap, List.map_append, ImportClause.map_name_readingsOf, List.map_map,
      Statement.map_name_readings, Function.comp_def, List.map_id'] at hreadings
    exact hreadings
  rw [hnames, List.count_append, List.count_eq_zero_of_not_mem hname, Nat.zero_add]

-- Names that begin like the words of a clause, a type among them, and a comma at the end.
def reactClause : Clause :=
  ⟨some "React".toList, some (.list [.type [' '] "FC".toList,
    .renamed "asset".toList [' '] [' '] "as".toList, .plain "typed".toList])⟩

theorem render_spelled_react :
    reactClause.Spelled "React ,\x7btype FC, asset as as ,\n typed, \x7d ".toList ∧
      (∀ item ∈ reactClause.items, item.Spaced) ∧
      (ImportClause.parse "React ,\x7btype FC, asset as as ,\n typed, \x7d ".toList).required =
        ["asset", "typed", "default"] ∧
      ∃ statements : List Statement,
        (ImportClause.parse "React ,\x7btype FC, asset as as ,\n typed, \x7d ".toList).render
            (request "react") 1 = [' '].intercalate (statements.map Statement.text) ∧
          (statements.flatMap Statement.names).count "as".toList = 1 := by
  have hreact : IsName "React".toList := ⟨by decide, by decide⟩
  have hasset : IsName "asset".toList ∧ IsName "as".toList :=
    ⟨⟨by decide, by decide⟩, by decide, by decide⟩
  have htyped : IsName "typed".toList := ⟨by decide, by decide⟩
  have htype : IsName "FC".toList := ⟨by decide, by decide⟩
  have hspace : ∀ c ∈ [' '], Text.isBlank c = true := by decide
  have hline : ∀ c ∈ "\n ".toList, Text.isBlank c = true := by decide
  have hnone : ∀ c ∈ ([] : List Char), Text.isBlank c = true := List.forall_mem_nil _
  have hgap : ImportPatch.IsGap [' '] := ⟨by decide, hspace⟩
  have hfirst : (Item.type [' '] "FC".toList).WellFormed :=
    ⟨by simpa [Item.names] using htype, by simpa [Item.gaps] using hgap⟩
  have hsecond : (Item.renamed "asset".toList [' '] [' '] "as".toList).WellFormed :=
    ⟨by simpa [Item.names] using hasset, by simpa [Item.gaps] using hgap⟩
  have hthird : (Item.plain "typed".toList).WellFormed :=
    ⟨by simpa [Item.names] using htyped, by simp [Item.gaps]⟩
  have hlast := Itemized.cons hthird hline hnone (.nil hspace)
  have hitems := Itemized.cons hfirst hnone hnone (Itemized.cons hsecond hspace hspace hlast)
  have hcore := Core.both hreact hspace hnone (.list hitems)
  have hspelled : reactClause.Spelled "React ,\x7btype FC, asset as as ,\n typed, \x7d ".toList :=
    ⟨[], _, [' '], rfl, hcore, hnone, hspace⟩
  have hspaced : ∀ item ∈ reactClause.items, item.Spaced := by
    simp [reactClause, items, Item.Spaced]
  obtain ⟨_, hrequired, hrender⟩ := render_spelled hspelled hspaced
  obtain ⟨statements, htext, _, hcount, _⟩ := hrender "react" 1
  refine ⟨hspelled, hspaced, hrequired, statements, htext, (hcount _ ?_).trans ?_⟩
  · decide +kernel
  · decide +kernel

-- A name that is spelled like the name of the module is declared twice.
def clashingClause : Clause := ⟨some "__forge_m1".toList, some (.list [.plain ['a']])⟩

theorem render_redeclares :
    clashingClause.Spelled "__forge_m1, \x7b a \x7d".toList ∧
      (∀ item ∈ clashingClause.items, item.Spaced) ∧ clashingClause.names.Nodup ∧
      (ImportClause.parse "__forge_m1, \x7b a \x7d".toList).render (request "lib.js") 1 =
        ("const __forge_m1 = __forge_require(\"lib.js\"); " ++
          "const __forge_m1 = __forge_default(__forge_m1); const \x7b a \x7d = __forge_m1;").toList ∧
      ∃ statements : List Statement,
        (ImportClause.parse "__forge_m1, \x7b a \x7d".toList).render (request "lib.js") 1 =
          [' '].intercalate (statements.map Statement.text) ∧
        (statements.flatMap Statement.names).count "__forge_m1".toList = 2 := by
  have hm : IsName "__forge_m1".toList := ⟨by decide, by decide⟩
  have ha : IsName ['a'] := ⟨by decide, by decide⟩
  have hspace : ∀ c ∈ [' '], Text.isBlank c = true := by decide
  have hnone : ∀ c ∈ ([] : List Char), Text.isBlank c = true := List.forall_mem_nil _
  have hplain : (Item.plain ['a']).WellFormed :=
    ⟨by simpa [Item.names] using ha, by simp [Item.gaps]⟩
  have hcore := Core.both hm hnone hspace (.list (.single hplain hspace hspace))
  refine ⟨⟨[], _, [], rfl, hcore, hnone, hnone⟩, ?_, by decide +kernel, by decide +kernel,
    clashingClause.read.statements (.request "lib.js") 1, ?_, ?_⟩
  · simp [clashingClause, items, Item.Spaced]
  · decide +kernel
  · decide +kernel

end Clause

end Linking

end LivePreview
