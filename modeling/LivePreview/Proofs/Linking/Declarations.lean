import LivePreview.Linking.ScriptBody
import LivePreview.Proofs.Diagnosis.KnownNames
import LivePreview.Proofs.Linking.Grammar
import LivePreview.Proofs.Linking.Replacements

namespace LivePreview.Linking

-- What the statements are made of that take the place of an import.
inductive Expression where
  | name (word : List Char)
  | request (id : String)
  | default (module : Expression)
  | empty

inductive Target where
  | name (word : List Char)
  | fields (items : List Renaming)

inductive Statement where
  | evaluate (value : Expression)
  | const (target : Target) (value : Expression)

def Expression.text : Expression → List Char
  | name word => word
  | request id => Linking.request id
  | default module => "__forge_default(".toList ++ module.text ++ [')']
  | empty => "\x7b\x7d".toList

theorem Expression.text_default (module : Expression) :
    (default module).text = "__forge_default(".toList ++ module.text ++ [')'] := rfl

namespace Target

def text : Target → List Char
  | name word => word
  | fields items => "\x7b ".toList ++ ", ".toList.intercalate (items.map Renaming.field) ++ " \x7d".toList

theorem text_fields (items : List Renaming) :
    (fields items).text =
      "\x7b ".toList ++ ", ".toList.intercalate (items.map Renaming.field) ++ " \x7d".toList := rfl

-- The names that the target binds.
def names : Target → List (List Char)
  | name word => [word]
  | fields items => items.map (·.newName)

-- All that stands where a name should is one.
def WellFormed : Target → Prop
  | name word => IsName word
  | fields items => ∀ item ∈ items, IsName item.name ∧ IsName item.newName

end Target

namespace Statement

def text : Statement → List Char
  | evaluate value => value.text ++ [';']
  | const target value => "const ".toList ++ target.text ++ " = ".toList ++ value.text ++ [';']

theorem text_const (target : Target) (value : Expression) :
    (const target value).text =
      "const ".toList ++ target.text ++ " = ".toList ++ value.text ++ [';'] := rfl

def names : Statement → List (List Char)
  | evaluate _ => []
  | const target _ => target.names

def WellFormed : Statement → Prop
  | evaluate _ => True
  | const target _ => target.WellFormed

end Statement

-- The text is statements, and they bind the names.
def Declares (text : List Char) (names : List (List Char)) : Prop :=
  ∃ statements : List Statement, (∀ statement ∈ statements, statement.WellFormed) ∧
    text = [' '].intercalate (statements.map Statement.text) ∧
      ∀ name ∈ names, ∃ statement ∈ statements, name ∈ statement.names

theorem Target.infix_of_mem_names {target : Target} {name : List Char} (h : name ∈ target.names) :
    name <:+: target.text := by
  cases target with
  | name word =>
      rw [List.mem_singleton.mp h]
      exact List.infix_rfl
  | fields items =>
      obtain ⟨item, hitem, rfl⟩ := List.mem_map.mp h
      have hpart : item.newName <:+: item.field := by
        unfold Renaming.field
        split
        · rename_i hsame
          rw [hsame]
        · exact (List.suffix_append _ _).isInfix
      exact (hpart.trans (infix_intercalate _ (List.mem_map_of_mem hitem))).trans
        ⟨"\x7b ".toList, " \x7d".toList, rfl⟩

-- A text that declares a name holds it.
theorem Declares.infix {text : List Char} {names : List (List Char)} (h : Declares text names)
    {name : List Char} (hname : name ∈ names) : name <:+: text := by
  obtain ⟨statements, _, rfl, hbound⟩ := h
  obtain ⟨statement, hstatement, hmem⟩ := hbound name hname
  refine List.IsInfix.trans ?_ (infix_intercalate _ (List.mem_map_of_mem hstatement))
  cases statement with
  | evaluate value => cases hmem
  | const target value =>
      have htarget : target.text <:+: (Statement.const target value).text := by
        refine ⟨"const ".toList, " = ".toList ++ (value.text ++ [';']), ?_⟩
        rw [Statement.text_const]
        simp only [List.append_assoc]
      exact (Target.infix_of_mem_names hmem).trans htarget

namespace ImportClause

def names (clause : ImportClause) : List (List Char) :=
  clause.default?.toList ++ clause.whole?.toList ++ clause.named.map (·.newName)

structure WellFormed (clause : ImportClause) : Prop where
  default? : ∀ name ∈ clause.default?, IsName name
  whole? : ∀ name ∈ clause.whole?, IsName name
  named : ∀ item ∈ clause.named, IsName item.name ∧ IsName item.newName

-- The statements that read what the clause binds from a module.
def readings (clause : ImportClause) (module : Expression) : List Statement :=
  clause.default?.toList.map (fun name => .const (.name name) (.default module)) ++
    clause.whole?.toList.map (fun name => .const (.name name) module) ++
      if clause.named = [] then [] else [.const (.fields clause.named) module]

-- The name that a module gets when it is read in several forms.
def moduleName (count : Nat) : List Char := "__forge_m".toList ++ (toString count).toList

def statements (clause : ImportClause) (module : Expression) (count : Nat) : List Statement :=
  if clause.uses = 0 then [.evaluate module]
  else if clause.uses = 1 then clause.readings module
  else .const (.name (moduleName count)) module :: clause.readings (.name (moduleName count))

variable (clause : ImportClause) (module : Expression)

theorem declarations_eq :
    clause.declarations module.text = (clause.readings module).map Statement.text := by
  have hdefault (name : List Char) :
      "const ".toList ++ name ++ " = __forge_default(".toList ++ module.text ++ ");".toList =
        (Statement.const (.name name) (.default module)).text := by
    have hopen : " = __forge_default(".toList = " = ".toList ++ "__forge_default(".toList := by decide
    have hclose : ");".toList = [')'] ++ [';'] := by decide
    rw [hopen, hclose, Statement.text_const, Expression.text_default]
    simp only [Target.text, List.append_assoc]
  have hwhole (name : List Char) :
      "const ".toList ++ name ++ " = ".toList ++ module.text ++ ";".toList =
        (Statement.const (.name name) module).text := rfl
  have hfields :
      "const \x7b ".toList ++ ", ".toList.intercalate (clause.named.map Renaming.field) ++
          " \x7d = ".toList ++ module.text ++ ";".toList =
        (Statement.const (.fields clause.named) module).text := by
    have hopen : "const \x7b ".toList = "const ".toList ++ "\x7b ".toList := by decide
    have hclose : " \x7d = ".toList = " \x7d".toList ++ " = ".toList := by decide
    have hend : ";".toList = [';'] := by decide
    rw [hopen, hclose, hend, Statement.text_const, Target.text_fields]
    simp only [List.append_assoc]
  unfold declarations readings
  dsimp only
  rw [hfields]
  simp only [hdefault, hwhole, List.map_append, List.map_map, Function.comp_def]
  split <;> rfl

theorem render_eq (count : Nat) :
    clause.render module.text count =
      [' '].intercalate ((clause.statements module count).map Statement.text) := by
  have hbinding : "const ".toList ++ moduleName count ++ " = ".toList ++ module.text ++ [';'] =
      (Statement.const (.name (moduleName count)) module).text := rfl
  have hdeclarations : clause.declarations (moduleName count) =
      (clause.readings (.name (moduleName count))).map Statement.text :=
    declarations_eq clause (.name (moduleName count))
  unfold render statements
  split
  · rw [List.map_singleton, List.intercalate_singleton]
    rfl
  · split
    · rw [declarations_eq]
    · exact congrArg [' '].intercalate (congrArg₂ List.cons hbinding hdeclarations)

theorem isName_moduleName (count : Nat) : IsName (moduleName count) := by
  have hword : ∀ c ∈ "__forge_m".toList, inIdentifier c = true := by decide
  have hdigits : (toString count).toList = Nat.toDigits 10 count := Nat.toList_repr
  refine ⟨List.append_ne_nil_of_left_ne_nil (by decide) _, fun c hc => ?_⟩
  rcases List.mem_append.mp hc with hc | hc
  · exact hword c hc
  · rw [hdigits] at hc
    have hdigit : c.isDigit = true := Nat.isDigit_of_mem_toDigits (by decide) (by decide) hc
    have halphanum : c.isAlphanum = true := by rw [Char.isAlphanum, hdigit, Bool.or_true]
    rw [inIdentifier, Text.isWordCharacter_of_isAlphanum halphanum, Bool.true_or]

theorem wellFormed_readings {clause : ImportClause} (h : clause.WellFormed) :
    ∀ statement ∈ clause.readings module, statement.WellFormed := by
  intro statement hstatement
  simp only [readings, List.mem_append, List.mem_map, Option.mem_toList] at hstatement
  rcases hstatement with (⟨name, hname, rfl⟩ | ⟨name, hname, rfl⟩) | hfields
  · exact h.default? name hname
  · exact h.whole? name hname
  · split at hfields
    · cases hfields
    · rw [List.mem_singleton.mp hfields]
      exact h.named

-- The statements that read from a module bind all that the clause does.
theorem exists_mem_readings {clause : ImportClause} {name : List Char} (h : name ∈ clause.names) :
    ∃ statement ∈ clause.readings module, name ∈ statement.names := by
  simp only [names, List.mem_append, Option.mem_toList] at h
  rcases h with (hdefault | hwhole) | hnamed
  · refine ⟨.const (.name name) (.default module), ?_, List.mem_singleton_self name⟩
    exact List.mem_append_left _ (List.mem_append_left _
      (List.mem_map.mpr ⟨name, Option.mem_toList.mpr hdefault, rfl⟩))
  · refine ⟨.const (.name name) module, ?_, List.mem_singleton_self name⟩
    exact List.mem_append_left _ (List.mem_append_right _
      (List.mem_map.mpr ⟨name, Option.mem_toList.mpr hwhole, rfl⟩))
  · have hne : clause.named ≠ [] := by
      rintro hnil
      rw [hnil] at hnamed
      cases hnamed
    refine ⟨.const (.fields clause.named) module, ?_, hnamed⟩
    rw [readings, if_neg hne]
    exact List.mem_append_right _ (List.mem_singleton_self _)

theorem names_eq_nil_of_uses {clause : ImportClause} (h : clause.uses = 0) : clause.names = [] := by
  have hparts : clause.default? = none ∧ clause.whole? = none ∧ clause.named = [] := by
    unfold uses at h
    split at h
    · rename_i hnamed
      refine ⟨?_, ?_, hnamed⟩
      · cases hdefault : clause.default? <;> simp_all
      · cases hwhole : clause.whole? <;> simp_all
    · omega
  simp [names, hparts]

-- What takes the place of an import declares all that its clause binds.
theorem declares_render {clause : ImportClause} (h : clause.WellFormed) (count : Nat) :
    Declares (clause.render module.text count) clause.names := by
  refine ⟨clause.statements module count, ?_, render_eq clause module count, ?_⟩
  · unfold statements
    split
    · simp [Statement.WellFormed]
    · split
      · exact wellFormed_readings module h
      · exact List.forall_mem_cons.mpr ⟨isName_moduleName count, wellFormed_readings _ h⟩
  · intro name hname
    unfold statements
    split
    · rename_i huses
      rw [names_eq_nil_of_uses huses] at hname
      cases hname
    · split
      · exact exists_mem_readings module hname
      · obtain ⟨statement, hstatement, hmem⟩ :=
          exists_mem_readings (.name (moduleName count)) hname
        exact ⟨statement, List.mem_cons_of_mem _ hstatement, hmem⟩

-- What takes the place of an import of a style sheet declares one name: the default, if there is one,
-- or else the module as a whole.
theorem declares_renderStyle {clause : ImportClause} (h : clause.WellFormed) :
    Declares clause.renderStyle (clause.default?.or clause.whole?).toList := by
  unfold renderStyle
  split
  · rename_i name hname
    refine ⟨[.const (.name name) .empty], List.forall_mem_singleton.mpr ?_, ?_, ?_⟩
    · rcases Option.or_eq_some_iff.mp hname with hdefault | ⟨_, hwhole⟩
      · exact h.default? name hdefault
      · exact h.whole? name hwhole
    · have hclose : " = \x7b\x7d;".toList = " = ".toList ++ ("\x7b\x7d".toList ++ [';']) := by decide
      rw [hclose, List.map_singleton, List.intercalate_singleton, Statement.text_const]
      simp only [List.append_assoc]
      rfl
    · rw [hname]
      exact fun other hother => ⟨_, List.mem_singleton_self _, hother⟩
  · rename_i hnone
    rw [hnone]
    exact ⟨[], List.forall_mem_nil _, rfl, List.forall_mem_nil _⟩

end ImportClause

section Clause

variable {clause : Clause} {text : List Char}

theorem Item.wellFormed_binding {item : Item} (h : item.WellFormed) {binding : Renaming}
    (hbinding : item.binding? = some binding) : IsName binding.name ∧ IsName binding.newName := by
  cases item with
  | plain name =>
      cases hbinding
      exact ⟨h.names name (by simp [names]), h.names name (by simp [names])⟩
  | renamed name gap gap' newName =>
      cases hbinding
      exact ⟨h.names name (by simp [names]), h.names newName (by simp [names])⟩
  | type gap name => cases hbinding

theorem Clause.Spelled.isName_default (h : clause.Spelled text) :
    ∀ name ∈ clause.default?, IsName name := by
  obtain ⟨_, core, _, _, hcore, _, _⟩ := h
  cases hcore with
  | nothing => nofun
  | default hname => exact fun name hmem => Option.some.inj hmem ▸ hname
  | forms => nofun
  | both hname => exact fun name hmem => Option.some.inj hmem ▸ hname

theorem Clause.Spelled.forms (h : clause.Spelled text) :
    (∀ name ∈ clause.whole?, IsName name) ∧ ∀ item ∈ clause.items, item.WellFormed := by
  have hforms {default? : Option (List Char)} {forms : Forms} {rest : List Char}
      (h : forms.Spelled rest) :
      (∀ name ∈ (Clause.mk default? (some forms)).whole?, IsName name) ∧
        ∀ item ∈ (Clause.mk default? (some forms)).items, item.WellFormed := by
    cases h with
    | whole hname => exact ⟨fun name hmem => Option.some.inj hmem ▸ hname, List.forall_mem_nil _⟩
    | list hlist => exact ⟨nofun, hlist.wellFormed⟩
  obtain ⟨_, core, _, _, hcore, _, _⟩ := h
  cases hcore with
  | nothing => exact ⟨nofun, List.forall_mem_nil _⟩
  | default => exact ⟨nofun, List.forall_mem_nil _⟩
  | forms h => exact hforms h
  | both _ _ _ h => exact hforms h

-- A clause whose words are spaced as they should be is read as what it binds.
theorem parse_of_spaced (h : clause.Spelled text) (hspaced : ∀ item ∈ clause.items, item.Spaced) :
    ImportClause.parse text =
      ⟨clause.default?, clause.whole?, clause.items.filterMap Item.binding?⟩ := by
  have hitems : clause.items.filterMap (fun item => Renaming.ofItem? item.text) =
      clause.items.filterMap Item.binding? :=
    List.filterMap_congr fun item hitem =>
      Renaming.ofItem?_text (h.forms.2 item hitem) (hspaced item hitem)
  rw [parse_of_spelled h, hitems]

theorem wellFormed_parse (h : clause.Spelled text) (hspaced : ∀ item ∈ clause.items, item.Spaced) :
    (ImportClause.parse text).WellFormed := by
  rw [parse_of_spaced h hspaced]
  refine ⟨h.isName_default, h.forms.1, fun binding hbinding => ?_⟩
  obtain ⟨item, hitem, hsome⟩ := List.mem_filterMap.mp hbinding
  exact Item.wellFormed_binding (h.forms.2 item hitem) hsome

end Clause

-- Whatever a module is, the text that takes the place of its import declares every value that the
-- clause binds. A style sheet is in no registry: of its import one name is left.
theorem Replacement.declares_ofImport {registered? : String → Option String} {count : Nat}
    {found : Pattern.Match} {clause : Clause} (hvalue : found.has 1 = false)
    (hclause : clause.Spelled (found.group 2)) (hspaced : ∀ item ∈ clause.items, item.Spaced) :
    (∀ id, registered? (String.ofList (found.group 3)) = some id →
        Declares (ofImport registered? count found).text clause.names) ∧
      (registered? (String.ofList (found.group 3)) = none →
        Declares (ofImport registered? count found).text
          (clause.default?.or clause.whole?).toList) := by
  have hwell := wellFormed_parse hclause hspaced
  have hparse := parse_of_spaced hclause hspaced
  constructor
  · intro id hid
    have htext : (ofImport registered? count found).text =
        (ImportClause.parse (found.group 2)).render (Expression.request id).text (count + 1) := by
      unfold ofImport
      rw [if_neg (by simp [hvalue])]
      dsimp only
      rw [hid]
      rfl
    have hnames : clause.names = (ImportClause.parse (found.group 2)).names := by
      rw [hparse]
      rfl
    rw [htext, hnames]
    exact ImportClause.declares_render _ hwell _
  · intro hnone
    have htext : (ofImport registered? count found).text =
        (ImportClause.parse (found.group 2)).renderStyle := by
      unfold ofImport
      rw [if_neg (by simp [hvalue])]
      dsimp only
      rw [hnone]
    have hnames : clause.default?.or clause.whole? =
        (ImportClause.parse (found.group 2)).default?.or
          (ImportClause.parse (found.group 2)).whole? := by
      rw [hparse]
    rw [htext, hnames]
    exact ImportClause.declares_renderStyle hwell

-- A script that imports from a sibling and from a style sheet.
def mixedImports : Sources := .ofList
  [("main.js", "import d, \x7b type T, a as b \x7d from './lib.js'\nimport e, * as sheet from './a.css'"),
    ("lib.js", "export default 1;\nexport const a = 2"), ("a.css", "b\x7b\x7d")]

def siblingClause : Clause :=
  ⟨some ['d'], some (.list [.type [' '] ['T'], .renamed ['a'] [' '] [' '] ['b']])⟩

def sheetClause : Clause := ⟨some ['e'], some (.whole "sheet".toList)⟩

theorem spelled_siblingClause : siblingClause.Spelled "d, \x7b type T, a as b \x7d".toList := by
  have hd : IsName ['d'] := ⟨by decide, by decide⟩
  have hspace : ∀ c ∈ [' '], Text.isBlank c = true := by decide
  have hgap : ImportPatch.IsGap [' '] := ⟨by decide, hspace⟩
  have htype : (Item.type [' '] ['T']).WellFormed :=
    ⟨by simpa [Item.names] using ⟨by decide, by decide⟩, by simpa [Item.gaps] using hgap⟩
  have hrenamed : (Item.renamed ['a'] [' '] [' '] ['b']).WellFormed := by
    refine ⟨?_, by simpa [Item.gaps] using hgap⟩
    simpa [Item.names] using ⟨⟨by decide, by decide⟩, by decide, by decide⟩
  exact ⟨[], _, [], rfl, .both hd (List.forall_mem_nil _) hspace
    (.list (.cons htype hspace (List.forall_mem_nil _) (.single hrenamed hspace hspace))),
    List.forall_mem_nil _, List.forall_mem_nil _⟩

theorem spelled_sheetClause : sheetClause.Spelled "e, * as sheet".toList := by
  have he : IsName ['e'] := ⟨by decide, by decide⟩
  have hsheet : IsName "sheet".toList := ⟨by decide, by decide⟩
  have hspace : ∀ c ∈ [' '], Text.isBlank c = true := by decide
  exact ⟨[], _, [], rfl, .both he (List.forall_mem_nil _) hspace
    (.whole hsheet hspace ⟨by decide, hspace⟩), List.forall_mem_nil _, List.forall_mem_nil _⟩

theorem mixedImports_found :
    (Script.Form.importStatement.findAll
        "import d, \x7b type T, a as b \x7d from './lib.js'\nimport e, * as sheet from './a.css'".toList).map
      (fun found => (found.has 1, found.group 2, String.ofList (found.group 3))) =
      [(false, "d, \x7b type T, a as b \x7d".toList, "./lib.js"),
        (false, "e, * as sheet".toList, "./a.css")] := by
  decide +kernel

theorem declares_ofImport_sibling :
    ∃ found ∈ Script.Form.importStatement.findAll
        "import d, \x7b type T, a as b \x7d from './lib.js'\nimport e, * as sheet from './a.css'".toList,
      found.has 1 = false ∧ siblingClause.Spelled (found.group 2) ∧
        (∀ item ∈ siblingClause.items, item.Spaced) ∧
          registered? mixedImports "main.js" (String.ofList (found.group 3)) = some "lib.js" ∧
            Declares (Replacement.ofImport (registered? mixedImports "main.js") 0 found).text
              ["d".toList, "b".toList] := by
  obtain ⟨found, _, hfound, hparts, _⟩ := List.map_eq_cons_iff.mp mixedImports_found
  obtain ⟨hvalue, hclause, hname⟩ := by simpa only [Prod.mk.injEq] using hparts
  have hspelled : siblingClause.Spelled (found.group 2) := hclause ▸ spelled_siblingClause
  have hspaced : ∀ item ∈ siblingClause.items, item.Spaced := by
    simp [siblingClause, Clause.items, Item.Spaced]
  have hid : registered? mixedImports "main.js" (String.ofList (found.group 3)) = some "lib.js" := by
    rw [hname]
    decide +kernel
  exact ⟨found, hfound ▸ List.mem_cons_self, hvalue, hspelled, hspaced, hid,
    (Replacement.declares_ofImport hvalue hspelled hspaced).1 "lib.js" hid⟩

-- The import of the style sheet binds two names, and one of them is lost.
theorem ofImport_drops_sheet :
    ∃ found ∈ Script.Form.importStatement.findAll
        "import d, \x7b type T, a as b \x7d from './lib.js'\nimport e, * as sheet from './a.css'".toList,
      found.has 1 = false ∧ sheetClause.Spelled (found.group 2) ∧
        (∀ item ∈ sheetClause.items, item.Spaced) ∧
          ¬Declares (Replacement.ofImport (registered? mixedImports "main.js") 1 found).text
            sheetClause.names := by
  obtain ⟨_, rest, hfound, _, hrest⟩ := List.map_eq_cons_iff.mp mixedImports_found
  obtain ⟨found, _, rfl, hparts, _⟩ := List.map_eq_cons_iff.mp hrest
  obtain ⟨hvalue, hclause, hname⟩ := by simpa only [Prod.mk.injEq] using hparts
  have htext : (Replacement.ofImport (registered? mixedImports "main.js") 1 found).text =
      "const e = \x7b\x7d;".toList := by
    have hsheet : registered? mixedImports "main.js" "./a.css" = none := by decide +kernel
    unfold Replacement.ofImport
    rw [hvalue, hclause, hname]
    dsimp only
    rw [hsheet]
    exact show (ImportClause.parse "e, * as sheet".toList).renderStyle =
      "const e = \x7b\x7d;".toList by decide
  refine ⟨found, hfound ▸ List.mem_cons_of_mem _ List.mem_cons_self, hvalue,
    hclause ▸ spelled_sheetClause, List.forall_mem_nil _, fun hdeclares => ?_⟩
  have hlost : ¬"sheet".toList <:+: "const e = \x7b\x7d;".toList := by decide
  exact hlost (htext ▸ hdeclares.infix (by decide))

end LivePreview.Linking
