import LivePreview.Proofs.Linking.Replacements
import LivePreview.Proofs.Script.Statements

namespace LivePreview.Linking

open Script Pattern

-- Nothing in the text is replaced any more once the import statements are, if a line ends behind it.
structure Inert (text : List Char) : Prop where
  reexports : Form.reexportStatement.Calm text
  deferredImports : Form.deferredImport.Calm text
  requireCalls : Form.requireCall.Calm text
  defaultDeclarations : Form.defaultDeclaration.Calm text
  defaultExpressions : Form.defaultExpression.Calm text
  valueDeclarations : Form.valueDeclaration.Calm text
  typeDeclarations : Form.typeDeclaration.Calm text
  lists : Form.listStatement.Calm text

-- The script begins with the line.
def Leads (line body : List Char) : Prop := ∃ later, body = line ++ '\n' :: later

namespace Leads

variable {form : Pattern} {line : List Char}

theorem splice {body : List Char} (h : Leads line body) (hform : form.Calm line)
    (texts : List (List Char)) :
    Leads line (Pattern.splice (.start body) ((form.findAll body).zip texts)) := by
  obtain ⟨later, rfl⟩ := h
  obtain ⟨other, hsplice⟩ := (hform.clears later).exists_splice texts
  exact ⟨other, by simpa using hsplice⟩

-- The first line stays if nothing in it is replaced.
theorem importing {script : Importing} (h : Leads line script.body) (hform : form.Calm line)
    (replace : Nat → Pattern.Match → Replacement) : Leads line (script.step form replace).body :=
  h.splice hform _

theorem exporting {script : Exporting} (h : Leads line script.body) (hform : form.Calm line)
    (edit : Pattern.Match → List Char) (assign : Pattern.Match → List (List Char)) :
    Leads line (script.step form edit assign).body := by
  have hzip : (form.findAll script.body).map (fun found => (found, edit found)) =
      (form.findAll script.body).zip ((form.findAll script.body).map edit) := by
    rw [List.zip_map_right, List.zip_eq_zipWith, List.zipWith_self, List.map_map]
    rfl
  have hsplice := h.splice hform ((form.findAll script.body).map edit)
  rwa [← hzip] at hsplice

end Leads

section Line

variable {line source : List Char}

theorem exists_assignExports (h : Inert line) (hsource : Leads line source) :
    Leads ("exports.__esModule = true;\n".toList ++ line) (assignExports source) := by
  have hstart : Leads line (⟨source, []⟩ : Exporting).body := hsource
  obtain ⟨other, hbody⟩ : Leads line (Exporting.ofScript source).body :=
    ((((hstart.exporting h.defaultDeclarations _ _).exporting h.defaultExpressions _ _).exporting
      h.valueDeclarations _ _).exporting h.typeDeclarations _ _).exporting h.lists _ _
  unfold assignExports
  dsimp only
  rw [hbody]
  exact ⟨_, by simp only [List.append_assoc, List.cons_append]; rfl⟩

variable {registered? : String → Option String} {clause name later : List Char} {mark : Char}
  {id : String}

private theorem calm_nil : Form.importStatement.Calm [] :=
  Form.opens_importStatement.calm (by decide) fun c _ h => by
    have hlength := h.length_le
    simp at hlength

-- An import that leads a script is found, with its clause and its module.
theorem exists_findAll_importText (hclause : Form.IsClause clause)
    (hmark : Form.isQuote mark = true) (hname : Form.IsQuotable name) :
    ∃ found more, Form.importStatement.findAll (Form.importText clause mark name ++ '\n' :: later) =
        found :: more ∧ found.has 1 = false ∧ found.group 2 = clause ∧ found.group 3 = name ∧
      ∀ text texts, Leads text (splice (.start (Form.importText clause mark name ++ '\n' :: later))
        ((found, text) :: more.zip texts)) := by
  have hrest : (Spot.start (Form.importText clause mark name ++ '\n' :: later)).rest =
      Form.importText clause mark name ++ '\n' :: later := rfl
  obtain ⟨captures, hcaptures, hmatch⟩ :=
    (Form.takes_importStatement (by simp [Spot.start]) hclause hmark hname).exists_matchAt hrest
  obtain ⟨more, hall, hsplice⟩ := exists_splice_of_matchAt hmatch
    (Spot.offset_lt_skip hrest (List.append_ne_nil_of_right_ne_nil _ (List.cons_ne_nil _ _)))
    (Spot.rest_skip hrest)
    fun spot hspot => calm_nil spot [] [] ('\n' :: later) rfl hspot (by simp) (by simp)
  refine ⟨_, more, hall, ?_, ?_, ?_, fun text texts => hsplice text texts⟩
  · rw [Match.has_eq, Match.group?_eq, hcaptures]
    rfl
  · rw [Match.group, Match.group?_eq, hcaptures]
    rfl
  · rw [Match.group, Match.group?_eq, hcaptures]
    rfl

-- An import that leads a script is replaced, and with what the module is asked for.
theorem leads_ofScript (count : Nat) (hclause : Form.IsClause clause)
    (hmark : Form.isQuote mark = true) (hname : Form.IsQuotable name)
    (hid : registered? (String.ofList name) = some id)
    (h : Inert ((ImportClause.parse clause).render (request id) (count + 1))) :
    Leads ((ImportClause.parse clause).render (request id) (count + 1))
      (Importing.ofScript registered? count
        (Form.importText clause mark name ++ '\n' :: later)).body := by
  obtain ⟨found, more, hall, htype, hclauseGroup, hnameGroup, hleads⟩ :=
    exists_findAll_importText hclause hmark hname
  have hstep : Leads ((ImportClause.parse clause).render (request id) (count + 1))
      (Importing.step Form.importStatement (.ofImport registered?)
        ⟨Form.importText clause mark name ++ '\n' :: later, [], count⟩).body := by
    have htext : (Replacement.ofImport registered? count found).text =
        (ImportClause.parse clause).render (request id) (count + 1) := by
      simp [Replacement.ofImport, htype, hclauseGroup, hnameGroup, hid]
    unfold Importing.step
    dsimp only
    rw [hall, Replacement.ofMatches, List.map_cons, htext, List.zip_cons_cons]
    exact hleads _ _
  exact ((hstep.importing h.reexports _).importing h.deferredImports _).importing h.requireCalls _

-- The module of an import that leads a script is mentioned first.
theorem exists_mentions_importText (count : Nat) (hclause : Form.IsClause clause)
    (hmark : Form.isQuote mark = true) (hname : Form.IsQuotable name) :
    ∃ mention more, (Importing.ofScript registered? count
        (Form.importText clause mark name ++ '\n' :: later)).mentions = mention :: more ∧
      mention.name = String.ofList name := by
  obtain ⟨found, more, hall, htype, _, hnameGroup, _⟩ :=
    exists_findAll_importText hclause hmark hname
  obtain ⟨rest, hmentions, _⟩ := Importing.mentions_ofScript_imports registered? count
    (Form.importText clause mark name ++ '\n' :: later)
  have hmention : Replacement.importMention? found =
      some ⟨String.ofList name, (ImportClause.parse (found.group 2)).required, found.start.offset⟩ := by
    simp [Replacement.importMention?, htype, hnameGroup]
  rw [hall, List.filterMap_cons, hmention] at hmentions
  exact ⟨_, _, hmentions, rfl⟩

end Line

end LivePreview.Linking
