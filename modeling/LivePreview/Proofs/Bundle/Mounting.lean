import LivePreview.Config.Basic
import LivePreview.Proofs.Bundle.Outcome
import LivePreview.Proofs.Json.Reading
import LivePreview.Proofs.Linking.Leading
import LivePreview.Proofs.Linking.Registry
import LivePreview.Proofs.Sources.Entrance
import LivePreview.Proofs.Text.Infix

namespace LivePreview

open Script

-- A text without characters to escape stands for itself between quotation marks.
theorem Text.quote_eq {text : List Char} (h : ∀ c ∈ text, escape c = [c]) :
    quote text = '"' :: text ++ ['"'] := by
  rw [quote, List.flatMap_congr h, List.flatMap_singleton']

-- A path that stands for itself between quotation marks, without the beginning of an export in it.
structure Plain (path : String) : Prop where
  chars : ∀ c ∈ path.toList, Text.escape c = [c] ∧ c ≠ '\''
  noExport : ∀ c, Text.isBlank c = true → ¬"export".toList ++ [c] <:+: path.toList

namespace Plain

variable {path : String}

theorem isQuote (h : Plain path) {c : Char} (hc : c ∈ path.toList) :
    Form.isQuote c = false ∧ c ≠ '\n' := by
  obtain ⟨hescape, hquote⟩ := h.chars c hc
  rw [Form.isQuote, Bool.or_eq_false_iff, beq_eq_false_iff_ne, beq_eq_false_iff_ne]
  refine ⟨⟨hquote, ?_⟩, ?_⟩ <;> rintro rfl <;> revert hescape <;> decide

end Plain

namespace Wrapper

def clause : List Char := "* as EntryModule".toList

theorem isClause_clause : Form.IsClause clause where
  nonempty := by decide
  chars := by decide
  head c hc := by
    obtain rfl : '*' = c := Option.some.inj hc
    decide
  last c hc := by
    obtain rfl : 'e' = c := Option.some.inj hc
    decide
  noFrom c d _ _ h := absurd (h.subset (by simp : 'f' ∈ c :: ("from".toList ++ [d]))) (by decide)
  noType c _ h := absurd (h.subset (by simp : 'p' ∈ "type".toList ++ [c])) (by decide)

-- The text of a piece, character by character.
def pieceChars (wrapper : Wrapper) : Piece → List Char
  | .text s => s.toList
  | .slot .entry => Text.quote ("./".toList ++ wrapper.entryPath.toList)
  | .slot .candidates =>
      '[' :: [','].intercalate (wrapper.candidates.map (Text.quote ·.toList)) ++ [']']
  | .slot .channel => Text.quote wrapper.channel.toList
  | .slot .mount => Text.quote wrapper.mountElement.toList

theorem toList_pieceText (wrapper : Wrapper) (piece : Piece) :
    (wrapper.pieceText piece).toList = wrapper.pieceChars piece := by
  have hquoted : ∀ text, (Text.quoted text).toList = Text.quote text.toList := fun text => by
    rw [Text.quoted, String.toList_ofList]
  cases piece with
  | text s => rfl
  | slot slot =>
      cases slot with
      | entry => rw [pieceText, literal, hquoted, String.toList_append, pieceChars]
      | candidates => exact Json.toList_quoted wrapper.candidates
      | channel => exact hquoted _
      | mount => exact hquoted _

theorem toList_source (wrapper : Wrapper) :
    wrapper.source.toList =
      template.flatMap fun line => line.flatMap wrapper.pieceChars ++ ['\n'] := by
  rw [source, String.toList_join, List.flatMap_map]
  refine List.flatMap_congr fun line _ => ?_
  rw [String.toList_append, String.toList_join, List.flatMap_map]
  exact congrArg (· ++ ['\n']) (List.flatMap_congr fun piece _ => toList_pieceText wrapper piece)

-- A wrapper begins with the import of its component.
theorem exists_source {wrapper : Wrapper} (h : Plain wrapper.entryPath) :
    ∃ later, wrapper.source.toList =
      Form.importText clause '"' ("./" ++ wrapper.entryPath).toList ++ '\n' :: later := by
  have hquote : Text.quote ("./".toList ++ wrapper.entryPath.toList) =
      '"' :: ("./".toList ++ wrapper.entryPath.toList) ++ ['"'] := by
    have hdot : ∀ c ∈ "./".toList, Text.escape c = [c] := by decide
    refine Text.quote_eq fun c hc => ?_
    rcases List.mem_append.mp hc with hc | hc
    · exact hdot c hc
    · exact (h.chars c hc).1
  obtain ⟨lines, hlines⟩ : ∃ lines, template =
      [.text "import * as EntryModule from ", .slot .entry, .text ";"] :: lines := ⟨_, rfl⟩
  have hopening : "import * as EntryModule from ".toList =
      "import".toList ++ ' ' :: (clause ++ ' ' :: ("from".toList ++ [' '])) := by decide
  have hclosing : ";".toList = [';'] := by decide
  rw [toList_source, hlines, List.flatMap_cons, String.toList_append]
  refine ⟨lines.flatMap fun line => line.flatMap wrapper.pieceChars ++ ['\n'], ?_⟩
  delta Form.importText
  simp only [List.flatMap_cons, List.flatMap_nil, pieceChars, hopening, hclosing, hquote,
    List.append_assoc, List.cons_append, List.nil_append]

-- The line that binds the component in a wrapper that is linked.
def bindingLine (path : String) : List Char :=
  "const EntryModule = ".toList ++ Linking.request path ++ [';']

theorem render_clause (path : String) (count : Nat) :
    (Linking.ImportClause.parse clause).render (Linking.request path) count = bindingLine path := by
  have hparse : Linking.ImportClause.parse clause = ⟨none, some "EntryModule".toList, []⟩ := by
    decide +kernel
  have hdeclarations : (Linking.ImportClause.parse clause).declarations (Linking.request path) =
      ["const ".toList ++ "EntryModule".toList ++ " = ".toList ++ Linking.request path ++
        ";".toList] := by
    rw [hparse]
    rfl
  have hopening : "const ".toList ++ "EntryModule".toList ++ " = ".toList =
      "const EntryModule = ".toList := by decide
  have hclosing : ";".toList = [';'] := by decide
  have huses : (Linking.ImportClause.parse clause).uses = 1 := by rw [hparse]; rfl
  rw [Linking.ImportClause.render, hdeclarations, huses, if_neg (by decide), if_pos rfl,
    List.intercalate_singleton]
  exact congrArg₂ (fun front back => front ++ Linking.request path ++ back) hopening hclosing

-- What stands before the path in the line.
def bindingStart : List Char := "const EntryModule = __forge_require(".toList

private theorem bindingLine_eq {path : String} (h : Plain path) :
    bindingLine path = bindingStart ++ '"' :: (path.toList ++ '"' :: [')', ';']) := by
  have hstart : bindingStart = "const EntryModule = ".toList ++ "__forge_require(".toList := by
    decide
  have hrequest : Linking.request path =
      "__forge_require(".toList ++ ('"' :: path.toList ++ ['"']) ++ [')'] :=
    congrArg ("__forge_require(".toList ++ · ++ [')']) (Text.quote_eq fun c hc => (h.chars c hc).1)
  have hsplit : ∀ front call name : List Char,
      front ++ (call ++ ('"' :: name ++ ['"']) ++ [')']) ++ [';'] =
        front ++ call ++ '"' :: (name ++ '"' :: [')', ';']) := by simp
  have hline : bindingLine path =
      "const EntryModule = ".toList ++ Linking.request path ++ [';'] := rfl
  rw [hline, hrequest, hstart]
  exact hsplit _ _ _

private theorem calm_export {form : Pattern} (hopens : form.Opens "export".toList .blank)
    {path : String} (h : Plain path) : form.Calm (bindingLine path) := by
  refine hopens.calm (by decide) fun c hc hinfix => ?_
  have hblank : Text.isBlank c = true := hc
  have hquote : '"' ∉ "export".toList ++ [c] := by
    intro hmem
    rcases List.mem_append.mp hmem with hmem | hmem
    · revert hmem
      decide
    · obtain rfl := List.mem_singleton.mp hmem
      cases hblank
  have hx : 'x' ∈ "export".toList ++ [c] := List.mem_append_left _ (by decide)
  rw [bindingLine_eq h, List.append_assoc, List.cons_append, List.append_assoc,
    List.cons_append] at hinfix
  rcases Text.infix_of_infix_append_cons hquote hinfix with hfront | hinfix
  · exact absurd (hfront.subset hx) (by decide)
  · rcases Text.infix_of_infix_append_cons hquote hinfix with hpath | hback
    · exact h.noExport c hblank hpath
    · exact absurd (hback.subset hx) (by decide)

-- Where the call of one of the words seems to open before the path, it opens within a word.
private theorem exists_getLast?_of_opens {word : String}
    (hword : word = "import" ∨ word = "require") {read gap : List Char}
    (h : bindingStart = read ++ (word.toList ++ '(' :: gap)) :
    ∃ c ∈ read.getLast?, Text.isWordCharacter c = true := by
  have hplaces : ∀ word ∈ ["import", "require"], ∀ n < bindingStart.length,
      (word.toList ++ ['(']).isPrefixOf (bindingStart.drop n) = true →
        (bindingStart.take n).getLast?.any Text.isWordCharacter = true := by decide
  have hlength : read.length < bindingStart.length := by
    rw [h, List.length_append, List.length_append]
    exact Nat.lt_add_of_pos_right (Nat.add_pos_right _ (Nat.succ_pos _))
  have hplace := hplaces word (by simpa using hword) read.length hlength
  rw [h, List.drop_left, List.take_left, Option.any_eq_true] at hplace
  refine hplace (List.isPrefixOf_iff_prefix.mpr ⟨gap, by simp⟩)

private theorem calm_call {word path : String} (h : Plain path)
    (hword : word = "import" ∨ word = "require") : (Form.call word).Calm (bindingLine path) := by
  have hopen {read gap : List Char} (hsplit : bindingStart = read ++ (word.toList ++ '(' :: gap)) :=
    exists_getLast?_of_opens hword hsplit
  have hname : ∀ c ∈ path.toList, Form.isQuote c = false := fun c hc => (h.isQuote hc).1
  rw [bindingLine_eq h]
  rcases hword with rfl | rfl
  · exact Form.calm_call (show "import".toList = 'i' :: "mport".toList by decide) (by decide)
      (by decide) (by decide) hname (by decide) fun read gap => hopen
  · exact Form.calm_call (show "require".toList = 'r' :: "equire".toList by decide) (by decide)
      (by decide) (by decide) hname (by decide) fun read gap => hopen

theorem inert_bindingLine {path : String} (h : Plain path) : Linking.Inert (bindingLine path) where
  reexports := calm_export Form.opens_reexportStatement h
  deferredImports := calm_call h (.inl rfl)
  requireCalls := calm_call h (.inr rfl)
  defaultDeclarations := calm_export Form.opens_defaultDeclaration h
  defaultExpressions := calm_export Form.opens_defaultExpression h
  valueDeclarations := calm_export Form.opens_valueDeclaration h
  typeDeclarations := calm_export Form.opens_typeDeclaration h
  lists := calm_export Form.opens_listStatement h

end Wrapper

-- No value begins with this letter.
theorem Json.exists_parse_eq_error {source : String} {later : List Char}
    (h : source.toList = 'i' :: later) : ∃ e, parse source = .error e := by
  have hvalue : ∃ stop, value true 128 (.start ('i' :: later)) = .error stop := by
    have hskip : (skipSpace (.start ('i' :: later))).rest = 'i' :: later := rfl
    rw [value]
    split
    · rename_i hrest
      rw [hskip] at hrest
      cases hrest
    · rename_i c rest hrest
      rw [hskip] at hrest
      obtain ⟨rfl, rfl⟩ := List.cons.inj hrest
      exact ⟨_, rfl⟩
  obtain ⟨stop, hstop⟩ := hvalue
  refine ⟨Stop.toError source.toList stop, ?_⟩
  rw [parse, read, h, hstop]
  rfl

namespace EntryPoint

variable {files : Sources} {entry : EntryPoint}

-- The entry is a script of the project.
theorem spec_detect? (h : detect? files = some entry) :
    files.contains entry.path = true ∧ FileKind.ofPath? entry.path = some .script := by
  obtain ⟨content, husable, _⟩ := isLeast_of_detect? h
  exact ⟨Sources.contains_iff.mpr ⟨content, husable.held⟩, husable.kind⟩

end EntryPoint

namespace BuildPlan

variable {options : BundleOptions} {files : Sources} {plan : BuildPlan}

-- What is built around an entry that does not mount itself: a wrapper of the entry, beside it.
structure Wrapped (plan : BuildPlan) : Prop where
  wrapper : ∃ wrapper : Wrapper, wrapper.entryPath = plan.entry.path ∧
    plan.files.get? plan.start = some wrapper.source
  beside : plan.start ≠ plan.entry.path
  contained : plan.files.contains plan.entry.path = true
  kind : FileKind.ofPath? plan.entry.path = some .script
  normal : Path.normalize plan.entry.path = plan.entry.path

theorem wrapped_of_make (h : make options files = .ok plan)
    (hentry : plan.entry.mountsItself = false) : plan.Wrapped := by
  obtain ⟨_, _, entry, hdetect, rfl⟩ := make_eq_ok_iff.mp h
  obtain ⟨hcontains, hkind⟩ := EntryPoint.spec_detect? hdetect
  have hmounts : entry.mountsItself = false := by
    unfold ofEntry at hentry
    split at hentry <;> exact hentry
  obtain ⟨content, hget⟩ := Sources.contains_iff.mp hcontains
  obtain ⟨source, _, hsource⟩ := Sources.exists_of_get?_prepare hget
  have hfree := Sources.contains_freePath (files.prepare options.skipInvalid).files
    options.wrapperKey
  have hbeside :
      (files.prepare options.skipInvalid).files.freePath options.wrapperKey ≠ entry.path := by
    intro hsame
    rw [hsame, hcontains] at hfree
    cases hfree
  rw [ofEntry, hmounts, if_neg (by decide)]
  refine ⟨⟨wrapper options entry, rfl, ?_⟩, hbeside, ?_, hkind, ?_⟩
  · dsimp only
    rw [Sources.get?_insert, if_pos rfl]
  · dsimp only
    rw [Sources.contains_iff]
    exact ⟨content, by rw [Sources.get?_insert, if_neg (Ne.symm hbeside), hget]⟩
  · rw [← hsource, Path.normalize_normalize]

end BuildPlan

namespace Linking

variable {files : Sources} {start path : String} {wrapper : Wrapper}

private theorem eq_of_readable? {content : String} {source : List Char}
    (hget : files.get? start = some content) (h : readable? files start = some source) :
    source = content.toList := by
  unfold readable? at h
  rw [hget] at h
  dsimp only at h
  split at h
  · cases h
  · cases h
  · split at h
    · exact (Option.some.inj h).symm
    · cases h

-- The definition of a wrapper binds the module of its component, which it mentions first.
theorem definition_of_wrapper (hget : files.get? start = some wrapper.source)
    (hplain : Plain wrapper.entryPath)
    (hregistered : registered? files start ("./" ++ wrapper.entryPath) = some wrapper.entryPath)
    {count : Nat} {definition : String × List Char}
    (h : Turn.definition? files ⟨start, count⟩ = some definition) :
    Leads ("exports.__esModule = true;\n".toList ++ Wrapper.bindingLine wrapper.entryPath)
        definition.2 ∧
      ∃ mention more, Turn.mentions files ⟨start, count⟩ = mention :: more ∧
        mention.name = "./" ++ wrapper.entryPath := by
  obtain ⟨later, hsource⟩ := Wrapper.exists_source hplain
  obtain ⟨script, hscript, rfl⟩ : ∃ script, Turn.script? files ⟨start, count⟩ = some script ∧
      (start, assignExports script.body) = definition := by
    unfold Turn.definition? at h
    rw [hget] at h
    dsimp only at h
    split at h
    · have hopening : wrapper.source.toList = 'i' :: _ := hsource
      obtain ⟨e, he⟩ := Json.exists_parse_eq_error hopening
      rw [he] at h
      cases h
    · cases h
    · exact Option.map_eq_some_iff.mp h
  obtain ⟨source, hread, rfl⟩ := Option.map_eq_some_iff.mp hscript
  have hsame := (eq_of_readable? hget hread).trans hsource
  subst hsame
  have hname : Script.Form.IsQuotable ("./" ++ wrapper.entryPath).toList := by
    refine ⟨by simp, fun c hc => ?_⟩
    rw [String.toList_append, List.mem_append] at hc
    rcases hc with hc | hc
    · revert c
      decide
    · exact hplain.isQuote hc
  have hid : registered? files start (String.ofList ("./" ++ wrapper.entryPath).toList) =
      some wrapper.entryPath := by
    rw [String.ofList_toList, hregistered]
  have hinert := Wrapper.inert_bindingLine hplain
  rw [← Wrapper.render_clause _ (count + 1)] at hinert
  have hmark : Script.Form.isQuote '"' = true := rfl
  constructor
  · have hleads : Leads _ (Importing.ofScript (registered? files start) count
        (Script.Form.importText Wrapper.clause '"' _ ++ '\n' :: later)).body :=
      leads_ofScript count Wrapper.isClause_clause hmark hname hid hinert
    rw [Wrapper.render_clause] at hleads hinert
    exact exists_assignExports hinert hleads
  · obtain ⟨mention, more, hmentions, hmention⟩ : ∃ mention more,
        Turn.mentions files ⟨start, count⟩ = mention :: more ∧
          mention.name = String.ofList ("./" ++ wrapper.entryPath).toList := by
      rw [Turn.mentions, hscript]
      exact exists_mentions_importText count Wrapper.isClause_clause hmark hname
    exact ⟨mention, more, hmentions, hmention.trans String.ofList_toList⟩

-- Where no file has findings of its own there are none.
theorem findings_walkFrom_eq_nil {entry : String}
    (h : ∀ path, path = entry ∨ files.contains path = true → findingsOf files path = []) :
    (walkFrom files entry).findings = [] := by
  obtain ⟨turns, hcourse, _⟩ := exists_course files entry
  rw [hcourse.findings_eq, List.flatMap_eq_nil_iff]
  intro turn hturn
  refine h turn.path ?_
  exact (hcourse.inLine.known turn.path
    (List.mem_append_left _ (List.mem_map_of_mem (f := (·.path)) hturn))).imp id (·.1)

-- A walk that starts at a style sheet ends there.
theorem walkFrom_style {content : String} (hget : files.get? start = some content)
    (hkind : FileKind.ofPath? start = some .style) :
    (walkFrom files start).definitions = [] ∧ (walkFrom files start).findings = [] := by
  have htake : Walk.take files { Walk.start start with waiting := [] } start =
      ⟨[], [start], [start], [], [⟨start, content⟩], [], .empty, 0⟩ := by
    rw [Walk.take, hget]
    dsimp only
    rw [hkind]
    rfl
  have hrun : ∀ most walk, Walk.waiting walk = [] → Walk.run files most walk = walk := by
    intro most walk hwaiting
    cases most with
    | zero => rfl
    | succ most =>
        rw [Walk.run, hwaiting]
  have hwalk : walkFrom files start = ⟨[], [start], [start], [], [⟨start, content⟩], [], .empty, 0⟩ :=
    (congrArg (Walk.run files files.size) htake).trans (hrun _ _ rfl)
  rw [hwalk]
  exact ⟨rfl, rfl⟩

-- What is linked around a component defines its module, and in the wrapper binds this module.
theorem exists_definitions_of_wrapped {plan : BuildPlan} (hwrapped : plan.Wrapped)
    (hstart : FileKind.ofPath? plan.start ≠ some .style) (hplain : Plain plan.entry.path)
    {output : Output} (h : link plan.files plan.start = .ok output) :
    ∃ definitions, output.code = scriptText definitions plan.start ∧
      (definitions.map (·.1)).Nodup ∧ plan.entry.path ∈ definitions.map (·.1) ∧
      ∃ body, (plan.start, body) ∈ definitions ∧
        Leads ("exports.__esModule = true;\n".toList ++ Wrapper.bindingLine plan.entry.path)
          body := by
  obtain ⟨hfindings, rfl⟩ := link_eq_ok_iff.mp h
  obtain ⟨turns, hcourse, hwaiting, _⟩ := exists_course plan.files plan.start
  have hclosed := hcourse.closed hwaiting hstart hfindings
  obtain ⟨wrapper, hpath, hget⟩ := hwrapped.wrapper
  have hresolve : plan.files.resolve plan.start ("./" ++ wrapper.entryPath) =
      .file wrapper.entryPath := by
    rw [hpath]
    exact Sources.resolve_of_contains _ hwrapped.contained hwrapped.kind
      ((Path.normalize_append (by decide) _).trans hwrapped.normal)
  have hkind : FileKind.ofPath? wrapper.entryPath ≠ some .style := by
    rw [hpath, hwrapped.kind]
    decide
  have hregistered : registered? plan.files plan.start ("./" ++ wrapper.entryPath) =
      some wrapper.entryPath := by
    rw [registered?, hresolve]
    exact if_neg hkind
  rcases hcourse.first with ⟨_, hnone⟩ | ⟨later, rfl, hline⟩
  · rw [hnone] at hwaiting
    cases hwaiting
  obtain ⟨body, hdefinition, hmem⟩ := hclosed.defined _ List.mem_cons_self
  obtain ⟨hleads, mention, more, hmentions, hmention⟩ :=
    definition_of_wrapper hget (hpath ▸ hplain) hregistered hdefinition
  refine ⟨_, rfl, hclosed.distinct, ?_, body, hmem, hpath ▸ hleads⟩
  -- The wrapper puts its component in line.
  have hwaits : wrapper.entryPath ∈
      (Walk.take plan.files { Walk.start plan.start with waiting := [] } plan.start).waiting :=
    Walk.mem_waiting_take_of_notMem hmentions (hmention ▸ hresolve) hkind
      fun hmem => hwrapped.beside (hpath ▸ (List.mem_singleton.mp hmem).symm)
  rw [hwaiting] at hline
  obtain ⟨turn, hturn, hturnPath⟩ := List.mem_map.mp ((hline _ hwaits).resolve_right (by simp))
  obtain ⟨other, _, hother⟩ := hclosed.defined turn (List.mem_cons_of_mem _ hturn)
  rw [← hpath, ← hturnPath]
  exact List.mem_map_of_mem (f := (·.1)) hother

end Linking

namespace Bundler

variable {options : BundleOptions} {bundler : Bundler Bool} {files : Sources} {plan : BuildPlan}

-- A bundle succeeds where the files can be linked, and has the script that is linked.
theorem bundle_of_link (h : bundler.IsLinker options)
    (hplan : BuildPlan.make options files = .ok plan) {output : Linking.Output}
    (hlink : Linking.link plan.files plan.start = .ok output) :
    (bundler.bundle files).1.success = true ∧ (bundler.bundle files).1.code = output.code := by
  rw [(bundle_linker h files).1, hplan]
  dsimp only
  unfold BuildPlan.result Engine.linked
  rw [hlink]
  exact ⟨rfl, rfl⟩

theorem exists_link_of_success (h : bundler.IsLinker options)
    (hplan : BuildPlan.make options files = .ok plan)
    (hsuccess : (bundler.bundle files).1.success = true) :
    ∃ output, Linking.link plan.files plan.start = .ok output := by
  cases hlink : Linking.link plan.files plan.start with
  | error findings =>
      rw [(bundle_linker h files).1, hplan] at hsuccess
      dsimp only at hsuccess
      unfold BuildPlan.result Engine.linked at hsuccess
      rw [hlink] at hsuccess
      cases hsuccess
  | ok output => exact ⟨output, rfl⟩

-- A wrapper that goes by the name of a style sheet is no module, and the component is none then.
theorem bundle_of_style (h : bundler.IsLinker options)
    (hplan : BuildPlan.make options files = .ok plan) (hentry : plan.entry.mountsItself = false)
    (hstart : FileKind.ofPath? plan.start = some .style) :
    (bundler.bundle files).1.success = true ∧
      (bundler.bundle files).1.code = Linking.scriptText [] plan.start := by
  obtain ⟨_, _, hget⟩ := (BuildPlan.wrapped_of_make hplan hentry).wrapper
  obtain ⟨hdefinitions, hfindings⟩ := Linking.walkFrom_style hget hstart
  obtain ⟨output, hlink⟩ := Linking.exists_link_eq_ok_iff.mpr hfindings
  obtain ⟨_, rfl⟩ := Linking.link_eq_ok_iff.mp hlink
  obtain ⟨hsuccess, hcode⟩ := bundle_of_link h hplan hlink
  exact ⟨hsuccess, hcode.trans (congrArg (Linking.scriptText · plan.start) hdefinitions)⟩

end Bundler

-- A project of one component.
def soleComponent : Sources := .ofList [("App.js", "export const App = () => null;")]

def soleComponentPlan : BuildPlan :=
  .ofEntry {} (soleComponent.prepare true).files
    ((soleComponent.prepare true).skipped.map BuildPlan.skippedWarning) ⟨"App.js", false⟩

theorem make_soleComponent : BuildPlan.make {} soleComponent = .ok soleComponentPlan :=
  BuildPlan.make_eq_ok_iff.mpr ⟨by decide +kernel, by decide +kernel, ⟨"App.js", false⟩,
    by decide +kernel, rfl⟩

open Linking in
theorem findings_soleComponent :
    (walkFrom soleComponentPlan.files soleComponentPlan.start).findings = [] := by
  have hget : soleComponentPlan.files.get? soleComponentPlan.start =
      some (BuildPlan.wrapper {} ⟨"App.js", false⟩).source :=
    (Sources.get?_insert _ _ _ _).trans (if_pos rfl)
  have hpaths : soleComponentPlan.files.paths = ["App.js", soleComponentPlan.start] := by
    decide +kernel
  have hwrapper : findingsOf soleComponentPlan.files soleComponentPlan.start = [] := by
    have hkind : FileKind.ofPath? soleComponentPlan.start = some .script := by decide +kernel
    rw [findingsOf, hget]
    dsimp only
    rw [hkind]
    dsimp only
    rw [Wrapper.toList_source]
    decide +kernel
  have hcomponent : findingsOf soleComponentPlan.files "App.js" = [] := by decide +kernel
  refine findings_walkFrom_eq_nil fun path hpath => ?_
  rw [← Sources.mem_paths_iff, hpaths] at hpath
  rcases hpath with rfl | hpath
  · exact hwrapper
  · rcases List.mem_cons.mp hpath with rfl | hpath
    · exact hcomponent
    · rw [List.mem_singleton.mp hpath, hwrapper]

-- A configuration may call the wrapper a style sheet.
def sheetKey : BundleOptions := { wrapperKey := "preview.css" }

end LivePreview
