import LivePreview.Linking.ScriptBody
import Mathlib.Data.List.Infix

namespace LivePreview.Linking

open Script

theorem infix_intercalate {part : List Char} {parts : List (List Char)}
    (between : List Char) (h : part ∈ parts) : part <:+: between.intercalate parts := by
  induction parts with
  | nil => cases h
  | cons first parts ih =>
      cases parts with
      | nil =>
          rw [List.mem_singleton.mp h, List.intercalate_singleton]
      | cons second parts =>
          rw [List.intercalate_cons_cons]
          rcases List.mem_cons.mp h with rfl | h
          · exact List.infix_append_of_infix_left (List.prefix_append _ _).isInfix
          · exact List.infix_append_of_infix_right (ih h)

-- Whatever an import binds, its new text mentions the module at hand.
theorem ImportClause.infix_render (clause : ImportClause) (module : List Char) (count : Nat) :
    module <:+: clause.render module count := by
  have hmention : ∀ declaration ∈ clause.declarations module, module <:+: declaration := by
    intro declaration hmem
    simp only [declarations, List.mem_append, List.mem_map, Option.mem_toList] at hmem
    rcases hmem with (⟨name, _, rfl⟩ | ⟨name, _, rfl⟩) | hmem
    · exact ⟨_, ");".toList, rfl⟩
    · exact ⟨_, [';'], rfl⟩
    · split at hmem
      · cases hmem
      · rw [List.mem_singleton] at hmem
        exact hmem ▸ ⟨_, [';'], rfl⟩
  unfold render
  split
  · exact ⟨[], [';'], rfl⟩
  · split
    · rename_i huses
      obtain ⟨declaration, hmem⟩ : ∃ declaration, declaration ∈ clause.declarations module := by
        apply List.exists_mem_of_length_pos
        simp only [uses] at huses
        simp only [declarations, List.length_append, List.length_map]
        split at huses <;> simp_all
      exact (hmention declaration hmem).trans (infix_intercalate _ hmem)
    · refine List.IsInfix.trans ?_ (infix_intercalate _ List.mem_cons_self)
      exact ⟨_, [';'], rfl⟩

namespace Replacement

-- The module that a replacement asks the registry for: the one it mentions, if it is in there.
def asks? (registered? : String → Option String) (replacement : Replacement) : Option String :=
  replacement.mention?.bind fun mention => registered? mention.name

theorem infix_reexport (form module : List Char) : module <:+: reexport form module := by
  unfold reexport
  split
  · split
    · exact ⟨_, ");".toList, rfl⟩
    · exact ⟨_, [';'], rfl⟩
  · exact ⟨_, ");".toList, rfl⟩

-- What an import statement mentions, whatever becomes of it.
def importMention? (found : Pattern.Match) : Option Mention :=
  if found.has 1 then none
  else some ⟨String.ofList (found.group 3), (ImportClause.parse (found.group 2)).required,
    found.start.offset⟩

variable {registered? : String → Option String} {count : Nat} {found : Pattern.Match} {id : String}

theorem mention?_ofImport :
    (ofImport registered? count found).mention? = importMention? found := by
  unfold ofImport importMention?
  split
  · rfl
  · dsimp only
    split <;> rfl

private theorem asks?_ofMention {name : List Char} {offset : Nat} {text : Option String → List Char}
    (h : (ofMention registered? name offset text).asks? registered? = some id) :
    (ofMention registered? name offset text).text = text (some id) :=
  congrArg text h

private theorem request_ofImport (count : Nat)
    (h : (ofImport registered? count found).asks? registered? = some id) :
    request id <:+: (ofImport registered? count found).text := by
  unfold asks? at h
  rw [mention?_ofImport] at h
  unfold importMention? at h
  unfold ofImport
  split at h
  · cases h
  · rename_i hvalue
    rw [if_neg hvalue]
    dsimp only
    rw [show registered? (String.ofList (found.group 3)) = some id from h]
    exact ImportClause.infix_render _ _ _

private theorem request_ofReexport (count : Nat)
    (h : (ofReexport registered? count found).asks? registered? = some id) :
    request id <:+: (ofReexport registered? count found).text := by
  unfold ofReexport at h ⊢
  split at h
  · cases h
  · rename_i hvalue
    rw [if_neg hvalue, asks?_ofMention h]
    exact infix_reexport _ _

private theorem request_ofDeferredImport (count : Nat)
    (h : (ofDeferredImport registered? count found).asks? registered? = some id) :
    request id <:+: (ofDeferredImport registered? count found).text := by
  unfold ofDeferredImport at h ⊢
  rw [asks?_ofMention h]
  exact ⟨_, [')'], rfl⟩

private theorem request_ofRequireCall (count : Nat)
    (h : (ofRequireCall registered? count found).asks? registered? = some id) :
    request id <:+: (ofRequireCall registered? count found).text := by
  unfold ofRequireCall at h ⊢
  rw [asks?_ofMention h]

-- Only import statements need exports.
theorem required_ofMention {name : List Char} {offset : Nat} {text : Option String → List Char}
    {mention : Mention} (h : (ofMention registered? name offset text).mention? = some mention) :
    mention.required = [] := by
  cases h
  rfl

end Replacement

-- A form, and what becomes of each place where it stands.
abbrev Pass := Pattern × (Nat → Pattern.Match → Replacement)

namespace Importing

-- The passes over a script after the one over its import statements.
def laterPasses (registered? : String → Option String) : List Pass :=
  [(Form.reexportStatement, .ofReexport registered?),
    (Form.deferredImport, .ofDeferredImport registered?),
    (Form.requireCall, .ofRequireCall registered?)]

def passes (registered? : String → Option String) : List Pass :=
  (Form.importStatement, .ofImport registered?) :: laterPasses registered?

-- What becomes of the places that a pass finds in a script.
def replaced (script : Importing) (pass : Pass) : List Replacement :=
  Replacement.ofMatches pass.2 script.count (pass.1.findAll script.body)

-- What becomes of the places that several passes find, each in the text that the one before left.
def replacements : List Pass → Importing → List Replacement
  | [], _ => []
  | pass :: later, script => script.replaced pass ++ replacements later (script.step pass.1 pass.2)

-- Everything in a script that `ofScript` replaces.
def replacementsOf (registered? : String → Option String) (count : Nat) (source : List Char) :
    List Replacement :=
  replacements (passes registered?) ⟨source, [], count⟩

section Passes

variable {registered? : String → Option String} {script : Importing} {replacement : Replacement}

private theorem exists_of_mem_ofMatches {replace : Nat → Pattern.Match → Replacement} {count : Nat}
    {found : List Pattern.Match} (h : replacement ∈ Replacement.ofMatches replace count found) :
    ∃ number place, replacement = replace number place := by
  induction found generalizing count with
  | nil => cases h
  | cons place found ih =>
      rcases List.mem_cons.mp h with rfl | h
      · exact ⟨_, _, rfl⟩
      · exact ih h

theorem exists_of_mem_replacements {run : List Pass} (h : replacement ∈ replacements run script) :
    ∃ pass ∈ run, ∃ number place, replacement = pass.2 number place := by
  induction run generalizing script with
  | nil => cases h
  | cons pass later ih =>
      rcases List.mem_append.mp h with h | h
      · exact ⟨pass, List.mem_cons_self, exists_of_mem_ofMatches h⟩
      · obtain ⟨other, hmem, hreplace⟩ := ih h
        exact ⟨other, List.mem_cons_of_mem _ hmem, hreplace⟩

-- A replacement that asks for a module holds the request, written out.
theorem infix_text_of_asks {count : Nat} {source : List Char} {id : String}
    (h : replacement ∈ replacementsOf registered? count source)
    (hid : replacement.asks? registered? = some id) : request id <:+: replacement.text := by
  obtain ⟨pass, hpass, number, place, rfl⟩ := exists_of_mem_replacements h
  simp only [passes, laterPasses, List.mem_cons, List.not_mem_nil, or_false] at hpass
  rcases hpass with rfl | rfl | rfl | rfl
  · exact Replacement.request_ofImport number hid
  · exact Replacement.request_ofReexport number hid
  · exact Replacement.request_ofDeferredImport number hid
  · exact Replacement.request_ofRequireCall number hid

private theorem required_of_mem_laterPasses {pass : Pass} {number : Nat} {place : Pattern.Match}
    {mention : Mention} (hpass : pass ∈ laterPasses registered?)
    (h : (pass.2 number place).mention? = some mention) : mention.required = [] := by
  simp only [laterPasses, List.mem_cons, List.not_mem_nil, or_false] at hpass
  rcases hpass with rfl | rfl | rfl
  · dsimp only [Replacement.ofReexport] at h
    split at h
    · cases h
    · exact Replacement.required_ofMention h
  · exact Replacement.required_ofMention h
  · exact Replacement.required_ofMention h

private theorem mentions_foldl (run : List Pass) (script : Importing) :
    (run.foldl (fun script pass => script.step pass.1 pass.2) script).mentions =
      script.mentions ++ (replacements run script).filterMap (·.mention?) := by
  induction run generalizing script with
  | nil => simp [replacements]
  | cons pass later ih =>
      have hstep : (script.step pass.1 pass.2).mentions =
          script.mentions ++ (script.replaced pass).filterMap (·.mention?) := rfl
      rw [List.foldl_cons, ih, replacements, List.filterMap_append, ← List.append_assoc, hstep]

-- The mentions of a script are those of its replacements, in order.
theorem mentions_ofScript (registered? : String → Option String) (count : Nat)
    (source : List Char) :
    (ofScript registered? count source).mentions =
      (replacementsOf registered? count source).filterMap (·.mention?) :=
  mentions_foldl (passes registered?) ⟨source, [], count⟩

-- A script that mentions no module stays as it is.
theorem body_ofScript {count : Nat} {source : List Char}
    (h : ∀ pass ∈ passes registered?, pass.1.findAll source = []) :
    (ofScript registered? count source).body = source := by
  have hfold (run : List Pass) (script : Importing) (hbody : script.body = source)
      (hrun : ∀ pass ∈ run, pass.1.findAll source = []) :
      (run.foldl (fun script pass => script.step pass.1 pass.2) script).body = source := by
    induction run generalizing script with
    | nil => exact hbody
    | cons pass run ih =>
        obtain ⟨hpass, hrun⟩ := List.forall_mem_cons.mp hrun
        have hstep : (script.step pass.1 pass.2).body = source := by
          unfold step
          dsimp only
          rw [hbody, hpass]
          rfl
        exact ih _ hstep hrun
  exact hfold (passes registered?) ⟨source, [], count⟩ rfl h

private theorem filterMap_ofMatches (replace : Nat → Pattern.Match → Replacement)
    {mention? : Pattern.Match → Option Mention}
    (h : ∀ count place, (replace count place).mention? = mention? place) (count : Nat)
    (found : List Pattern.Match) :
    (Replacement.ofMatches replace count found).filterMap (·.mention?) =
      found.filterMap mention? := by
  induction found generalizing count with
  | nil => rfl
  | cons place found ih =>
      rw [Replacement.ofMatches, List.filterMap_cons, List.filterMap_cons, h, ih]

-- The import statements stand at the head of the mentions, as the source has them. What is
-- mentioned behind them needs no exports.
theorem mentions_ofScript_imports (registered? : String → Option String) (count : Nat)
    (source : List Char) :
    ∃ later, (ofScript registered? count source).mentions =
        (Form.importStatement.findAll source).filterMap Replacement.importMention? ++ later ∧
      ∀ mention ∈ later, mention.required = [] := by
  refine ⟨(replacements (laterPasses registered?)
    (step Form.importStatement (.ofImport registered?) ⟨source, [], count⟩)).filterMap
      (·.mention?), ?_, ?_⟩
  · rw [mentions_ofScript, replacementsOf, passes, replacements, List.filterMap_append]
    congr 1
    exact filterMap_ofMatches (.ofImport registered?)
      (fun _ _ => Replacement.mention?_ofImport) count _
  · intro mention hmem
    obtain ⟨replacement, hr, hmention⟩ := List.mem_filterMap.mp hmem
    obtain ⟨pass, hpass, number, place, rfl⟩ := exists_of_mem_replacements hr
    exact required_of_mem_laterPasses hpass hmention

end Passes

end Importing

end LivePreview.Linking
