import LivePreview.Proofs.Linking.Course

namespace LivePreview.Linking

-- The file that is loaded because of a mention: a style sheet to take it in, and a script to see
-- whether it has the exports that are required of it.
def Mention.load? (files : Sources) (importer : String) (mention : Mention) : Option String :=
  match files.resolve importer mention.name with
  | .file path =>
    match FileKind.ofPath? path with
    | some .style => some path
    | some .script => if mention.required = [] then none else some path
    | _ => none
  | _ => none

-- The files that a turn loads: the module and what it takes to follow its mentions.
def Turn.loads (files : Sources) (turn : Turn) : List String :=
  turn.path :: (turn.mentions files).filterMap (Mention.load? files turn.path)

-- The turns that a walk still has, at most as many as given.
def Walk.turns (files : Sources) : (most : Nat) → Walk → List Turn
  | 0, _ => []
  | most + 1, walk =>
    match walk.waiting with
    | [] => []
    | path :: waiting =>
      ⟨path, walk.count⟩ :: turns files most (take files { walk with waiting := waiting } path)

theorem Walk.run_cons {files : Sources} {walk : Walk} {path : String} {waiting : List String}
    (h : walk.waiting = path :: waiting) (most : Nat) :
    run files (most + 1) walk = run files most (take files { walk with waiting := waiting } path) := by
  rw [run, h]

theorem Walk.turns_cons {files : Sources} {walk : Walk} {path : String} {waiting : List String}
    (h : walk.waiting = path :: waiting) (most : Nat) :
    turns files (most + 1) walk =
      ⟨path, walk.count⟩ :: turns files most (take files { walk with waiting := waiting } path) := by
  rw [turns, h]

-- The files that are loaded to link a project.
def loads (files : Sources) (entry : String) : List String :=
  (Walk.turns files (files.size + 1) (.start entry)).flatMap (Turn.loads files)

-- What a name stands for goes by the paths of the files alone.
theorem resolve_eq_of_paths {first second : Sources} (h : second.paths = first.paths) :
    second.resolve = first.resolve := by
  have hcontains : second.contains = first.contains := by
    funext path
    rw [Bool.eq_iff_iff, ← Sources.mem_paths_iff, ← Sources.mem_paths_iff, h]
  have hlocate : second.locate? = first.locate? := by
    unfold Sources.locate?
    rw [hcontains]
  unfold Sources.resolve
  rw [hlocate]

-- The contents at the paths are the same in both projects.
def Agree (first second : Sources) (paths : List String) : Prop :=
  ∀ path ∈ paths, second.get? path = first.get? path

namespace Agree

variable {first second : Sources} {walk : Walk} {path : String}

theorem append_iff {paths others : List String} :
    Agree first second (paths ++ others) ↔ Agree first second paths ∧ Agree first second others :=
  List.forall_mem_append

section Turn

variable (hresolve : second.resolve = first.resolve)

include hresolve

theorem mentions_eq {turn : Turn} (h : second.get? turn.path = first.get? turn.path) :
    turn.mentions second = turn.mentions first := by
  unfold Turn.mentions Turn.script? readable? registered?
  rw [h, hresolve]

theorem next_eq {turn : Turn} (h : second.get? turn.path = first.get? turn.path) :
    turn.next second = turn.next first := by
  unfold Turn.next Turn.script? readable? registered?
  rw [h, hresolve]

theorem definition?_eq {turn : Turn} (h : second.get? turn.path = first.get? turn.path) :
    turn.definition? second = turn.definition? first := by
  unfold Turn.definition? Turn.script? readable? registered?
  rw [h, hresolve]

theorem load?_eq (importer : String) :
    Mention.load? second importer = Mention.load? first importer := by
  unfold Mention.load?
  rw [hresolve]

theorem opened_eq (h : second.get? path = first.get? path) :
    Walk.opened second walk path = Walk.opened first walk path := by
  have hscript : ∀ (walk : Walk) source, Walk.openScript second walk path source =
      Walk.openScript first walk path source := by
    intro walk source
    unfold Walk.openScript
    rw [next_eq hresolve h]
  unfold Walk.opened
  rw [h]
  simp only [hscript]

-- The exports of a script are looked at only if some are required.
omit hresolve in
theorem missingExports_eq_of_required {importer : String} {source : List Char} {mention : Mention}
    (h : mention.required ≠ [] → second.get? path = first.get? path) :
    Walk.missingExports second importer source path mention =
      Walk.missingExports first importer source path mention := by
  unfold Walk.missingExports
  by_cases hrequired : mention.required = []
  · cases second.get? path <;> cases first.get? path <;> simp [hrequired]
  · rw [h hrequired]

-- A mention is followed by a look at nothing but the file that is loaded because of it.
theorem follow_eq {importer : String} {source : List Char} {mention : Mention}
    (h : ∀ path ∈ mention.load? first importer, second.get? path = first.get? path) :
    Walk.follow second importer source walk mention =
      Walk.follow first importer source walk mention := by
  unfold Mention.load? at h
  unfold Walk.follow
  rw [hresolve]
  cases htarget : first.resolve importer mention.name with
  | file path =>
      rw [htarget] at h
      dsimp only at h ⊢
      rcases hkind : FileKind.ofPath? path with _ | (_ | _ | _)
      · rfl
      · rw [hkind] at h
        dsimp only at h ⊢
        rw [missingExports_eq_of_required fun hrequired => h path (by simp [hrequired])]
      · rw [hkind] at h
        dsimp only at h ⊢
        rw [h path rfl]
      · rfl
  | _ => rfl

theorem loads_eq {turn : Turn} (h : second.get? turn.path = first.get? turn.path) :
    turn.loads second = turn.loads first := by
  unfold Turn.loads
  rw [mentions_eq hresolve h, load?_eq hresolve]

-- A turn goes by the files that it loads.
theorem take_eq (h : Agree first second (Turn.loads first ⟨path, walk.count⟩)) :
    Walk.take second walk path = Walk.take first walk path := by
  have hpath : second.get? path = first.get? path := h path List.mem_cons_self
  have hfollow : ∀ start : Walk,
      (Turn.mentions first ⟨path, walk.count⟩).foldl
          (Walk.follow second path (Walk.sourceOf first path)) start =
        (Turn.mentions first ⟨path, walk.count⟩).foldl
          (Walk.follow first path (Walk.sourceOf first path)) start := by
    intro start
    refine List.foldl_ext _ _ _ fun earlier mention hmention => follow_eq hresolve fun load hload => ?_
    exact h load (List.mem_cons_of_mem _ (List.mem_filterMap.mpr ⟨mention, hmention, hload⟩))
  have hsource : Walk.sourceOf second path = Walk.sourceOf first path := by
    unfold Walk.sourceOf
    rw [hpath]
  rw [Walk.take_eq, Walk.take_eq, mentions_eq hresolve hpath, definition?_eq hresolve hpath,
    opened_eq hresolve hpath, hsource, hfollow]

-- So do all turns of a walk.
theorem run_eq {most : Nat}
    (h : Agree first second ((Walk.turns first most walk).flatMap (Turn.loads first))) :
    Walk.run second most walk = Walk.run first most walk ∧
      (Walk.turns second most walk).flatMap (Turn.loads second) =
        (Walk.turns first most walk).flatMap (Turn.loads first) := by
  induction most generalizing walk with
  | zero => simp [Walk.run, Walk.turns]
  | succ most ih =>
      cases hwaiting : walk.waiting with
      | nil => simp [Walk.run, Walk.turns, hwaiting]
      | cons path waiting =>
          rw [Walk.turns_cons hwaiting, List.flatMap_cons, Agree.append_iff] at h
          obtain ⟨hturn, hlater⟩ := h
          have htake : Walk.take second { walk with waiting := waiting } path =
              Walk.take first { walk with waiting := waiting } path :=
            take_eq hresolve hturn
          have hloads : Turn.loads second ⟨path, walk.count⟩ = Turn.loads first ⟨path, walk.count⟩ :=
            loads_eq hresolve (hturn path List.mem_cons_self)
          obtain ⟨hrun, hmore⟩ := ih hlater
          rw [Walk.run_cons hwaiting, Walk.run_cons hwaiting, Walk.turns_cons hwaiting,
            Walk.turns_cons hwaiting, List.flatMap_cons, List.flatMap_cons, htake, hloads, hmore]
          exact ⟨hrun, rfl⟩

end Turn

end Agree

-- Two projects with the same paths that agree on the files which are loaded to link the first one
-- are linked alike, or fail with the same findings, and need the same from outside. What the other
-- files hold is of no account, and neither are they loaded for the second project.
theorem link_eq_of_agree {first second : Sources} {entry : String}
    (hpaths : second.paths = first.paths) (h : Agree first second (loads first entry)) :
    link second entry = link first entry ∧ outside second entry = outside first entry ∧
      loads second entry = loads first entry := by
  have hsize : second.size = first.size := by
    simpa [Sources.paths, Sources.size] using congrArg List.length hpaths
  obtain ⟨hrun, hloads⟩ := Agree.run_eq (resolve_eq_of_paths hpaths) h
  unfold link outside walkFrom loads
  rw [hsize, hrun, hloads]
  exact ⟨rfl, rfl, rfl⟩

-- A project with a script that nothing mentions.
def withStray (stray : String) : Sources := .ofList
  [("main.js", "import \x7b a \x7d from './a.js';\nimport './main.css';\n"),
    ("a.js", "export const a = 1;\n"), ("main.css", "b\x7b\x7d"), ("stray.js", stray)]

theorem link_eq_of_agree_strayScript :
    (withStray "(").paths = (withStray "let b;").paths ∧
      Agree (withStray "let b;") (withStray "(") (loads (withStray "let b;") "main.js") ∧
      link (withStray "(") "main.js" = link (withStray "let b;") "main.js" ∧
      outside (withStray "(") "main.js" = outside (withStray "let b;") "main.js" ∧
      loads (withStray "(") "main.js" = loads (withStray "let b;") "main.js" := by
  have hpaths : (withStray "(").paths = (withStray "let b;").paths := by decide
  have hagree : Agree (withStray "let b;") (withStray "(")
      (loads (withStray "let b;") "main.js") := by
    unfold Agree
    decide +kernel
  exact ⟨hpaths, hagree, link_eq_of_agree hpaths hagree⟩

end LivePreview.Linking
