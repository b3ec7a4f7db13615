import LivePreview.FileKind

/-!
The files of a project in memory: a map from paths to contents, kept in ascending order of the
paths. `prepare` turns the files as they were handed over into those a bundle is made of.
-/

namespace LivePreview

/-- A finite map from paths to contents. -/
structure Sources where
  /-- The files in ascending order of their paths. -/
  toList : List (String × String)
  ascending : toList.Pairwise fun a b => a.1 < b.1

namespace Sources

-- Equal lists of files are equal maps.
theorem ext {first second : Sources} (h : first.toList = second.toList) : first = second := by
  cases first; cases second; cases h; rfl

instance : DecidableEq Sources := fun first second =>
  decidable_of_iff (first.toList = second.toList) ⟨ext, fun h => h ▸ rfl⟩

instance : Repr Sources := ⟨fun files => reprPrec files.toList⟩

/-- No files. -/
def empty : Sources := ⟨[], .nil⟩

instance : Inhabited Sources := ⟨empty⟩

/-- The entries with one file put in at its place in the order, in the stead of an older one. -/
def insertEntry (path content : String) : List (String × String) → List (String × String)
  | [] => [(path, content)]
  | file :: files =>
    if path < file.1 then (path, content) :: file :: files
    else if path = file.1 then (path, content) :: files
    else file :: insertEntry path content files

theorem mem_insertEntry {path content : String} {files : List (String × String)}
    {file : String × String} (h : file ∈ insertEntry path content files) :
    file = (path, content) ∨ file ∈ files := by
  induction files with
  | nil => simpa [insertEntry] using h
  | cons head files ih =>
    simp only [insertEntry] at h
    split at h
    · simpa using h
    · split at h
      · rcases List.mem_cons.1 h with h | h
        · exact .inl h
        · exact .inr (List.mem_cons_of_mem _ h)
      · rcases List.mem_cons.1 h with h | h
        · exact .inr (h ▸ List.mem_cons_self)
        · exact (ih h).imp id (List.mem_cons_of_mem _)

-- Putting in a file keeps the order.
theorem pairwise_insertEntry {path content : String} {files : List (String × String)}
    (h : files.Pairwise fun a b => a.1 < b.1) :
    (insertEntry path content files).Pairwise fun a b => a.1 < b.1 := by
  induction files with
  | nil => simp [insertEntry]
  | cons head files ih =>
    obtain ⟨hhead, htail⟩ := List.pairwise_cons.1 h
    simp only [insertEntry]
    split
    · rename_i hlt
      refine List.pairwise_cons.2 ⟨?_, h⟩
      intro other hother
      rcases List.mem_cons.1 hother with rfl | hother
      · exact hlt
      · exact String.lt_trans hlt (hhead other hother)
    · split
      · rename_i heq
        exact List.pairwise_cons.2 ⟨fun other hother => heq ▸ hhead other hother, htail⟩
      · rename_i hnot hne
        refine List.pairwise_cons.2 ⟨?_, ih htail⟩
        intro other hother
        rcases mem_insertEntry hother with rfl | hother
        · grind
        · exact hhead other hother

/-- The files with one more, which takes the place of an older one at its path. -/
def insert (files : Sources) (path content : String) : Sources :=
  ⟨insertEntry path content files.toList, pairwise_insertEntry files.ascending⟩

/-- The map of a list of files; of two at one path the later one counts. -/
def ofList (files : List (String × String)) : Sources :=
  files.foldl (fun acc file => acc.insert file.1 file.2) empty

/-- The content at a path. -/
def get? (files : Sources) (path : String) : Option String := files.toList.lookup path

/-- There is a file at the path. -/
def contains (files : Sources) (path : String) : Bool := (files.get? path).isSome

/-- The paths in ascending order. -/
def paths (files : Sources) : List String := files.toList.map (·.1)

/-- The number of files. -/
def size (files : Sources) : Nat := files.toList.length

/-- The extensions tried behind a name that is no path yet, in order of preference. -/
def impliedExtensions : List String := ["", ".tsx", ".ts", ".jsx", ".js", ".json"]

/-- The paths a name may stand for: the name itself with an implied extension, then an index file
in the directory of that name. -/
def candidates (name : String) : List String :=
  impliedExtensions.map (name ++ ·) ++ impliedExtensions.map (name ++ "/index" ++ ·)

/-- The name without slashes at its end. -/
def dropTrailingSlashes (name : String) : String :=
  String.ofList (name.toList.reverse.dropWhile (· == '/')).reverse

/-- The file a name stands for. -/
def locate? (files : Sources) (name : String) : Option String :=
  let name := dropTrailingSlashes name
  if name = "" then none else (candidates name).find? files.contains

/-- The path under which the files hold what a path means: the path itself, otherwise the first one
that has the same normal form. -/
def spelling? (files : Sources) (path : String) : Option String :=
  if files.contains path then some path
  else files.paths.find? fun other => Path.normalize other == Path.normalize path

end Sources

/-- The files a bundle is made of, and what was left out because its content is not source. -/
structure Prepared where
  files : Sources
  skipped : List String
deriving DecidableEq, Repr

namespace Prepared

/-- What becomes of one file as it was handed over: nothing for what is no candidate, otherwise its
normal path with the verdict on its content. -/
def admit? (skipInvalid : Bool) (file : String × String) : Option (String × Bool) :=
  if FileKind.isCandidate file.1 then
    let path := Path.normalize file.1
    (FileKind.ofPath? path).map fun kind => (path, !skipInvalid || kind.mayHold file.2)
  else none

/-- The prepared files with one more. -/
def add (skipInvalid : Bool) (prepared : Prepared) (file : String × String) : Prepared :=
  match admit? skipInvalid file with
  | none => prepared
  | some (path, true) => { prepared with files := prepared.files.insert path file.2 }
  | some (path, false) => { prepared with skipped := prepared.skipped ++ [path] }

end Prepared

/-- The files a bundle is made of: candidates at their normal paths, in the order of the paths they
were handed over under, so that the last of several spellings of a path counts. With `skipInvalid`,
files whose content is not source are left out. -/
def Sources.prepare (files : Sources) (skipInvalid : Bool) : Prepared :=
  files.toList.foldl (Prepared.add skipInvalid) ⟨.empty, []⟩

end LivePreview
