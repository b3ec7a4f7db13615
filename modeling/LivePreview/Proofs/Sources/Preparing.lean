import LivePreview.Proofs.Sources.Spelling
import LivePreview.Proofs.Text.ByteOrder

namespace LivePreview

-- The content can be source of the kind that the path tells.
def FileKind.fits (path content : String) : Bool := (ofPath? path).any (·.mayHold content)

theorem FileKind.fits_iff {path content : String} :
    fits path content = true ↔ ∃ kind, ofPath? path = some kind ∧ kind.mayHold content = true :=
  Option.any_eq_true _ _

theorem FileKind.exists_of_isCandidate {path : String} (h : isCandidate path = true) :
    ∃ kind, ofPath? path = some kind := by
  unfold isCandidate at h
  simp only [Bool.and_eq_true] at h
  exact Option.isSome_iff_exists.mp h.1.1

namespace Prepared

-- A candidate keeps its kind at its normal path, so that there is a verdict on each.
theorem admit?_eq (skip : Bool) (file : String × String) :
    admit? skip file =
      if FileKind.isCandidate file.1 then
        some (Path.normalize file.1, !skip || FileKind.fits file.1 file.2)
      else none := by
  unfold admit?
  dsimp only
  split
  · rename_i hcandidate
    obtain ⟨kind, hkind⟩ := FileKind.exists_of_isCandidate hcandidate
    rw [FileKind.ofPath?_normalize, FileKind.fits, hkind, Option.map_some, Option.any_some]
  · rfl

theorem admit?_eq_kept_iff {skip : Bool} {file : String × String} {path : String} :
    admit? skip file = some (path, true) ↔ FileKind.isCandidate file.1 = true ∧
      Path.normalize file.1 = path ∧ (skip = true → FileKind.fits file.1 file.2 = true) := by
  rw [admit?_eq]
  cases skip <;> cases FileKind.isCandidate file.1 <;> simp

-- What is passed over is told by one look at each file, whatever was taken before.
theorem skipped_foldl_add (skip : Bool) (files : List (String × String)) (prepared : Prepared) :
    (files.foldl (add skip) prepared).skipped = prepared.skipped ++
      (files.filter fun file => skip && FileKind.isCandidate file.1 &&
        !FileKind.fits file.1 file.2).map (Path.normalize ·.1) := by
  induction files generalizing prepared with
  | nil => exact (List.append_nil _).symm
  | cons file files ih =>
      rw [List.foldl_cons, ih, List.filter_cons, add, admit?_eq]
      cases FileKind.isCandidate file.1 with
      | false => simp
      | true => cases skip <;> cases FileKind.fits file.1 file.2 <;> simp

end Prepared

namespace Sources

-- What was handed over for a path: a candidate that means the path, with content that can be source
-- of its kind where this is asked for.
structure Offers (files : Sources) (skip : Bool) (path key content : String) : Prop where
  held : files.get? key = some content
  candidate : FileKind.isCandidate key = true
  means : Path.normalize key = path
  fits : skip = true → ∃ kind, FileKind.ofPath? key = some kind ∧ kind.mayHold content = true

variable {files : Sources} {skip : Bool} {path key content : String}

theorem offers_iff : files.Offers skip path key content ↔
    (key, content) ∈ files.toList.filter fun file =>
      Prepared.admit? skip file = some (path, true) := by
  rw [List.mem_filter, decide_eq_true_iff, Prepared.admit?_eq_kept_iff, FileKind.fits_iff,
    ← get?_eq_some_iff]
  exact ⟨fun h => ⟨h.held, h.candidate, h.means, h.fits⟩,
    fun ⟨hheld, hcandidate, hmeans, hfits⟩ => ⟨hheld, hcandidate, hmeans, hfits⟩⟩

-- All other keys with which a path is offered are less than the one it is offered with.
def OffersLast (files : Sources) (skip : Bool) (path key content : String) : Prop :=
  files.Offers skip path key content ∧ ∀ other held, files.Offers skip path other held →
    other ≠ key → Text.bytes other < Text.bytes key

theorem OffersLast.unique {other held : String} (h : files.OffersLast skip path key content)
    (h' : files.OffersLast skip path other held) : key = other ∧ content = held := by
  have hkey : key = other := by
    by_contra hne
    exact List.lt_asymm (h.2 other held h'.1 (Ne.symm hne)) (h'.2 key content h.1 hne)
  subst hkey
  have hsame := h.1.held.symm.trans h'.1.held
  exact ⟨rfl, Option.some.inj hsame⟩

-- The files are handed over in the order of their keys.
theorem offersLast_of_getLast? (h : (files.toList.filter fun file =>
    Prepared.admit? skip file = some (path, true)).getLast? = some (key, content)) :
    files.OffersLast skip path key content := by
  refine ⟨offers_iff.mpr (List.mem_of_getLast? h), fun other held hother hne => ?_⟩
  obtain ⟨front, hfront⟩ := List.getLast?_eq_some_iff.mp h
  have hascending := files.ascending.filter fun file =>
    decide (Prepared.admit? skip file = some (path, true))
  have hmem := offers_iff.mp hother
  rw [hfront] at hascending hmem
  rcases List.mem_append.mp hmem with hmem | hmem
  · rw [Text.bytes_lt_bytes_iff]
    exact (List.pairwise_append.mp hascending).2.2 _ hmem _ (List.mem_singleton_self _)
  · exact absurd (congrArg Prod.fst (List.mem_singleton.mp hmem)) hne

theorem get?_prepare_iff :
    (files.prepare skip).files.get? path = some content ↔
      ∃ key, files.OffersLast skip path key content := by
  rw [get?_prepare]
  constructor
  · intro h
    obtain ⟨⟨key, _⟩, hlast, rfl⟩ := Option.map_eq_some_iff.mp h
    exact ⟨key, offersLast_of_getLast? hlast⟩
  · rintro ⟨key, hkey⟩
    have hne := List.ne_nil_of_mem (offers_iff.mp hkey.1)
    obtain ⟨⟨other, held⟩, hlast⟩ := Option.isSome_iff_exists.mp (List.getLast?_isSome.mpr hne)
    obtain ⟨rfl, rfl⟩ := hkey.unique (offersLast_of_getLast? hlast)
    rw [hlast, Option.map_some]

theorem mem_paths_prepare_iff :
    path ∈ (files.prepare skip).files.paths ↔
      ∃ key content, files.Offers skip path key content := by
  rw [← contains_iff_mem_paths, contains, get?_prepare, Option.isSome_map, List.getLast?_isSome]
  constructor
  · intro hne
    obtain ⟨⟨key, content⟩, hmem⟩ := List.exists_mem_of_ne_nil _ hne
    exact ⟨key, content, offers_iff.mpr hmem⟩
  · rintro ⟨key, content, hoffers⟩
    exact List.ne_nil_of_mem (offers_iff.mp hoffers)

-- A path of the prepared files is normal and tells a kind.
theorem normal_of_mem_prepare (h : path ∈ (files.prepare skip).files.paths) :
    Path.normalize path = path ∧ ∃ kind, FileKind.ofPath? path = some kind := by
  obtain ⟨key, content, hoffers⟩ := mem_paths_prepare_iff.mp h
  obtain ⟨kind, hkind⟩ := FileKind.exists_of_isCandidate hoffers.candidate
  have hmeans := hoffers.means
  subst hmeans
  exact ⟨Path.normalize_normalize key, kind, (FileKind.ofPath?_normalize key).trans hkind⟩

theorem skipped_prepare (files : Sources) (skip : Bool) :
    (files.prepare skip).skipped =
      (files.toList.filter fun file => skip && FileKind.isCandidate file.1 &&
        !FileKind.fits file.1 file.2).map (Path.normalize ·.1) :=
  Prepared.skipped_foldl_add skip files.toList ⟨empty, []⟩

-- A path is prepared if it is offered, with the content of the last offer by the bytes of the keys;
-- it is normal and tells a kind. What is passed over is each candidate with content that is not
-- source.
theorem prepare_offered (files : Sources) (skip : Bool) :
    (∀ path, path ∈ (files.prepare skip).files.paths ↔
      ∃ key content, files.Offers skip path key content) ∧
    (∀ path content, (files.prepare skip).files.get? path = some content ↔
      ∃ key, files.OffersLast skip path key content) ∧
    (∀ path ∈ (files.prepare skip).files.paths,
      Path.normalize path = path ∧ ∃ kind, FileKind.ofPath? path = some kind) ∧
    (files.prepare skip).skipped =
      (files.toList.filter fun file => skip && FileKind.isCandidate file.1 &&
        !FileKind.fits file.1 file.2).map (Path.normalize ·.1) :=
  ⟨fun _ => mem_paths_prepare_iff, fun _ _ => get?_prepare_iff, fun _ => normal_of_mem_prepare,
    skipped_prepare files skip⟩

-- The last spelling of the script does not count, since its content is no source.
def brokenSpelling : Sources :=
  .ofList [("./a.js", "1"), ("/a.js", "2"), ("src/a.js", ")"), ("b.css", ")"), ("a.txt", "1")]

theorem prepare_offered_brokenSpelling :
    "a.js" ∈ (brokenSpelling.prepare true).files.paths ∧ Path.normalize "a.js" = "a.js" ∧
      brokenSpelling.OffersLast true "a.js" "/a.js" "2" ∧
      (brokenSpelling.prepare true).skipped = ["b.css", "a.js"] := by
  obtain ⟨_, hcontent, hnormal, hskipped⟩ := prepare_offered brokenSpelling true
  have hpath : "a.js" ∈ (brokenSpelling.prepare true).files.paths := by decide +kernel
  obtain ⟨key, hlast⟩ := (hcontent "a.js" "2").mp (by decide +kernel)
  have hkey : ∀ file ∈ brokenSpelling.toList, file.2 = "2" → file.1 = "/a.js" := by decide +kernel
  obtain rfl := hkey (key, "2") (get?_eq_some_iff.mp hlast.1.held) rfl
  refine ⟨hpath, (hnormal "a.js" hpath).1, hlast, ?_⟩
  rw [hskipped]
  decide +kernel

end Sources

end LivePreview
