import LivePreview.Text.Search

/-!
Paths of the files of a project. A path is a list of segments separated by `/`, relative to the root
of the sources; a name by which a file may also be called starts with tokens that stand for that
root. `normalize` removes those tokens, `join` follows a relative name from a directory.
-/

namespace LivePreview.Path

/-- The tokens that stand for the root of the sources when they lead a path. -/
def rootTokens : List (List Char) := ["./".toList, "/".toList, "@/".toList, "src/".toList]

/-- The path without one leading root token, if it has one. -/
def dropRootToken? (path : List Char) : Option (List Char) :=
  rootTokens.findSome? fun token => Text.after? token path

-- Dropping a root token makes a path shorter.
theorem length_lt_of_dropRootToken? {path rest : List Char} (h : dropRootToken? path = some rest) :
    rest.length < path.length := by
  obtain ⟨token, hmem, htoken⟩ := List.exists_of_findSome?_eq_some h
  have hpos : 0 < token.length := by
    simp only [rootTokens, List.mem_cons, List.not_mem_nil, or_false] at hmem
    rcases hmem with rfl | rfl | rfl | rfl <;> decide
  rw [Text.after?_eq_some_iff.1 htoken, List.length_append]
  omega

/-- The path without its leading root tokens. -/
def dropRootTokens (path : List Char) : List Char :=
  match _h : dropRootToken? path with
  | some rest => dropRootTokens rest
  | none => path
termination_by path.length
decreasing_by exact length_lt_of_dropRootToken? _h

/-- The path relative to the root of the sources. -/
def normalize (path : String) : String := String.ofList (dropRootTokens path.toList)

/-- One segment further: `.` and the empty segment stay, `..` goes back by one segment and stays at
the root. -/
def advance (walked : List (List Char)) (segment : List Char) : List (List Char) :=
  if segment = [] ∨ segment = ['.'] then walked
  else if segment = ['.', '.'] then walked.dropLast
  else walked ++ [segment]

/-- The segments of a path. -/
def segments (path : List Char) : List (List Char) := path.splitOn '/'

/-- The path whose segments are given. -/
def ofSegments (segments : List (List Char)) : List Char := ['/'].intercalate segments

/-- The path reached by walking from `base` along `relative`. -/
def join (base relative : String) : String :=
  String.ofList (ofSegments ((segments base.toList ++ segments relative.toList).foldl advance []))

/-- The last segment. -/
def lastSegment (path : List Char) : List Char :=
  (path.reverse.takeWhile (· != '/')).reverse

/-- The last segment of a path: the name of the file. -/
def baseName (path : String) : String := String.ofList (lastSegment path.toList)

/-- What stands before the last segment, empty at the root. -/
def directory (path : String) : String :=
  String.ofList (path.toList.reverse.dropWhile (· != '/')).tail.reverse

/-- The stem and the suffix of a name around its last dot. -/
def splitLastDot? (name : List Char) : Option (List Char × List Char) :=
  if '.' ∈ name then
    some ((name.reverse.dropWhile (· != '.')).tail.reverse,
      (name.reverse.takeWhile (· != '.')).reverse)
  else none

/-- The extension of the last segment in lower case. A name that starts with its only dot or ends
with a dot has none. -/
def extension? (path : String) : Option String :=
  match splitLastDot? (lastSegment path.toList) with
  | some (stem, suffix) =>
    if stem = [] ∨ suffix = [] then none else some (String.ofList (suffix.map Char.toLower))
  | none => none

/-- The name is to be followed from the directory of the file that mentions it. -/
def isRelative (name : String) : Bool :=
  Text.startsWith "./".toList name.toList || Text.startsWith "../".toList name.toList ||
    name == "." || name == ".."

/-- The name belongs to an installed package: it is neither relative nor rooted, and it is no
address with a scheme. -/
def isBare (name : String) : Bool :=
  name != "" && !Text.startsWith ['.'] name.toList && !Text.startsWith ['/'] name.toList &&
    !Text.startsWith "@/".toList name.toList && !name.toList.contains ':'

end LivePreview.Path
