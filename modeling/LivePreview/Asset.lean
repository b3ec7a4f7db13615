import LivePreview.Path
import LivePreview.Text.Quoted

/-!
Imported images, fonts and media. Projects mention such files without having them, so each is
replaced by a module whose default export is a small data address.
-/

namespace LivePreview.Asset

/-- A grey square. -/
def vectorPlaceholder : String :=
  "data:image/svg+xml,%3Csvg%20xmlns%3D%27http%3A%2F%2Fwww.w3.org%2F2000%2Fsvg%27%20width%3D%27100%27%20height%3D%27100%27%3E%3Crect%20width%3D%27100%27%20height%3D%27100%27%20fill%3D%27%23e5e7eb%27%2F%3E%3C%2Fsvg%3E"

/-- A transparent image of one pixel. -/
def pixelPlaceholder : String :=
  "data:image/gif;base64,R0lGODlhAQABAIAAAAAAAP///yH5BAEAAAAALAAAAAABAAEAAAIBRAA7"

/-- Extensions of images made of pixels. -/
def pictureExtensions : List String :=
  ["png", "jpg", "jpeg", "gif", "webp", "avif", "bmp", "ico"]

/-- Extensions of fonts and media. -/
def mediaExtensions : List String :=
  ["woff", "woff2", "ttf", "otf", "eot", "mp4", "webm", "mp3", "wav"]

/-- The extension of an import name without its query and fragment. -/
def extension? (name : String) : Option String :=
  Path.extension? (String.ofList (name.toList.takeWhile fun c => c != '?' && c != '#'))

/-- The import name is that of an asset. -/
def isAsset (name : String) : Bool :=
  (extension? name).any fun extension =>
    extension == "svg" || pictureExtensions.contains extension || mediaExtensions.contains extension

/-- The data address that stands in for an asset; fonts and media become empty. -/
def placeholder (name : String) : String :=
  match extension? name with
  | some extension =>
    if extension = "svg" then vectorPlaceholder
    else if pictureExtensions.contains extension then pixelPlaceholder
    else ""
  | none => ""

/-- The module that stands in for an asset. -/
def standInModule (name : String) : String :=
  "export default " ++ Text.quoted (placeholder name) ++ ";\n"

end LivePreview.Asset
