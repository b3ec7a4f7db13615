import LivePreview.Sources

/-!
The entry point of a project: the file from which the bundle is built.
-/

namespace LivePreview

/-- The file a bundle starts from, and whether it attaches itself to the page. -/
structure EntryPoint where
  path : String
  mountsItself : Bool
deriving DecidableEq, Repr

namespace EntryPoint

/-- Files that start an application, in order of preference. -/
def bootstrapPaths : List String :=
  ["main.tsx", "main.jsx", "main.ts", "main.js", "index.tsx", "index.jsx", "index.ts", "index.js"]

/-- Files that hold a root component, in order of preference. -/
def rootComponentPaths : List String :=
  ["App.tsx", "App.jsx", "App.ts", "App.js", "app.tsx", "app.jsx"]

/-- Calls by which a file attaches itself to the page. -/
def mountCalls : List String := ["createRoot(", "hydrateRoot(", "ReactDOM.render(", ".mount("]

/-- Script extensions in order of preference. -/
def scriptExtensions : List String := ["tsx", "jsx", "ts", "js", "mjs", "cjs"]

/-- The content attaches itself to the page. -/
def mountsPage (content : String) : Bool :=
  mountCalls.any fun marker => Text.contains marker.toList content.toList

/-- The file is a script with content that looks like one. -/
def isUsable (path content : String) : Bool :=
  FileKind.ofPath? path == some .script && FileKind.script.mayHold content

/-- The entry at the path, if there is a usable file that passes the test. -/
def at? (files : Sources) (test : String → Bool) (path : String) : Option EntryPoint :=
  (files.get? path).bind fun content =>
    if isUsable path content && test content then some ⟨path, mountsPage content⟩ else none

/-- The first usable script with the extension. -/
def withExtension? (files : Sources) (extension : String) : Option EntryPoint :=
  (files.toList.find? fun file =>
      Path.extension? file.1 == some extension && isUsable file.1 file.2).map
    fun file => ⟨file.1, mountsPage file.2⟩

/-- The entry point of a project: a bootstrap file that mounts itself, else a root component, else
the first script by extension and path. -/
def detect? (files : Sources) : Option EntryPoint :=
  let bootstrap := bootstrapPaths.findSome? (at? files mountsPage)
  let root := (rootComponentPaths.findSome? (at? files fun _ => true)).map
    ({ · with mountsItself := false })
  bootstrap.or (root.or (scriptExtensions.findSome? (withExtension? files)))

end EntryPoint

end LivePreview
