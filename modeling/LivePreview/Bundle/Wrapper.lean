import LivePreview.Text.Quoted

/-!
The module that mounts a root component which does not mount itself. It imports the component, puts
it behind a boundary that reports errors to the page around the preview, and attaches it to an
element. The module is a template with slots; what goes into a slot is a literal, so that no value
can change the code around it.
-/

namespace LivePreview

/-- What a wrapper is made for. -/
structure Wrapper where
  /-- The path of the root component. -/
  entryPath : String
  /-- The named exports to try when there is no default one. -/
  candidates : List String
  /-- The type of the messages that report errors. -/
  channel : String
  /-- The identifier of the element to mount into. -/
  mountElement : String
deriving DecidableEq, Repr

namespace Wrapper

/-- The channel on which errors are reported unless another one is chosen. -/
def defaultChannel : String := "preview-error"

/-- The element that is mounted into unless another one is chosen. -/
def defaultMountElement : String := "root"

/-- A wrapper with the usual settings. -/
def ofEntry (entryPath : String) : Wrapper :=
  ⟨entryPath, ["App", "Main", "Root", "Page", "Home"], defaultChannel, defaultMountElement⟩

/-- The slots of the template. -/
inductive Slot where
  | entry
  | candidates
  | channel
  | mount
deriving DecidableEq, Repr

/-- A piece of the template. -/
inductive Piece where
  | text (s : String)
  | slot (slot : Slot)
deriving DecidableEq, Repr

/-- The literal that goes into a slot. -/
def literal (wrapper : Wrapper) : Slot → String
  | .entry => Text.quoted ("./" ++ wrapper.entryPath)
  | .candidates => "[" ++ ",".intercalate (wrapper.candidates.map Text.quoted) ++ "]"
  | .channel => Text.quoted wrapper.channel
  | .mount => Text.quoted wrapper.mountElement

/-- The lines of the template. -/
def template : List (List Piece) := [
    [.text "import * as EntryModule from ", .slot .entry, .text ";"],
    [.text "import React from \"react\";"],
    [.text "import \x7b createRoot \x7d from \"react-dom/client\";"],
    [],
    [.text "const EXPORT_CANDIDATES = ", .slot .candidates, .text ";"],
    [],
    [.text "function resolveComponent(mod) \x7b"],
    [.text "  if (mod && typeof mod.default === \"function\") \x7b"],
    [.text "    return mod.default;"],
    [.text "  \x7d"],
    [.text "  for (const name of EXPORT_CANDIDATES) \x7b"],
    [.text "    if (mod && typeof mod[name] === \"function\") \x7b"],
    [.text "      return mod[name];"],
    [.text "    \x7d"],
    [.text "  \x7d"],
    [.text "  for (const key of Object.keys(mod || \x7b\x7d)) \x7b"],
    [.text "    if (typeof mod[key] === \"function\") \x7b"],
    [.text "      return mod[key];"],
    [.text "    \x7d"],
    [.text "  \x7d"],
    [.text "  return null;"],
    [.text "\x7d"],
    [],
    [.text "function notifyHost(error) \x7b"],
    [.text "  const payload = \x7b"],
    [.text "    type: ", .slot .channel, .text ","],
    [.text "    error: \x7b"],
    [.text "      message: String((error && error.message) || error),"],
    [.text "      stack: String((error && error.stack) || \"\"),"],
    [.text "    \x7d,"],
    [.text "  \x7d;"],
    [.text "  if (typeof window !== \"undefined\" && window.parent) \x7b"],
    [.text "    window.parent.postMessage(payload, \"*\");"],
    [.text "  \x7d"],
    [.text "\x7d"],
    [],
    [.text "class PreviewErrorBoundary extends React.Component \x7b"],
    [.text "  constructor(props) \x7b"],
    [.text "    super(props);"],
    [.text "    this.state = \x7b error: null \x7d;"],
    [.text "  \x7d"],
    [],
    [.text "  static getDerivedStateFromError(error) \x7b"],
    [.text "    return \x7b error \x7d;"],
    [.text "  \x7d"],
    [],
    [.text "  componentDidCatch(error) \x7b"],
    [.text "    notifyHost(error);"],
    [.text "  \x7d"],
    [],
    [.text "  render() \x7b"],
    [.text "    if (this.state.error) \x7b"],
    [.text "      return null;"],
    [.text "    \x7d"],
    [.text "    return this.props.children;"],
    [.text "  \x7d"],
    [.text "\x7d"],
    [],
    [.text "const Root = resolveComponent(EntryModule);"],
    [.text "const container = document.getElementById(", .slot .mount, .text ");"],
    [],
    [.text "if (!Root) \x7b"],
    [.text "  notifyHost(new Error(\"No component export found in \" + ", .slot .entry, .text "));"],
    [.text "\x7d else if (container) \x7b"],
    [.text "  createRoot(container).render("],
    [.text "    React.createElement(PreviewErrorBoundary, null, React.createElement(Root))"],
    [.text "  );"],
    [.text "\x7d"]]

/-- The text of a piece. -/
def pieceText (wrapper : Wrapper) : Piece → String
  | .text s => s
  | .slot slot => wrapper.literal slot

/-- The source of the wrapper module. -/
def source (wrapper : Wrapper) : String :=
  String.join (template.map fun line => String.join (line.map wrapper.pieceText) ++ "\n")

end Wrapper

end LivePreview
