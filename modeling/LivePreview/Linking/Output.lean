import LivePreview.Linking.Graph

/-!
The linked form of a project: one script that sets up a registry, defines every module in it and asks
for the entry, and one text of styles.
-/

namespace LivePreview.Linking

/-- The lines that set up the registry. -/
def registrySetup : List String := [
    "(function () \x7b",
    "  var __forge_registry = \x7b\x7d;",
    "  var __forge_cache = \x7b\x7d;",
    "  var __forge_externals = (typeof window !== \"undefined\" && window.__forge_externals) || \x7b\x7d;",
    "  function __forge_define(id, factory) \x7b",
    "    __forge_registry[id] = factory;",
    "  \x7d",
    "  function __forge_default(m) \x7b",
    "    return m && m.__esModule ? m.default : m;",
    "  \x7d",
    "  function __forge_reexport(target, source) \x7b",
    "    Object.keys(source).forEach(function (key) \x7b",
    "      if (key !== \"default\" && key !== \"__esModule\") \x7b",
    "        target[key] = source[key];",
    "      \x7d",
    "    \x7d);",
    "  \x7d",
    "  function __forge_require(id) \x7b",
    "    if (__forge_cache[id]) \x7b",
    "      return __forge_cache[id].exports;",
    "    \x7d",
    "    var factory = __forge_registry[id];",
    "    if (!factory) \x7b",
    "      if (id in __forge_externals) \x7b",
    "        return __forge_externals[id];",
    "      \x7d",
    "      throw new Error(\"Module not found: \" + id);",
    "    \x7d",
    "    var module = \x7b exports: \x7b\x7d \x7d;",
    "    __forge_cache[id] = module;",
    "    factory(module, module.exports);",
    "    return module.exports;",
    "  \x7d"]

/-- The definition of a module in the registry. -/
def definitionText (id : String) (body : List Char) : String :=
  s!"__forge_define({Text.quoted id}, function (module, exports) \x7b\n" ++ String.ofList body ++
    "\n\x7d);\n"

/-- The script that defines the modules and starts the entry. -/
def scriptText (definitions : List (String × List Char)) (entry : String) : String :=
  String.join (registrySetup.map (· ++ "\n")) ++
    String.join (definitions.map fun d => definitionText d.1 d.2) ++
    s!"__forge_require({Text.quoted entry});\n\x7d)();\n"

/-- A linked project. -/
structure Output where
  code : String
  css : String
  warnings : List String
  /-- The files that take part, in the order in which they were taken. -/
  modules : List String
deriving DecidableEq, Repr

/-- The result of a walk: a linked project, unless there are findings. -/
def Walk.output (walk : Walk) (entry : String) : Except (List Finding) Output :=
  if walk.findings = [] then
    .ok ⟨scriptText walk.definitions entry, String.join (walk.styles.map StyleSheet.section), [],
      walk.modules⟩
  else .error walk.findings

/-- Link the modules of a project that its entry reaches. -/
def link (files : Sources) (entry : String) : Except (List Finding) Output :=
  (walkFrom files entry).output entry

/-- What the modules reached from the entry need from outside the project. -/
def outside (files : Sources) (entry : String) : Outside := (walkFrom files entry).outside

end LivePreview.Linking
