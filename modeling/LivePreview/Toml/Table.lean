import LivePreview.Toml.Basic

/-!
TOML tables as they are put together from statements. A table remembers what made it: a table with a
header of its own is not extended by dotted names, one that a dotted name made gets no header, and
nothing is set twice.
-/

namespace LivePreview.Toml

/-- A statement of a TOML text. -/
inductive Statement where
  /-- The settings that follow belong to a table. -/
  | table (path : List String)
  /-- The settings that follow belong to one more table in a list. -/
  | item (path : List String)
  | setting (path : List String) (value : Toml)

/-- What made a table. -/
inductive Maker where
  /-- A header of its own. -/
  | header
  /-- The header of a table in it. -/
  | innerHeader
  /-- A dotted name. -/
  | dottedName
deriving DecidableEq, Repr

/-- A table under construction, or a part of one. -/
inductive Tree where
  | value (v : Toml)
  | table (maker : Maker) (fields : List (String × Tree))
  /-- The tables of a list, the last one first. -/
  | tables (last : List (String × Tree)) (earlier : List Tree)

/-- The fields of a table under construction. -/
abbrev Fields := List (String × Tree)

namespace Tree

mutual

/-- The finished value. -/
def toToml : Tree → Toml
  | .value v => v
  | .table _ fields => .table (fieldsToToml fields)
  | .tables last earlier => .list (itemsToToml earlier [.table (fieldsToToml last)])

/-- The finished fields. -/
def fieldsToToml : List (String × Tree) → List (String × Toml)
  | [] => []
  | (name, tree) :: fields => (name, toToml tree) :: fieldsToToml fields

/-- The finished items of a list that was kept backwards, in front of others. -/
def itemsToToml : List Tree → List Toml → List Toml
  | [], items => items
  | tree :: trees, items => itemsToToml trees (toToml tree :: items)

end

end Tree

namespace Fields

/-- The fields with one of them in the place of an older one of its name, or added. -/
def put (name : String) (tree : Tree) (fields : Fields) : Fields :=
  if (fields.lookup name).isSome then
    fields.map fun field => if field.1 = name then (name, tree) else field
  else fields ++ [(name, tree)]

/-- The fields with the table at a path changed. Tables that are not there are made; in a list the
last table is meant. The change sees what made the table. -/
def changeAt (maker : Maker) (change : Maker → Fields → Option Fields) :
    (path : List String) → Maker → Fields → Option Fields
  | [], self, fields => change self fields
  | name :: path, _, fields =>
    match fields.lookup name with
    | none => do
      let inner ← changeAt maker change path maker []
      pure (fields.put name (.table maker inner))
    | some (.value _) => none
    | some (.table self inner) =>
      if maker = .dottedName ∧ self = .header then none
      else do
        let inner ← changeAt maker change path self inner
        pure (fields.put name (.table self inner))
    | some (.tables last earlier) => do
      let last ← changeAt maker change path .header last
      pure (fields.put name (.tables last earlier))

/-- The fields with one more that was not there. -/
def add (name : String) (tree : Tree) (fields : Fields) : Option Fields :=
  if (fields.lookup name).isSome then none else some (fields ++ [(name, tree)])

/-- The path of the table, and the name in it, that a whole path means. -/
def splitLast? (path : List String) : Option (List String × String) :=
  path.getLast?.map fun name => (path.dropLast, name)

/-- The fields with a setting. A dotted name sets something in tables that dotted names made. -/
def set? (path : List String) (value : Toml) (self : Maker) (fields : Fields) : Option Fields := do
  let (tables, name) ← splitLast? path
  let change (maker : Maker) (fields : Fields) : Option Fields :=
    if tables ≠ [] ∧ maker ≠ .dottedName then none else fields.add name (.value value)
  changeAt .dottedName change tables self fields

/-- The fields with a table that has a header of its own. It may have been made by the header of a
table in it. -/
def startTable? (path : List String) (fields : Fields) : Option Fields := do
  let (tables, name) ← splitLast? path
  let change (_ : Maker) (fields : Fields) : Option Fields :=
    match fields.lookup name with
    | none => some (fields.put name (.table .header []))
    | some (.table .innerHeader inner) => some (fields.put name (.table .header inner))
    | some _ => none
  changeAt .innerHeader change tables .header fields

/-- The fields with one more table in a list. -/
def startItem? (path : List String) (fields : Fields) : Option Fields := do
  let (tables, name) ← splitLast? path
  let change (_ : Maker) (fields : Fields) : Option Fields :=
    match fields.lookup name with
    | none => some (fields.put name (.tables [] []))
    | some (.tables last earlier) =>
      some (fields.put name (.tables [] (.table .header last :: earlier)))
    | some _ => none
  changeAt .innerHeader change tables .header fields

end Fields

namespace Tree

/-- The table of the settings in a pair of braces. -/
def ofSettings? (settings : List (List String × Toml)) : Option Tree := do
  let fields ← settings.foldlM (fun (fields : Fields) setting =>
    fields.set? setting.1 setting.2 .header) []
  pure (.table .header fields)

/-- The fields of a text after one more statement, with the path of the table to which settings
belong. -/
def obey (state : List String × Fields) : Statement → Option (List String × Fields)
  | .table path => (state.2.startTable? path).map fun fields => (path, fields)
  | .item path => (state.2.startItem? path).map fun fields => (path, fields)
  | .setting path v =>
    (state.2.changeAt .innerHeader (Fields.set? path v) state.1 .header).map fun fields =>
      (state.1, fields)

/-- The table of the statements of a text. -/
def ofStatements? (statements : List Statement) : Option Tree := do
  let (_, fields) ← statements.foldlM obey ([], [])
  pure (.table .header fields)

end Tree

end LivePreview.Toml
