import LivePreview.Yaml.Basic
import LivePreview.Yaml.Indentation

/-!
From the tokens of a YAML text to the value of its only document. What has an anchor can be named by
aliases behind it.
-/

namespace LivePreview.Yaml

/-- The values that have anchors. -/
abbrev Anchors := List (String × Yaml)

/-- Something made from tokens. -/
abbrev Build := StateT (Anchors × List Token) Option

namespace Build

/-- The next token. -/
def peek : Build (Option Token) := fun state => some (state.2.head?, state)

/-- Pass over a token. -/
def next : Build Unit := fun state => some ((), (state.1, state.2.drop 1))

/-- The tokens make no sense. -/
def fail {α : Type} : Build α := fun _ => none

/-- Note what has an anchor. -/
def note (name? : Option String) (value : Yaml) : Build Unit := fun state =>
  match name? with
  | some name => some ((), ((name, value) :: state.1, state.2))
  | none => some ((), state)

/-- Note what has an anchor, unless something else has got it meanwhile. -/
def renote (name? : Option String) (value : Yaml) : Build Unit := fun state =>
  match name? with
  | some name =>
    match state.1.lookup name with
    | some .unending => some ((), ((name, value) :: state.1, state.2))
    | _ => some ((), state)
  | none => some ((), state)

/-- The value of an alias. -/
def valueAt (name : String) : Build Yaml := fun state => do
  let value ← state.1.lookup name
  pure (value, state)

/-- An anchor and a tag in front of a value, in any order. The handles of tags are known. -/
def properties (handles : List (List Char)) : Build (Option String × Bool) := do
  let tag? : Build Bool := do
    match ← peek with
    | some (.tag handle?) => if handle?.all (handles.contains ·) then next; pure true else fail
    | _ => pure false
  let anchor? : Build (Option String) := do
    match ← peek with
    | some (.anchor name) => next; pure (some name)
    | _ => pure none
  match ← anchor? with
  | some name => pure (some name, (← tag?) || true)
  | none =>
    let isTagged ← tag?
    let name? ← if isTagged then anchor? else pure none
    pure (name?, isTagged)

mutual

/-- A value: of a block if `inBlock` holds, and then with `loose` also a list that is not indented. -/
def node (handles : List (List Char)) : (fuel : Nat) → (inBlock loose : Bool) → Build Yaml
  | 0, _, _ => fail
  | fuel + 1, inBlock, loose => do
    match ← peek with
    | some (.reference name) => next; valueAt name
    | _ =>
      let (name?, isMarked) ← properties handles
      note name? .unending
      let value ← match ← peek with
        | some .blockItem => if loose then .list <$> looseItems handles fuel else rest isMarked
        | some (.scalar isPlain s) => next; pure (.scalar isPlain s)
        | some .flowListStart => next; .list <$> flowItems handles fuel true
        | some .flowRecordStart => next; .record <$> flowFields handles fuel true
        | some .blockListStart =>
          if inBlock then next; .list <$> blockItems handles fuel else rest isMarked
        | some .blockRecordStart =>
          if inBlock then next; .record <$> blockFields handles fuel else rest isMarked
        | _ => rest isMarked
      renote name? value
      pure value
where
  /-- Nothing but an anchor or a tag. -/
  rest (isMarked : Bool) : Build Yaml := if isMarked then pure blank else fail

/-- A value, unless one of certain tokens follows. -/
def nodeUnless (handles : List (List Char)) : (fuel : Nat) → (inBlock loose : Bool) → List Token →
    Build Yaml
  | 0, _, _, _ => fail
  | fuel + 1, inBlock, loose, stops => do
    match ← peek with
    | none => fail
    | some token =>
      if token ∈ stops then pure blank else node handles fuel inBlock loose

/-- The items of a list in a block. -/
def blockItems (handles : List (List Char)) : (fuel : Nat) → Build (List Yaml)
  | 0 => fail
  | fuel + 1 => do
    match ← peek with
    | some .blockItem =>
      next
      let item ← nodeUnless handles fuel true false [.blockItem, .blockEnd]
      pure (item :: (← blockItems handles fuel))
    | some .blockEnd => next; pure []
    | _ => fail

/-- The items of a list that is not indented. -/
def looseItems (handles : List (List Char)) : (fuel : Nat) → Build (List Yaml)
  | 0 => fail
  | fuel + 1 => do
    match ← peek with
    | some .blockItem =>
      next
      let item ← nodeUnless handles fuel true false [.blockItem, .key, .value, .blockEnd]
      pure (item :: (← looseItems handles fuel))
    | _ => pure []

/-- The entries of a record in a block. -/
def blockFields (handles : List (List Char)) : (fuel : Nat) → Build (List (Yaml × Yaml))
  | 0 => fail
  | fuel + 1 => do
    let stops : List Token := [.key, .value, .blockEnd]
    match ← peek with
    | some .key =>
      next
      let key ← nodeUnless handles fuel true true stops
      let value ← match ← peek with
        | some .value => next; nodeUnless handles fuel true true stops
        | _ => pure blank
      pure ((key, value) :: (← blockFields handles fuel))
    | some .blockEnd => next; pure []
    | _ => fail

/-- The items of a list in brackets. An item may be a record of one entry. -/
def flowItems (handles : List (List Char)) : (fuel : Nat) → (first : Bool) → Build (List Yaml)
  | 0, _ => fail
  | fuel + 1, first => do
    if (← peek) = some .flowListEnd then next; pure []
    else
      unless first do if (← peek) = some .flowItem then next else fail
      match ← peek with
      | some .flowListEnd => next; pure []
      | some .key =>
        next
        let key ← match ← peek with
          | some .value | some .flowItem | some .flowListEnd => next; pure blank
          | _ => node handles fuel false false
        let value ← match ← peek with
          | some .value =>
            next; nodeUnless handles fuel false false [.flowItem, .flowListEnd]
          | _ => pure blank
        pure (.record [(key, value)] :: (← flowItems handles fuel false))
      | _ =>
        let item ← node handles fuel false false
        pure (item :: (← flowItems handles fuel false))

/-- The entries of a record in braces. -/
def flowFields (handles : List (List Char)) : (fuel : Nat) → (first : Bool) →
    Build (List (Yaml × Yaml))
  | 0, _ => fail
  | fuel + 1, first => do
    let stops : List Token := [.flowItem, .flowRecordEnd]
    if (← peek) = some .flowRecordEnd then next; pure []
    else
      unless first do if (← peek) = some .flowItem then next else fail
      match ← peek with
      | some .flowRecordEnd => next; pure []
      | some .key =>
        next
        let key ← nodeUnless handles fuel false false (.value :: stops)
        let value ← match ← peek with
          | some .value => next; nodeUnless handles fuel false false stops
          | _ => pure blank
        pure ((key, value) :: (← flowFields handles fuel false))
      | _ =>
        let key ← node handles fuel false false
        pure ((key, blank) :: (← flowFields handles fuel false))

end

/-- The handles that tags may always begin with. -/
def usualHandles : List (List Char) := [['!'], ['!', '!']]

/-- The directives of a document: at most one version, and each handle once. -/
def directives : (fuel : Nat) → (versionSeen : Bool) → List (List Char) → Build (List (List Char))
  | 0, _, _ => fail
  | fuel + 1, versionSeen, handles => do
    match ← peek with
    | some (.version major minor) =>
      if versionSeen || major != 1 || !(minor == 1 || minor == 2) then fail
      else next; directives fuel true handles
    | some (.tagHandle handle) =>
      if handles.contains handle then fail else next; directives fuel versionSeen (handle :: handles)
    | _ => pure handles

/-- The content of a document. -/
def content (fuel : Nat) (handles : List (List Char)) : Build Yaml := do
  match ← peek with
  | none | some (.version _ _) | some (.tagHandle _) | some .documentStart | some .documentEnd =>
    pure blank
  | _ => node (handles ++ usualHandles) fuel true false

/-- Nothing follows but marks of the end of a document. -/
def theEnd : Build Unit := fun state =>
  if state.2.all (· == .documentEnd) then some ((), state) else none

/-- The only document of a text. A text without tokens is blank. -/
def document (fuel : Nat) : Build Yaml := do
  match ← peek with
  | none => pure blank
  | some (.version _ _) | some (.tagHandle _) | some .documentStart =>
    let handles ← directives fuel false []
    if (← peek) = some .documentStart then
      next
      let value ← content fuel handles
      theEnd
      pure value
    else fail
  | _ =>
    let value ← node usualHandles fuel true false
    theEnd
    pure value

end Build

/-- The value that a text holds. -/
def parse? (source : String) : Option Yaml := do
  let tokens ← tokens? source.toList
  let (value, _) ← Build.document (4 * tokens.length + 8) ([], tokens)
  pure value

end LivePreview.Yaml
