import LivePreview.Proofs.Script.Balance
import LivePreview.Proofs.Script.Seam

namespace LivePreview.Script

open Text (Cursor)
open Scan

-- Scans at the same place, with the same brackets open.
structure Scan.Alike (old new later : List Char) (s t : Scan) : Prop where
  texts : Meets old new later s.rest t.rest
  brackets : s.openings.map (·.bracket) = t.openings.map (·.bracket)

-- The next token is read alike behind the last ones: they tell the same of it, or it is of a kind
-- that they tell nothing of.
inductive Scan.TokensAlike (s t : Scan) : Prop
  | same (hawaits : s.awaitsExpression = t.awaitsExpression)
      (hstring : s.opensString = t.opensString) : TokensAlike s t
  | plain (h : ∀ c ∈ (s.rest.dropWhile Text.isBlank).head?, c ∉ ['/', '<', '\'']) :
      TokensAlike s t

-- Scans of code at the same place, from which the next token is read alike.
structure Scan.CodeAlike (old new later : List Char) (s t : Scan) : Prop
    extends s.Alike old new later t where
  tokens : s.TokensAlike t

inductive Halt.Alike : Halt → Halt → Prop
  | finished {first second : List Opening}
      (h : first.map (·.bracket) = second.map (·.bracket)) : Alike (finished first) (finished second)
  | broken (first second : Issue) : Alike (broken first) (broken second)

inductive ResultAlike (old new later : List Char) : Except Halt Scan → Except Halt Scan → Prop
  | ok {s t : Scan} (h : s.Alike old new later t) : ResultAlike old new later (.ok s) (.ok t)
  | error {first second : Halt} (h : first.Alike second) :
      ResultAlike old new later (.error first) (.error second)

inductive MoveAlike {α : Type} (goOn : Scan → Scan → Prop) (finish : α → α → Prop) :
    Move α → Move α → Prop
  | on {s t : Scan} (h : goOn s t) : MoveAlike goOn finish (.on s) (.on t)
  | done {first second : α} (h : finish first second) :
      MoveAlike goOn finish (.done first) (.done second)

theorem MoveAlike.resume {α : Type} {goOn : Scan → Scan → Prop} {finish : α → α → Prop}
    {first second : Move α} (h : MoveAlike goOn finish first second) {read read' : Scan → α}
    (hread : ∀ s t, first = .on s → goOn s t → finish (read s) (read' t)) :
    finish (first.resume read) (second.resume read') := by
  cases h with
  | on h => exact hread _ _ rfl h
  | done h => exact h

-- Whatever is read from the scans on is read alike.
structure ReadAlike (old new later : List Char) (s t : Scan) : Prop where
  code : ∀ base, s.TokensAlike t → (∀ depth ∈ base, depth ≤ s.openings.length) →
    ResultAlike old new later (readCode base s) (readCode base t)
  template : ∀ opened opened',
    ResultAlike old new later (readTemplate opened s) (readTemplate opened' t)
  element : Joins old new later s.rest t.rest →
    Option.Rel (Scan.Alike old new later) (readElement s) (readElement t)
  attributes : Option.Rel (Scan.Alike old new later) (readAttributes s) (readAttributes t)
  children : Option.Rel (Scan.Alike old new later) (readChildren s) (readChildren t)

-- The readers pass over the part in any place.
structure Passes (part later : List Char) : Prop extends IsCalm part where
  code : ∀ base (s : Scan), s.rest = part ++ later →
    (∀ depth ∈ base, depth ≤ s.openings.length) →
      ∃ t : Scan, readCode base s = readCode base t ∧ t.rest = later ∧ t.openings = s.openings ∧
        t.last = some (.word "from".toList)
  template : ∀ opened (s : Scan), s.rest = part ++ later →
    ∃ t : Scan, readTemplate opened s = readTemplate opened t ∧ t.rest = later ∧
      t.openings = s.openings
  attributes : ∀ s : Scan, s.rest = part ++ later →
    (attributesMove s s.rest).resume readAttributes = none
  children : ∀ s : Scan, s.rest = part ++ later →
    ∃ t : Scan, readChildren s = readChildren t ∧ t.rest = later ∧ t.openings = s.openings

section Turns

variable {old new later : List Char} {s t : Scan}

theorem Scan.Alike.length_eq (h : s.Alike old new later t) :
    s.openings.length = t.openings.length := by
  simpa using congrArg List.length h.brackets

theorem rel_of_map {α β : Type} {r : List Char → List Char → Prop} {f : α → List Char}
    {g : β → List Char} {x : Option α} {y : Option β} (h : Option.Rel r (x.map f) (y.map g)) :
    Option.Rel (fun a b => r (f a) (g b)) x y := by
  cases x <;> cases y <;> cases h
  · exact .none
  · exact .some ‹_›

theorem rel_ite {α β : Type} {r : α → β → Prop} {p : Prop} [Decidable p] {x : Option α}
    {y : Option β} (h : p → Option.Rel r x y) :
    Option.Rel r (if p then x else none) (if p then y else none) := by
  split
  · exact h ‹_›
  · exact .none

theorem joins_skipString (quote : Char) {c d : Cursor} (h : Joins old new later c.rest d.rest) :
    Option.Rel (fun a b => Joins old new later a.1.rest b.1.rest) (skipString quote c)
      (skipString quote d) := by
  refine rel_of_map ?_
  rw [rest_skipString, rest_skipString]
  exact h.stringEnd quote

theorem joins_skipRegex {c d : Cursor} (h : Joins old new later c.rest d.rest) :
    Option.Rel (fun a b => Joins old new later a.1.rest b.1.rest) (skipRegex false c)
      (skipRegex false d) := by
  refine rel_of_map ?_
  rw [rest_skipRegex, rest_skipRegex]
  exact h.regexEnd false

theorem meets_skipComment (hold : IsCalm old) (hnew : IsCalm new) {c d : Cursor}
    (h : Meets old new later c.rest d.rest) :
    Option.Rel (fun a b => Meets old new later a.1.rest b.1.rest) (skipComment c)
      (skipComment d) := by
  refine rel_of_map ?_
  rw [rest_skipComment, rest_skipComment]
  exact h.commentEnd hold hnew

theorem Scan.TokensAlike.of_last (h : s.last = t.last) : s.TokensAlike t := by
  refine .same ?_ ?_
  · unfold awaitsExpression
    rw [h]
  · unfold opensString
    rw [h]

theorem Scan.TokensAlike.of_rest (h : s.TokensAlike t) {c : Char} {rest : List Char}
    (hrest : s.rest = c :: rest) (hc : c ∈ ['/', '<', '\'']) :
    s.awaitsExpression = t.awaitsExpression ∧ s.opensString = t.opensString := by
  cases h with
  | same hawaits hstring => exact ⟨hawaits, hstring⟩
  | plain h =>
      have hblank : ∀ d ∈ ['/', '<', '\''], ¬Text.isBlank d = true := by decide
      rw [hrest, List.dropWhile_cons_of_neg (hblank c hc)] at h
      exact absurd hc (h c rfl)

-- Behind the same token it does not matter what the tokens before were.
theorem Scan.Alike.code (h : s.Alike old new later t) (hlast : s.last = t.last) :
    s.CodeAlike old new later t :=
  ⟨h, .of_last hlast⟩

theorem Scan.CodeAlike.step (h : s.CodeAlike old new later t) {c : Char} {rest rest' : List Char}
    (hrest : s.rest = c :: rest) (hmeets : Meets old new later rest rest') :
    (s.step c rest).CodeAlike old new later (t.step c rest') := by
  by_cases hblank : Text.isBlank c = true
  · have hstep : ∀ (s : Scan) rest, s.step c rest = s.moveTo ⟨rest, s.offset + c.utf8Size⟩ := by
      intro s rest
      simp [Scan.step, Scan.moveTo, hblank]
    rw [hstep, hstep]
    refine ⟨⟨hmeets, h.brackets⟩, ?_⟩
    cases h.tokens with
    | same hawaits hstring => exact .same hawaits hstring
    | plain h =>
        rw [hrest, List.dropWhile_cons_of_pos hblank] at h
        exact .plain h
  · exact Scan.Alike.code ⟨hmeets, h.brackets⟩ (by simp [Scan.step, hblank])

-- What is closed in the one text is closed in the other, and they go on behind that.
theorem Joins.skip_one {c d : Cursor} (h : Joins old new later c.rest d.rest) :
    c.rest = [] ∧ d.rest = [] ∨
      c.rest ≠ [] ∧ d.rest ≠ [] ∧ Meets old new later (c.skip 1).rest (d.skip 1).rest := by
  cases hrest : c.rest with
  | nil =>
      rw [hrest] at h
      exact .inl ⟨rfl, h.eq_nil⟩
  | cons x rest =>
      rw [hrest] at h
      obtain ⟨rest', hrest', hmeets, _⟩ := h.exists_cons
      refine .inr ⟨by simp, by simp [hrest'], ?_⟩
      simpa [Cursor.skip, hrest, hrest'] using hmeets

theorem Scan.Alike.moveTo (h : s.Alike old new later t) {c d : Cursor}
    (hmeets : Meets old new later c.rest d.rest) :
    (s.moveTo c).Alike old new later (t.moveTo d) :=
  ⟨hmeets, h.brackets⟩

theorem Scan.Alike.enter (h : s.Alike old new later t) (bracket : Char) {rest rest' : List Char}
    (hmeets : Meets old new later rest rest') :
    (s.enter bracket rest).Alike old new later (t.enter bracket rest') :=
  ⟨hmeets, by simpa [Scan.enter] using h.brackets⟩

theorem ReadAlike.code_enter (h : s.Alike old new later t) {bracket : Char}
    {rest rest' : List Char}
    (hread : ReadAlike old new later (s.enter bracket rest) (t.enter bracket rest')) :
    ResultAlike old new later (readCode (some (s.openings.length + 1)) (s.enter bracket rest))
      (readCode (some (t.openings.length + 1)) (t.enter bracket rest')) := by
  rw [← h.length_eq]
  exact hread.code _ (.of_last rfl) (by simp [Scan.enter])

variable (hold : Passes old later) (hnew : Passes new later)
  (ih : ∀ u v : Scan, u.rest.length < s.rest.length → u.Alike old new later v →
    ReadAlike old new later u v)

include hold hnew ih

omit hold hnew ih in
theorem alike_bracketMove (h : s.CodeAlike old new later t) (base : Option Nat) {c : Char}
    {rest rest' : List Char} (hrest : s.rest = c :: rest) (hmeets : Meets old new later rest rest') :
    MoveAlike (Scan.CodeAlike old new later) (ResultAlike old new later)
      (bracketMove base s c rest) (bracketMove base t c rest') := by
  have hbrackets := h.brackets
  unfold bracketMove
  split
  · exact .on (Scan.Alike.code ⟨hmeets, by simpa [Scan.enter] using hbrackets⟩ rfl)
  split
  · generalize s.openings = openings at hbrackets ⊢
    generalize t.openings = openings' at hbrackets ⊢
    cases openings with
    | nil =>
        obtain rfl := List.map_eq_nil_iff.mp hbrackets.symm
        exact .done (.error (.broken _ _))
    | cons opening outer =>
        obtain ⟨opening', outer', rfl, hopening, houter⟩ := List.map_eq_cons_iff.mp hbrackets.symm
        have hlength : outer'.length = outer.length := by
          simpa using congrArg List.length houter
        dsimp only
        rw [hopening, hlength]
        split
        · split
          · exact .done (.ok ⟨hmeets, houter.symm⟩)
          · exact .on (Scan.Alike.code ⟨hmeets, houter.symm⟩ rfl)
        · exact .done (.error (.broken _ _))
  · exact .on (h.step hrest hmeets)

theorem alike_tokenMove (h : s.CodeAlike old new later t)
    (hjoins : Joins old new later s.rest t.rest) (base : Option Nat) {c : Char}
    {rest rest' : List Char} (hrest : s.rest = c :: rest)
    (hmeets : Meets old new later rest rest') (htail : c ≠ '\n' → Joins old new later rest rest') :
    MoveAlike (Scan.CodeAlike old new later) (ResultAlike old new later)
      (tokenMove base s c rest) (tokenMove base t c rest') := by
  have hbrackets := h.brackets
  have hnext : rest.length < s.rest.length := by simp [hrest]
  have hinside : (s.moveTo ⟨rest, s.offset + 1⟩).Alike old new later
      (t.moveTo ⟨rest', t.offset + 1⟩) := ⟨hmeets, hbrackets⟩
  have hquote : (c = '"' ∨ c = '\'' ∧ t.opensString) = (c = '"' ∨ c = '\'' ∧ s.opensString) := by
    by_cases hc : c = '\''
    · rw [(h.tokens.of_rest hrest (by simp [hc])).2]
    · simp [hc]
  have hless : (c = '<' ∧ t.awaitsExpression ∧ opensElement rest.head?) =
      (c = '<' ∧ s.awaitsExpression ∧ opensElement rest.head?) := by
    by_cases hc : c = '<'
    · rw [(h.tokens.of_rest hrest (by simp [hc])).1]
    · simp [hc]
  unfold tokenMove
  simp only [← hmeets.head?_eq hold.toIsCalm hnew.toIsCalm, hquote, hless]
  split
  · rename_i hquote
    have hrel := joins_skipString c (c := ⟨rest, s.offset + 1⟩) (d := ⟨rest', t.offset + 1⟩)
      (htail (by rcases hquote with rfl | ⟨rfl, _⟩ <;> decide))
    generalize skipString c ⟨rest, s.offset + 1⟩ = first at hrel ⊢
    generalize skipString c ⟨rest', t.offset + 1⟩ = second at hrel ⊢
    cases hrel with
    | none => exact .done (.error (.broken _ _))
    | some hbehind => exact .on (Scan.Alike.code ⟨hbehind.meets, hbrackets⟩ rfl)
  split
  · have hrel := (ih _ _ hnext hinside).template s.offset t.offset
    generalize readTemplate s.offset _ = first at hrel ⊢
    generalize readTemplate t.offset _ = second at hrel ⊢
    cases hrel with
    | ok hbehind => exact .on (Scan.Alike.code ⟨hbehind.texts, hbehind.brackets⟩ rfl)
    | error hhalt => exact .done (.error hhalt)
  have helement : Option.Rel (Scan.Alike old new later)
      (if c = '<' ∧ s.awaitsExpression ∧ opensElement rest.head? then
        readElement (s.moveTo ⟨rest, s.offset + 1⟩) else none)
      (if c = '<' ∧ s.awaitsExpression ∧ opensElement rest.head? then
        readElement (t.moveTo ⟨rest', t.offset + 1⟩) else none) :=
    rel_ite fun hopen => (ih _ _ hnext hinside).element (htail (by simp [hopen.1]))
  generalize (if c = '<' ∧ s.awaitsExpression ∧ opensElement rest.head? then
    readElement (s.moveTo ⟨rest, s.offset + 1⟩) else none) = first at helement ⊢
  generalize (if c = '<' ∧ s.awaitsExpression ∧ opensElement rest.head? then
    readElement (t.moveTo ⟨rest', t.offset + 1⟩) else none) = second at helement ⊢
  cases helement with
  | some hbehind => exact .on (Scan.Alike.code ⟨hbehind.texts, hbehind.brackets⟩ rfl)
  | none =>
      dsimp only
      split
      · obtain ⟨hbehind, hword⟩ := hjoins.skipWhile inName not_inName_newline
        exact .on (Scan.Alike.code ⟨hbehind.meets, hbrackets⟩
          (congrArg (fun word => some (Token.word word)) hword))
      · exact alike_bracketMove h base hrest hmeets

theorem alike_codeMove (h : s.CodeAlike old new later t)
    (hjoins : Joins old new later s.rest t.rest) (base : Option Nat) :
    MoveAlike (Scan.CodeAlike old new later) (ResultAlike old new later) (codeMove base s s.rest)
      (codeMove base t t.rest) := by
  have hbrackets := h.brackets
  cases hrest : s.rest with
  | nil =>
      rw [hrest] at hjoins
      rw [hjoins.eq_nil]
      exact .done (.error (.finished hbrackets))
  | cons c rest =>
      have hcons := hjoins
      rw [hrest] at hcons
      obtain ⟨rest', hrest', hmeets, htail⟩ := hcons.exists_cons
      have htokens (hc : c = '/') := h.tokens.of_rest hrest (by simp [hc])
      have hslash : (c = '/' ∧ rest.head? ≠ some '>' ∧ t.awaitsExpression) =
          (c = '/' ∧ rest.head? ≠ some '>' ∧ s.awaitsExpression) := by
        by_cases hc : c = '/'
        · rw [(htokens hc).1]
        · simp [hc]
      rw [hrest']
      simp only [codeMove, ← hmeets.head?_eq hold.toIsCalm hnew.toIsCalm, hslash]
      split
      · rename_i hline
        have hbehind := (htail (by simp [hline.1])).skipWhile (· != '\n') (by decide)
        exact .on ⟨h.moveTo hbehind.1.meets, .same (htokens hline.1).1 (htokens hline.1).2⟩
      split
      · rename_i hblock
        have hinner : Meets old new later rest.tail rest'.tail := by
          obtain ⟨_, _, rfl, rfl, hinner, _⟩ :=
            hmeets.exists_tail hold.toIsCalm hblock.2 (by decide)
          exact hinner
        have hrel := meets_skipComment hold.toIsCalm hnew.toIsCalm (c := ⟨rest.tail, s.offset + 2⟩)
          (d := ⟨rest'.tail, t.offset + 2⟩) hinner
        generalize skipComment ⟨rest.tail, s.offset + 2⟩ = first at hrel ⊢
        generalize skipComment ⟨rest'.tail, t.offset + 2⟩ = second at hrel ⊢
        cases hrel with
        | none => exact .done (.error (.broken _ _))
        | some hinner =>
            exact .on ⟨h.moveTo hinner, .same (htokens hblock.1).1 (htokens hblock.1).2⟩
      have hregex : Option.Rel (fun a b => Joins old new later a.1.rest b.1.rest)
          (if c = '/' ∧ rest.head? ≠ some '>' ∧ s.awaitsExpression then
            skipRegex false ⟨rest, s.offset + 1⟩ else none)
          (if c = '/' ∧ rest.head? ≠ some '>' ∧ s.awaitsExpression then
            skipRegex false ⟨rest', t.offset + 1⟩ else none) :=
        rel_ite fun hslash => joins_skipRegex (htail (by simp [hslash.1]))
      generalize (if c = '/' ∧ rest.head? ≠ some '>' ∧ s.awaitsExpression then
        skipRegex false ⟨rest, s.offset + 1⟩ else none) = first at hregex ⊢
      generalize (if c = '/' ∧ rest.head? ≠ some '>' ∧ s.awaitsExpression then
        skipRegex false ⟨rest', t.offset + 1⟩ else none) = second at hregex ⊢
      cases hregex with
      | some hbehind => exact .on (Scan.Alike.code ⟨hbehind.meets, hbrackets⟩ rfl)
      | none => exact alike_tokenMove hold hnew ih h hjoins base hrest hmeets htail

theorem alike_templateMove (h : s.Alike old new later t)
    (hjoins : Joins old new later s.rest t.rest) (opened opened' : Nat) :
    MoveAlike (Scan.Alike old new later) (ResultAlike old new later)
      (templateMove opened s s.rest) (templateMove opened' t t.rest) := by
  have hbrackets := h.brackets
  cases hrest : s.rest with
  | nil =>
      rw [hrest] at hjoins
      rw [hjoins.eq_nil]
      exact .done (.error (.broken _ _))
  | cons c rest =>
      have hnext : rest.length < s.rest.length := by simp [hrest]
      rw [hrest] at hjoins
      obtain ⟨rest', hrest', hmeets, _⟩ := hjoins.exists_cons
      rw [hrest', templateMove, templateMove, ← hmeets.head?_eq hold.toIsCalm hnew.toIsCalm]
      extract_lets inner inner'
      split
      · rename_i hc
        subst hc
        obtain ⟨other, heq, htail⟩ := hjoins.exists_escaped
        obtain rfl := (List.cons.inj (hrest'.symm.trans heq)).2
        have hbehind : Meets old new later (rest.drop 1) (rest'.drop 1) := by
          simpa using htail.meets
        exact .on ⟨hbehind, hbrackets⟩
      split
      · exact .done (.ok ⟨hmeets, hbrackets⟩)
      split
      · rename_i hbrace
        have hinner : Meets old new later rest.tail rest'.tail := by
          obtain ⟨_, _, rfl, rfl, hinner, _⟩ :=
            hmeets.exists_tail hold.toIsCalm hbrace.2 (by decide)
          exact hinner
        have hshorter : inner.rest.length < s.rest.length :=
          Nat.lt_of_le_of_lt (by simp [inner]) hnext
        have hdollar := h.moveTo (c := ⟨rest, s.offset + 1⟩) (d := ⟨rest', t.offset + 1⟩) hmeets
        have hrel : ResultAlike old new later (readCode (some inner.openings.length) inner)
            (readCode (some inner'.openings.length) inner') :=
          ReadAlike.code_enter hdollar (ih inner inner' hshorter (hdollar.enter '\x7b' hinner))
        generalize readCode (some inner.openings.length) inner = first at hrel ⊢
        generalize readCode (some inner'.openings.length) inner' = second at hrel ⊢
        cases hrel with
        | ok hbehind => exact .on hbehind
        | error hhalt => exact .done (.error hhalt)
      · exact .on ⟨hmeets, hbrackets⟩

omit hold hnew in
theorem alike_bracesMove (h : s.Alike old new later t) {rest rest' : List Char}
    (hrest : rest.length < s.rest.length) (hmeets : Meets old new later rest rest') :
    MoveAlike (Scan.Alike old new later) (Option.Rel (Scan.Alike old new later))
      (bracesMove s rest) (bracesMove t rest') := by
  have hrel := ReadAlike.code_enter h (ih _ _ hrest (h.enter '\x7b' hmeets))
  unfold bracesMove
  generalize readCode _ (s.enter '\x7b' rest) = first at hrel ⊢
  generalize readCode _ (t.enter '\x7b' rest') = second at hrel ⊢
  cases hrel with
  | ok hbehind => exact .on hbehind
  | error _ => exact .done .none

omit hold hnew in
theorem alike_elementMove (h : s.Alike old new later t) {rest rest' : List Char}
    (hrest : rest.length < s.rest.length) (hjoins : Joins old new later rest rest') :
    MoveAlike (Scan.Alike old new later) (Option.Rel (Scan.Alike old new later))
      (elementMove s rest) (elementMove t rest') := by
  have hrel := (ih (s.moveTo ⟨rest, s.offset + 1⟩) (t.moveTo ⟨rest', t.offset + 1⟩) hrest
    ⟨hjoins.meets, h.brackets⟩).element hjoins
  unfold elementMove
  generalize readElement (s.moveTo ⟨rest, s.offset + 1⟩) = first at hrel ⊢
  generalize readElement (t.moveTo ⟨rest', t.offset + 1⟩) = second at hrel ⊢
  cases hrel with
  | none => exact .done .none
  | some hbehind => exact .on hbehind

theorem alike_valueMove (h : s.Alike old new later t) :
    MoveAlike (Scan.Alike old new later) (Option.Rel (Scan.Alike old new later))
      (valueMove s s.rest) (valueMove t t.rest) := by
  rcases h.texts with hjoins | ⟨hrest, hrest'⟩
  swap
  · have hnone : ∀ {part : List Char} {u : Scan}, IsCalm part → u.rest = part ++ later →
        valueMove u u.rest = .done none := by
      intro part u hpart hu
      have hhead : u.rest.head? = some 'i' := by
        rw [hu, List.head?_append, hpart.head]
        rfl
      rw [List.eq_cons_of_mem_head? hhead]
      rfl
    rw [hnone hold.toIsCalm hrest, hnone hnew.toIsCalm hrest']
    exact .done .none
  cases hrest : s.rest with
  | nil =>
      rw [hrest] at hjoins
      rw [hjoins.eq_nil]
      exact .done .none
  | cons v inside =>
      have hnext : inside.length < s.rest.length := by simp [hrest]
      rw [hrest] at hjoins
      obtain ⟨inside', hrest', hmeets, htail⟩ := hjoins.exists_cons
      rw [hrest', valueMove, valueMove]
      extract_lets close close'
      split
      · rename_i hquote
        have hne : v ≠ '\n' := by rcases hquote with rfl | rfl <;> decide
        have hpart : ∀ {part : List Char}, IsCalm part → v ∉ part := by
          intro part hpart hv
          exact hpart.chars v hv (by rcases hquote with rfl | rfl <;> simp)
        have hclose : Joins old new later close.rest close'.rest :=
          (htail hne).skipTo (hpart hold.toIsCalm) (hpart hnew.toIsCalm)
        rcases hclose.skip_one with ⟨hnil, hnil'⟩ | ⟨hne, hne', hbehind⟩
        · rw [hnil, hnil']
          exact .done .none
        · rw [if_neg (by simpa using hne), if_neg (by simpa using hne')]
          exact .on (h.moveTo hbehind)
      split
      · exact alike_bracesMove ih h hnext hmeets
      split
      · rename_i hv
        exact alike_elementMove ih h hnext (htail (by simp [hv]))
      · exact .done .none

theorem alike_attributesMove (h : s.Alike old new later t)
    (hjoins : Joins old new later s.rest t.rest) :
    MoveAlike (Scan.Alike old new later) (Option.Rel (Scan.Alike old new later))
      (attributesMove s s.rest) (attributesMove t t.rest) := by
  cases hrest : s.rest with
  | nil =>
      rw [hrest] at hjoins
      rw [hjoins.eq_nil]
      exact .done .none
  | cons c rest =>
      have hnext : rest.length < s.rest.length := by simp [hrest]
      rw [hrest] at hjoins
      obtain ⟨rest', hrest', hmeets, htail⟩ := hjoins.exists_cons
      rw [hrest', attributesMove, attributesMove, ← hmeets.head?_eq hold.toIsCalm hnew.toIsCalm]
      extract_lets name sign value name' sign' value'
      split
      · rename_i hclose
        have hbehind : Meets old new later rest.tail rest'.tail := by
          obtain ⟨_, _, rfl, rfl, hbehind, _⟩ :=
            hmeets.exists_tail hold.toIsCalm hclose.2 (by decide)
          exact hbehind
        exact .done (.some (h.moveTo hbehind))
      split
      · exact .done (ih (s.moveTo ⟨rest, s.offset + 1⟩) (t.moveTo ⟨rest', t.offset + 1⟩) hnext
          (h.moveTo hmeets)).children
      split
      · exact alike_bracesMove ih h hnext hmeets
      split
      · rename_i hopens
        have hne : c ≠ '\n' := by
          rintro rfl
          exact absurd hopens (by decide)
        have hname : Joins old new later name.rest name'.rest :=
          ((htail hne).skipWhile inAttributeName (by decide)).1
        have hsign : Meets old new later sign.rest sign'.rest :=
          hname.meets.skipBlanks hold.toIsCalm hnew.toIsCalm
        rw [← hsign.head?_eq hold.toIsCalm hnew.toIsCalm]
        split
        · rename_i hequals
          obtain ⟨inside, inside', hinside, hinside', hbehind, _⟩ :=
            hsign.exists_tail hold.toIsCalm hequals (by decide)
          have hvalue : Meets old new later value.rest value'.rest := by
            simpa [value, value', Cursor.skipWhile, Cursor.skip, hinside, hinside'] using
              hbehind.skipBlanks hold.toIsCalm hnew.toIsCalm
          have hlength : value.rest.length < s.rest.length := by
            have hsigned : sign.rest.length ≤ rest.length :=
              Nat.le_trans (Cursor.length_skipWhile_le _ _) (Cursor.length_skipWhile_le _ _)
            have hskip := Cursor.length_skip 1 sign.toCursor
            have hblanks := Cursor.length_skipWhile_le Text.isBlank (sign.toCursor.skip 1)
            simp only [value, rest_moveTo]
            omega
          exact alike_valueMove hold hnew (fun u v hu => ih u v (Nat.lt_trans hu hlength))
            (h.moveTo hvalue)
        · exact .on (h.moveTo hsign)
      · exact .done .none

theorem alike_childrenMove (h : s.Alike old new later t)
    (hjoins : Joins old new later s.rest t.rest) :
    MoveAlike (Scan.Alike old new later) (Option.Rel (Scan.Alike old new later))
      (childrenMove s s.rest) (childrenMove t t.rest) := by
  cases hrest : s.rest with
  | nil =>
      rw [hrest] at hjoins
      rw [hjoins.eq_nil]
      exact .done .none
  | cons c rest =>
      have hnext : rest.length < s.rest.length := by simp [hrest]
      have hclose : Joins old new later (s.toCursor.skipWhile (· != '>')).rest
          (t.toCursor.skipWhile (· != '>')).rest :=
        hjoins.skipTo (fun hmem => hold.chars _ hmem (by simp))
          (fun hmem => hnew.chars _ hmem (by simp))
      rw [hrest] at hjoins
      obtain ⟨rest', hrest', hmeets, htail⟩ := hjoins.exists_cons
      rw [hrest', childrenMove, childrenMove, ← hmeets.head?_eq hold.toIsCalm hnew.toIsCalm]
      extract_lets close close'
      split
      · exact alike_bracesMove ih h hnext hmeets
      split
      · rename_i hopen
        split
        · rcases hclose.skip_one with ⟨hnil, hnil'⟩ | ⟨hne, hne', hbehind⟩
          · rw [if_pos hnil, if_pos hnil']
            exact .done .none
          · rw [if_neg hne, if_neg hne']
            exact .done (.some (h.moveTo hbehind))
        split
        · exact alike_elementMove ih h hnext (htail (by simp [hopen]))
        · exact .done .none
      · exact .on (h.moveTo hmeets)

end Turns

-- Behind the parts the texts are the same.
theorem Scan.Alike.of_passed {old new later : List Char} (hold : IsCalm old) {s t u v : Scan}
    (h : s.Alike old new later t) (hs : s.rest = old ++ later) (hu : u.rest = later)
    (hv : v.rest = later) (hopenings : u.openings = s.openings)
    (hopenings' : v.openings = t.openings) :
    u.Alike old new later v ∧ u.rest.length < s.rest.length := by
  have htexts : Meets old new later u.rest v.rest := hu.trans hv.symm ▸ .inl (.same _)
  have hne : 0 < old.length := List.length_pos_iff.mpr fun hnil => by
    have hhead := hold.head
    rw [hnil] at hhead
    cases hhead
  refine ⟨⟨htexts, by rw [hopenings, hopenings', h.brackets]⟩, ?_⟩
  rw [hs, hu, List.length_append]
  omega

-- Texts that differ in a part which the readers pass over are read alike.
theorem readAlike {old new later : List Char} (hold : Passes old later) (hnew : Passes new later)
    {s t : Scan} (h : s.Alike old new later t) : ReadAlike old new later s t := by
  induction hlength : s.rest.length using Nat.strongRecOn generalizing s t with
  | _ limit ih =>
      subst hlength
      have hshorter : ∀ u v : Scan, u.rest.length < s.rest.length → u.Alike old new later v →
          ReadAlike old new later u v := fun u v hu huv => ih _ hu huv rfl
      have hattributes : ∀ u v : Scan, u.rest.length ≤ s.rest.length → u.Alike old new later v →
          Option.Rel (Scan.Alike old new later) (readAttributes u) (readAttributes v) := by
        intro u v hu huv
        rw [readAttributes_eq, readAttributes_eq]
        extract_lets here here'
        have hhere : here.Alike old new later here' :=
          huv.moveTo (huv.texts.skipBlanks hold.toIsCalm hnew.toIsCalm)
        have hshort : here.rest.length ≤ s.rest.length :=
          Nat.le_trans (Cursor.length_skipWhile_le _ _) hu
        rcases hhere.texts with hjoins | ⟨hseam, hseam'⟩
        · refine (alike_attributesMove hold hnew (fun a b ha => ?_) hhere hjoins).resume
            fun a b ha hab => ?_
          · exact hshorter a b (Nat.lt_of_lt_of_le ha hshort)
          · have hnext := (turn_attributesMove fun a _ => keeps a).length_of_on ha
            exact (hshorter a b (Nat.lt_of_lt_of_le hnext hshort) hab).attributes
        · rw [hold.attributes here hseam, hnew.attributes here' hseam']
          exact .none
      refine ⟨fun base htokens hbase => ?_, fun opened opened' => ?_, fun hjoins => ?_,
        hattributes s t (Nat.le_refl _) h, ?_⟩
      · rcases h.texts with hjoins | ⟨hseam, hseam'⟩
        · rw [readCode_eq, readCode_eq]
          refine (alike_codeMove hold hnew hshorter ⟨h, htokens⟩ hjoins base).resume
            fun a b ha hab => ?_
          obtain ⟨hnext, hshifts⟩ := (codeTurn (fun a _ => keeps a) base).of_on ha
          exact (hshorter a b hnext hab.toAlike).code base hab.tokens (hshifts.bounded hbase)
        · obtain ⟨u, hu, hrest, hopenings, hlast⟩ := hold.code base s hseam hbase
          obtain ⟨v, hv, hrest', hopenings', hlast'⟩ :=
            hnew.code base t hseam' (by rwa [← h.length_eq])
          obtain ⟨huv, hnext⟩ := h.of_passed hold.toIsCalm hseam hrest hrest' hopenings hopenings'
          rw [hu, hv]
          exact (hshorter u v hnext huv).code base (.of_last (hlast.trans hlast'.symm))
            (by rwa [hopenings])
      · rcases h.texts with hjoins | ⟨hseam, hseam'⟩
        · rw [readTemplate_eq, readTemplate_eq]
          refine (alike_templateMove hold hnew hshorter h hjoins opened opened').resume
            fun a b ha hab => ?_
          have hnext := (turn_templateMove (fun a _ => keeps a) opened).length_of_on ha
          exact (hshorter a b hnext hab).template opened opened'
        · obtain ⟨u, hu, hrest, hopenings⟩ := hold.template opened s hseam
          obtain ⟨v, hv, hrest', hopenings'⟩ := hnew.template opened' t hseam'
          obtain ⟨huv, hnext⟩ := h.of_passed hold.toIsCalm hseam hrest hrest' hopenings hopenings'
          rw [hu, hv]
          exact (hshorter u v hnext huv).template opened opened'
      · rw [readElement_eq, readElement_eq, ← hjoins.meets.head?_eq hold.toIsCalm hnew.toIsCalm]
        split
        · rename_i hhead
          obtain ⟨rest, rest', hrest, hrest', hbehind, _⟩ :=
            hjoins.meets.exists_tail hold.toIsCalm hhead (by decide)
          have hnext : s.rest.tail.length < s.rest.length := by simp [hrest]
          have htails : Meets old new later s.rest.tail t.rest.tail := by
            simpa [hrest, hrest'] using hbehind
          exact (hshorter (s.moveTo ⟨s.rest.tail, s.offset + 1⟩)
            (t.moveTo ⟨t.rest.tail, t.offset + 1⟩) hnext (h.moveTo htails)).children
        · have hname := (hjoins.skipWhile inTagName (by decide)).1
          exact hattributes _ _ (Cursor.length_skipWhile_le _ _) (h.moveTo hname.meets)
      · rcases h.texts with hjoins | ⟨hseam, hseam'⟩
        · rw [readChildren_eq, readChildren_eq]
          refine (alike_childrenMove hold hnew hshorter h hjoins).resume fun a b ha hab => ?_
          have hnext := (turn_childrenMove fun a _ => keeps a).length_of_on ha
          exact (hshorter a b hnext hab).children
        · obtain ⟨u, hu, hrest, hopenings⟩ := hold.children s hseam
          obtain ⟨v, hv, hrest', hopenings'⟩ := hnew.children t hseam'
          obtain ⟨huv, hnext⟩ := h.of_passed hold.toIsCalm hseam hrest hrest' hopenings hopenings'
          rw [hu, hv]
          exact (hshorter u v hnext huv).children

end LivePreview.Script
