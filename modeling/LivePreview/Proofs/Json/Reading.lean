import LivePreview.Json.Reader

namespace LivePreview

-- A character stands for itself in a literal, or a letter stands for it behind a backslash, or its
-- code does.
theorem Text.escape_cases (c : Char) :
    (escape c = [c] ∧ c ≠ '"' ∧ c ≠ '\\' ∧ ¬c.toNat < 0x20) ∨
      (∃ d, escape c = ['\\', d] ∧ d ≠ 'u' ∧ Json.simpleEscape? d = some c) ∨
      c.toNat < 0x20 ∧
        escape c = ['\\', 'u', '0', '0', hexDigit (c.toNat / 16), hexDigit (c.toNat % 16)] := by
  unfold escape
  split
  · rename_i h
    subst h
    exact .inr (.inl ⟨'"', rfl, by decide, rfl⟩)
  rename_i hquote
  split
  · rename_i h
    subst h
    exact .inr (.inl ⟨'\\', rfl, by decide, rfl⟩)
  rename_i hbackslash
  split
  · rename_i h
    exact .inr (.inl ⟨'b', rfl, by decide, h ▸ rfl⟩)
  split
  · rename_i h
    exact .inr (.inl ⟨'f', rfl, by decide, h ▸ rfl⟩)
  split
  · rename_i h
    exact .inr (.inl ⟨'n', rfl, by decide, h ▸ rfl⟩)
  split
  · rename_i h
    exact .inr (.inl ⟨'r', rfl, by decide, h ▸ rfl⟩)
  split
  · rename_i h
    exact .inr (.inl ⟨'t', rfl, by decide, h ▸ rfl⟩)
  split
  · exact .inr (.inr ⟨‹_›, rfl⟩)
  · exact .inl ⟨rfl, hquote, hbackslash, ‹_›⟩

namespace Json

open Text (Cursor)

theorem fourHexDigits_code {n : Nat} (hn : n < 0x20) {c : Cursor} {later : List Char}
    (h : c.rest = ['0', '0', Text.hexDigit (n / 16), Text.hexDigit (n % 16)] ++ later) :
    ∃ d, fourHexDigits c = .ok (n, d) ∧ d.1.rest = later := by
  have hdigits : ∀ n < 0x20,
      Text.number? 16 ['0', '0', Text.hexDigit (n / 16), Text.hexDigit (n % 16)] = some n ∧
        Text.byteLength ['0', '0', Text.hexDigit (n / 16), Text.hexDigit (n % 16)] = 4 := by
    decide +kernel
  obtain ⟨hnumber, hlength⟩ := hdigits n hn
  have htake : c.rest.take 4 = ['0', '0', Text.hexDigit (n / 16), Text.hexDigit (n % 16)] := by
    rw [h]
    rfl
  unfold fourHexDigits
  rw [if_neg (by rw [htake, hlength]; decide)]
  split
  · rename_i m hm
    rw [htake, hnumber] at hm
    obtain rfl := Option.some.inj hm
    refine ⟨_, rfl, ?_⟩
    simp [Cursor.skip, h]
  · rename_i hm
    rw [htake, hnumber] at hm
    cases hm

theorem unicodeEscape_code {n : Nat} (hn : n < 0x20) {c : Cursor} {later : List Char}
    (h : c.rest = ['0', '0', Text.hexDigit (n / 16), Text.hexDigit (n % 16)] ++ later) :
    ∃ d, unicodeEscape c = .ok (Char.ofNat n, d) ∧ d.1.rest = later := by
  obtain ⟨d, hdigits, hrest⟩ := fourHexDigits_code hn h
  refine ⟨d, ?_, hrest⟩
  unfold unicodeEscape
  rw [hdigits]
  show (if _ then _ else _) = _
  rw [if_neg (by omega), if_pos (by omega)]
  rfl

-- What is ahead, behind what was read of a text, is read to the end of the text.
def Ends (read rest text later : List Char) : Prop :=
  ∀ c : Cursor, c.rest = rest →
    ∃ d, textRest true (some read) c = .ok (some text, d) ∧ d.1.rest = later

namespace Ends

variable {read rest text later : List Char} {ch : Char}

theorem quote (read later : List Char) : Ends read ('"' :: later) read.reverse later := by
  rintro ⟨_, offset⟩ rfl
  rw [textRest]
  exact ⟨_, rfl, rfl⟩

theorem self (hquote : ch ≠ '"') (hbackslash : ch ≠ '\\') (hcontrol : ¬ch.toNat < 0x20)
    (h : Ends (ch :: read) rest text later) : Ends read (ch :: rest) text later := by
  rintro ⟨_, offset⟩ rfl
  rw [textRest.eq_def]
  split
  · rename_i hrest
    cases hrest
  · rename_i hrest
    exact absurd (List.cons.inj hrest).1 hquote
  · rename_i hrest
    exact absurd (List.cons.inj hrest).1 hbackslash
  · rename_i hrest
    exact absurd (List.cons.inj hrest).1 hbackslash
  · rename_i hrest
    exact absurd (List.cons.inj hrest).1 hbackslash
  · rename_i hrest
    obtain ⟨rfl, rfl⟩ := List.cons.inj hrest
    obtain ⟨d, hd, hlater⟩ := h ⟨rest, offset + ch.utf8Size⟩ rfl
    rw [if_neg hcontrol]
    dsimp only [Option.map_some]
    rw [hd]
    exact ⟨⟨d.1, Nat.le_succ_of_le d.2⟩, rfl, hlater⟩

theorem letter {mark : Char} (hmark : mark ≠ 'u') (hch : simpleEscape? mark = some ch)
    (h : Ends (ch :: read) rest text later) :
    Ends read ('\\' :: mark :: rest) text later := by
  rintro ⟨_, offset⟩ rfl
  rw [textRest.eq_def]
  split
  · rename_i hrest
    cases hrest
  · rename_i hrest
    cases (List.cons.inj hrest).1
  · rename_i hrest
    cases (List.cons.inj hrest).2
  · rename_i hrest
    exact absurd (List.cons.inj (List.cons.inj hrest).2).1 hmark
  · rename_i hrest
    obtain ⟨rfl, rfl⟩ := List.cons.inj (List.cons.inj hrest).2
    obtain ⟨d, hd, hlater⟩ := h ⟨rest, offset + 2⟩ rfl
    split
    · rename_i plain hplain
      obtain rfl := Option.some.inj (hch.symm.trans hplain)
      dsimp only [Option.map_some]
      rw [hd]
      exact ⟨⟨d.1, Nat.le_succ_of_le (Nat.le_succ_of_le d.2)⟩, rfl, hlater⟩
    · rename_i hnone
      cases hch.symm.trans hnone
  · rename_i hnot hrest
    obtain ⟨rfl, rfl⟩ := List.cons.inj hrest
    exact absurd rfl (hnot _ _ rfl)

theorem code (hch : ch.toNat < 0x20) (h : Ends (ch :: read) rest text later) :
    Ends read (['\\', 'u', '0', '0', Text.hexDigit (ch.toNat / 16),
      Text.hexDigit (ch.toNat % 16)] ++ rest) text later := by
  rintro ⟨_, offset⟩ rfl
  rw [textRest.eq_def]
  split
  · rename_i hrest
    cases hrest
  · rename_i hrest
    cases (List.cons.inj hrest).1
  · rename_i hrest
    cases (List.cons.inj hrest).2
  · rename_i digits hrest
    have hdigits := (List.cons.inj (List.cons.inj hrest).2).2
    obtain ⟨d, hd, hbehind⟩ := unicodeEscape_code hch (c := ⟨digits, offset + 2⟩) hdigits.symm
    obtain ⟨e, he, hlater⟩ := h d.1 hbehind
    rw [Char.ofNat_toNat] at hd
    have hescaped : escapedChar? true ⟨digits, offset + 2⟩ = .ok (some ch, d) := by
      rw [escapedChar?, hd]
    dsimp only
    rw [hescaped]
    have hlength : e.1.rest.length ≤ digits.length := Nat.le_trans e.2 d.2
    refine ⟨⟨e.1, ?_⟩, ?_, hlater⟩
    · rw [hrest]
      exact Nat.le_succ_of_le (Nat.le_succ_of_le hlength)
    · change (textRest true (some (ch :: read)) d.1).bind _ = _
      rw [he]
      rfl
  · rename_i hnot hrest
    exact absurd (List.cons.inj (List.cons.inj hrest).2).1.symm hnot
  · rename_i hnot hrest
    obtain ⟨rfl, rfl⟩ := List.cons.inj hrest
    exact absurd rfl (hnot _ _ rfl)

end Ends

-- A literal is read to its end, and what is read is the text that it was made from.
theorem ends_quote (text later read : List Char) :
    Ends read (text.flatMap Text.escape ++ '"' :: later) (read.reverse ++ text) later := by
  induction text generalizing read with
  | nil =>
      rw [List.append_nil]
      exact .quote read later
  | cons ch text ih =>
      have hmore := ih (ch :: read)
      rw [List.reverse_cons, List.append_assoc, List.singleton_append] at hmore
      rw [List.flatMap_cons, List.append_assoc]
      rcases Text.escape_cases ch with ⟨hescape, hquote, hbackslash, hcontrol⟩ | hletter | hcode
      · rw [hescape]
        exact .self hquote hbackslash hcontrol hmore
      · obtain ⟨letter, hescape, hletter, hch⟩ := hletter
        rw [hescape]
        exact .letter hletter hch hmore
      · rw [hcode.2]
        exact .code hcode.1 hmore

section Value

variable {text later : List Char} {c : Cursor}

theorem skipSpace_of_cons {first : Char} {rest : List Char} (h : c.rest = first :: rest)
    (hfirst : isSpace first = false) : skipSpace c = c := by
  obtain ⟨_, offset⟩ := c
  obtain rfl : _ = first :: rest := h
  simp [skipSpace, Cursor.skipWhile, hfirst]

theorem quote_append (text later : List Char) :
    Text.quote text ++ later = '"' :: (text.flatMap Text.escape ++ '"' :: later) := by
  rw [Text.quote, List.cons_append, List.cons_append, List.append_assoc]
  rfl

theorem skipSpace_of_quote (h : c.rest = Text.quote text ++ later) : skipSpace c = c :=
  skipSpace_of_cons (h.trans (quote_append text later)) (by decide)

theorem value_quote (depth : Nat) (h : c.rest = Text.quote text ++ later) :
    ∃ d, value true depth c = .ok (.text (String.ofList text), d) ∧ d.1.rest = later := by
  have hstart := skipSpace_of_quote h
  have hrest := h.trans (quote_append text later)
  rw [value.eq_def]
  dsimp only
  split
  · rename_i hnil
    rw [hstart, hrest] at hnil
    cases hnil
  · rename_i first rest hcons
    rw [hstart, hrest] at hcons
    obtain ⟨rfl, rfl⟩ := List.cons.inj hcons
    obtain ⟨d, hd, hlater⟩ := ends_quote text later [] ⟨_, (skipSpace c).offset + 1⟩ rfl
    rw [if_neg (by decide), if_neg (by decide), if_neg (by decide), if_neg (by decide),
      if_neg (by decide), if_pos rfl, hd]
    refine ⟨⟨d.1, ?_⟩, rfl, hlater⟩
    rw [hrest]
    exact Nat.lt_succ_of_le d.2

-- The items of a list behind the first one.
theorem items_quotes (depth : Nat) {names : List String}
    (h : c.rest = names.flatMap (fun name => ',' :: Text.quote name.toList) ++ ']' :: later) :
    ∃ d, items true depth false c = .ok (names.map Json.text, d) ∧ d.1.rest = later := by
  induction names generalizing c with
  | nil =>
      have hstart : skipSpace c = c := skipSpace_of_cons h (by decide)
      rw [items.eq_def]
      dsimp only
      split
      · rename_i hnil
        rw [hstart, h] at hnil
        cases hnil
      · rename_i first rest hcons
        rw [hstart, h] at hcons
        obtain ⟨rfl, rfl⟩ := List.cons.inj hcons
        rw [if_pos rfl]
        exact ⟨_, rfl, rfl⟩
  | cons name names ih =>
      rw [List.flatMap_cons, List.cons_append, List.cons_append, List.append_assoc] at h
      have hstart : skipSpace c = c := skipSpace_of_cons h (by decide)
      rw [items.eq_def]
      dsimp only
      split
      · rename_i hnil
        rw [hstart, h] at hnil
        cases hnil
      · rename_i first rest hcons
        rw [hstart, h] at hcons
        obtain ⟨rfl, hbehind⟩ := List.cons.inj hcons
        have hnext : skipSpace ⟨rest, (skipSpace c).offset + 1⟩ =
            ⟨rest, (skipSpace c).offset + 1⟩ := skipSpace_of_quote hbehind.symm
        have hquote : (skipSpace ⟨rest, (skipSpace c).offset + 1⟩).rest.head? ≠ some ']' := by
          rw [hnext, ← hbehind, quote_append, List.head?_cons]
          decide
        obtain ⟨d, hd, hmore⟩ := value_quote depth
          ((congrArg Cursor.rest hnext).trans hbehind.symm)
        obtain ⟨e, he, hlater⟩ := ih hmore
        rw [if_neg (by decide), if_neg (by decide), if_pos rfl, if_neg hquote, hd]
        have hlength : e.1.rest.length < c.rest.length := by
          have hstep : c.rest.length = rest.length + 1 := by rw [h, hbehind]; rfl
          have hle := Cursor.length_skipWhile_le isSpace ⟨rest, (skipSpace c).offset + 1⟩
          exact hstep ▸ Nat.lt_succ_of_lt (Nat.lt_trans e.2 (Nat.lt_of_lt_of_le d.2 hle))
        refine ⟨⟨e.1, hlength⟩, ?_, hlater⟩
        change (items true depth false d.1).bind _ = _
        rw [he, String.ofList_toList]
        rfl

theorem intercalate_quotes (first : String) (names : List String) :
    [','].intercalate ((first :: names).map (Text.quote ·.toList)) =
      Text.quote first.toList ++ names.flatMap fun name => ',' :: Text.quote name.toList := by
  induction names generalizing first with
  | nil =>
      rw [List.map_singleton, List.intercalate_singleton]
      exact (List.append_nil _).symm
  | cons name names ih =>
      have hmore := ih name
      rw [List.map_cons] at hmore
      rw [List.map_cons, List.map_cons, List.intercalate_cons_cons, hmore, List.append_assoc]
      rfl

-- The items of a list behind its bracket.
theorem items_texts (depth : Nat) {names : List String}
    (h : c.rest = [','].intercalate (names.map (Text.quote ·.toList)) ++ ']' :: later) :
    ∃ d, items true depth true c = .ok (names.map Json.text, d) ∧ d.1.rest = later := by
  cases names with
  | nil =>
      have hstart : skipSpace c = c := skipSpace_of_cons h (by decide)
      rw [items.eq_def]
      dsimp only
      split
      · rename_i hnil
        rw [hstart, h] at hnil
        cases hnil
      · rename_i first rest hcons
        rw [hstart, h] at hcons
        obtain ⟨rfl, rfl⟩ := List.cons.inj hcons
        rw [if_pos rfl]
        exact ⟨_, rfl, rfl⟩
  | cons name names =>
      rw [intercalate_quotes, List.append_assoc] at h
      have hstart := skipSpace_of_quote h
      obtain ⟨d, hd, hmore⟩ := value_quote depth h
      obtain ⟨e, he, hlater⟩ := items_quotes depth hmore
      rw [items.eq_def]
      dsimp only
      split
      · rename_i hnil
        rw [hstart, h, quote_append] at hnil
        cases hnil
      · rename_i first rest hcons
        rw [hstart, h, quote_append] at hcons
        obtain ⟨rfl, -⟩ := List.cons.inj hcons
        rw [if_neg (by decide), if_pos rfl, hd]
        refine ⟨⟨e.1, Nat.lt_trans e.2 d.2⟩, ?_, hlater⟩
        change (items true depth false d.1).bind _ = _
        rw [he, String.ofList_toList]
        rfl

theorem value_texts {depth : Nat} {names : List String} (hdepth : 1 < depth)
    (h : c.rest = '[' :: ([','].intercalate (names.map (Text.quote ·.toList)) ++ ']' :: later)) :
    ∃ d, value true depth c = .ok (texts names, d) ∧ d.1.rest = later := by
  have hstart : skipSpace c = c := skipSpace_of_cons h (by decide)
  rw [value.eq_def]
  dsimp only
  split
  · rename_i hnil
    rw [hstart, h] at hnil
    cases hnil
  · rename_i first rest hcons
    rw [hstart, h] at hcons
    obtain ⟨rfl, rfl⟩ := List.cons.inj hcons
    obtain ⟨d, hd, hlater⟩ := items_texts (depth - 1) (c := ⟨_, (skipSpace c).offset + 1⟩) rfl
    rw [if_neg (by decide), if_neg (by decide), if_neg (by decide), if_neg (by decide),
      if_neg (by decide), if_neg (by decide), if_pos rfl, if_neg (by simpa using hdepth), hd]
    refine ⟨⟨d.1, ?_⟩, rfl, hlater⟩
    rw [h]
    exact Nat.lt_succ_of_lt d.2

theorem parse_of_value {source : String} {v : Json}
    (h : ∃ d, value true 128 (.start source.toList) = .ok (v, d) ∧ d.1.rest = []) :
    parse source = .ok v := by
  obtain ⟨d, hd, hlater⟩ := h
  have hstop : (skipSpace d.1).rest = [] := by
    rw [skipSpace, Cursor.skipWhile, hlater]
    rfl
  rw [parse, read, hd]
  change Except.mapError _ (if (skipSpace d.1).rest.isEmpty then pure v else _) = _
  rw [hstop]
  rfl

end Value

-- The text of a string, and of a list of strings, is read as what it is the text of.

theorem parse_compact_text (s : String) : parse (compact (.text s)) = .ok (.text s) := by
  have hsource : (compact (.text s)).toList = Text.quote s.toList ++ [] := by
    rw [compact, Text.quoted, String.toList_ofList, List.append_nil]
  obtain ⟨d, hd, hlater⟩ := value_quote 128 (c := .start (compact (.text s)).toList) hsource
  rw [String.ofList_toList] at hd
  exact parse_of_value ⟨d, hd, hlater⟩

theorem toList_quoted (names : List String) :
    ("[" ++ ",".intercalate (names.map Text.quoted) ++ "]").toList =
      '[' :: ([','].intercalate (names.map (Text.quote ·.toList)) ++ [']']) := by
  have hmap : (names.map Text.quoted).map String.toList = names.map (Text.quote ·.toList) := by
    rw [List.map_map]
    exact List.map_congr_left fun name _ => String.toList_ofList
  rw [String.toList_append, String.toList_append, String.toList_intercalate, hmap]
  rfl

theorem compact_texts (names : List String) :
    compact (texts names) = "[" ++ ",".intercalate (names.map Text.quoted) ++ "]" := by
  have hitems : compactItems (names.map text) = names.map Text.quoted := by
    induction names with
    | nil => rfl
    | cons name names ih => rw [List.map_cons, compactItems, compact, ih, List.map_cons]
  rw [texts, compact, hitems]

theorem parse_compact_texts (names : List String) :
    parse (compact (texts names)) = .ok (texts names) := by
  rw [compact_texts]
  exact parse_of_value (value_texts (by decide) (toList_quoted names))

end Json

end LivePreview
