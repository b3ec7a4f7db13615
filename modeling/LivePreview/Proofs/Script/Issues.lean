import LivePreview.Proofs.Pattern.Places
import LivePreview.Script.Structure
import Mathlib.Data.List.Basic

namespace LivePreview

namespace Text

-- The word stands at the byte offset of the text.
def Stands (text word : List Char) (offset : Nat) : Prop :=
  ∃ front later, text = front ++ (word ++ later) ∧ offset = byteLength front

theorem Stands.exists_placeAt? {text word : List Char} {offset : Nat}
    (h : Stands text word offset) : ∃ place, placeAt? text offset = some place := by
  obtain ⟨front, later, rfl, rfl⟩ := h
  exact ⟨placeAfter front, by rw [placeAt?, before_append]; rfl⟩

namespace Cursor

variable {c d e : Cursor}

-- The second cursor is in the same text as the first one, further on by so many bytes as are
-- between them.
def Leads (c d : Cursor) : Prop :=
  ∃ between, c.rest = between ++ d.rest ∧ d.offset = c.offset + byteLength between

theorem Leads.refl (c : Cursor) : c.Leads c := ⟨[], rfl, rfl⟩

theorem Leads.trans (h : c.Leads d) (h' : d.Leads e) : c.Leads e := by
  obtain ⟨first, hfirst, hoffset⟩ := h
  obtain ⟨second, hsecond, hoffset'⟩ := h'
  refine ⟨first ++ second, ?_, ?_⟩
  · rw [hfirst, hsecond, List.append_assoc]
  · rw [hoffset', hoffset, byteLength_append, Nat.add_assoc]

theorem leads_skipWhile (test : Char → Bool) (c : Cursor) : c.Leads (c.skipWhile test) :=
  ⟨c.rest.takeWhile test, List.takeWhile_append_dropWhile.symm, rfl⟩

theorem leads_skip (count : Nat) (c : Cursor) : c.Leads (c.skip count) :=
  ⟨c.rest.take count, (List.take_append_drop count c.rest).symm, rfl⟩

theorem leads_of_rest (word : List Char) {rest : List Char} (h : c.rest = word ++ rest) :
    c.Leads ⟨rest, c.offset + byteLength word⟩ :=
  ⟨word, h, rfl⟩

theorem leads_of_cons {x : Char} {rest : List Char} (h : c.rest = x :: rest) :
    c.Leads ⟨rest, c.offset + x.utf8Size⟩ :=
  leads_of_rest [x] h

theorem Leads.length_le (h : c.Leads d) : d.rest.length ≤ c.rest.length := by
  obtain ⟨between, hrest, _⟩ := h
  rw [hrest, List.length_append]
  exact Nat.le_add_left _ _

theorem Leads.offset_le (h : c.Leads d) : c.offset ≤ d.offset := by
  obtain ⟨between, _, hoffset⟩ := h
  rw [hoffset]
  exact Nat.le_add_right _ _

-- What stands in front of a cursor of a text stands in the text.
theorem Leads.stands {text word later : List Char} (h : (start text).Leads c)
    (hrest : c.rest = word ++ later) : Stands text word c.offset := by
  obtain ⟨front, htext, hoffset⟩ := h
  refine ⟨front, later, ?_, ?_⟩
  · rw [← hrest]
    exact htext
  · rw [hoffset]
    exact Nat.zero_add _

end Cursor

end Text

namespace Script

open Text (Cursor Stands)
open Scan

theorem leads_skipComment (c : Cursor) : ∀ d ∈ skipComment c, c.Leads d.1 := by
  fun_induction skipComment c with
  | case1 => simp
  | case2 c rest hrest =>
      intro d hd
      obtain rfl := Option.some.inj hd
      exact Cursor.leads_of_rest ['*', '/'] hrest
  | case3 c x rest _ hrest _ ih =>
      intro d hd
      obtain ⟨e, he, rfl⟩ := Option.map_eq_some_iff.mp hd
      exact (Cursor.leads_of_cons hrest).trans (ih e he)

theorem leads_skipString (quote : Char) (c : Cursor) : ∀ d ∈ skipString quote c, c.Leads d.1 := by
  fun_induction skipString quote c with
  | case1 => simp
  | case2 => simp
  | case3 => simp
  | case4 c y rest _ _ _ hrest ih =>
      intro d hd
      obtain ⟨e, he, heq⟩ := Option.bind_eq_some_iff.mp hd
      obtain rfl := Option.some.inj heq
      have hbackslash : c.Leads ⟨y :: rest, c.offset + 1⟩ := Cursor.leads_of_cons hrest
      exact (hbackslash.trans (Cursor.leads_of_cons rfl)).trans (ih e he)
  | case5 c rest hrest => simpa using Cursor.leads_of_cons hrest
  | case6 c x rest hrest _ _ _ _ ih =>
      intro d hd
      obtain ⟨e, he, heq⟩ := Option.bind_eq_some_iff.mp hd
      obtain rfl := Option.some.inj heq
      exact (Cursor.leads_of_cons hrest).trans (ih e he)

theorem leads_skipRegex (inClass : Bool) (c : Cursor) :
    ∀ d ∈ skipRegex inClass c, c.Leads d.1 := by
  fun_induction skipRegex inClass c with
  | case1 => simp
  | case2 => simp
  | case3 inClass c rest start _ _ hrest _ _ _ ih =>
      intro d hd
      obtain ⟨e, he, heq⟩ := Option.bind_eq_some_iff.mp hd
      obtain rfl := Option.some.inj heq
      exact ((Cursor.leads_of_cons hrest).trans (Cursor.leads_skip 1 start)).trans (ih e he)
  | case4 inClass c x rest hrest _ _ _ hslash =>
      obtain ⟨rfl, _⟩ := hslash
      intro d hd
      obtain rfl := Option.some.inj hd
      exact (Cursor.leads_of_cons hrest).trans (Cursor.leads_skipWhile inName _)
  | case5 inClass c x rest hrest _ _ _ _ inside ih =>
      intro d hd
      obtain ⟨e, he, heq⟩ := Option.bind_eq_some_iff.mp hd
      obtain rfl := Option.some.inj heq
      exact (Cursor.leads_of_cons hrest).trans (ih e he)

-- The text behind a literal, by the text ahead inside of it.

def stringEnd (quote : Char) : List Char → Option (List Char)
  | [] => none
  | c :: rest =>
    if c = '\n' then none
    else if c = '\\' then
      match rest with
      | [] => none
      | _ :: rest => stringEnd quote rest
    else if c = quote then some rest
    else stringEnd quote rest

def regexEnd (inClass : Bool) : List Char → Option (List Char)
  | [] => none
  | c :: rest =>
    if c = '\n' then none
    else if c = '\\' then
      match rest with
      | [] => none
      | _ :: rest => regexEnd inClass rest
    else if c = '/' ∧ inClass = false then some (rest.dropWhile inName)
    else regexEnd (if c = '[' then true else if c = ']' then false else inClass) rest

def commentEnd : List Char → Option (List Char)
  | [] => none
  | c :: rest => if c = '*' ∧ rest.head? = some '/' then some rest.tail else commentEnd rest

theorem stringEnd_cons (quote c : Char) (rest : List Char) :
    stringEnd quote (c :: rest) =
      if c = '\n' then none
      else if c = '\\' then stringEnd quote rest.tail
      else if c = quote then some rest
      else stringEnd quote rest := by
  rw [stringEnd.eq_def]
  cases rest <;> rfl

theorem regexEnd_cons (inClass : Bool) (c : Char) (rest : List Char) :
    regexEnd inClass (c :: rest) =
      if c = '\n' then none
      else if c = '\\' then regexEnd inClass rest.tail
      else if c = '/' ∧ inClass = false then some (rest.dropWhile inName)
      else regexEnd (if c = '[' then true else if c = ']' then false else inClass) rest := by
  rw [regexEnd.eq_def]
  cases rest <;> rfl

theorem rest_skipString (quote : Char) (c : Cursor) :
    (skipString quote c).map (·.1.rest) = stringEnd quote c.rest := by
  fun_induction skipString quote c with
  | case1 c hrest => simp [hrest, stringEnd]
  | case2 c rest hrest => simp [hrest, stringEnd_cons]
  | case3 c _ hrest => simp [hrest, stringEnd]
  | case4 c y rest _ _ _ hrest ih =>
      rw [congrArg (stringEnd quote) hrest, stringEnd_cons, if_neg (by decide), if_pos rfl,
        List.tail_cons, ← ih]
      cases skipString quote ⟨rest, c.offset + 1 + y.utf8Size⟩ <;> rfl
  | case5 c rest hrest hne hplain => simp [stringEnd_cons, *]
  | case6 c x rest hrest hne hplain hquote _ ih =>
      rw [congrArg (stringEnd quote) hrest, stringEnd_cons, if_neg hne, if_neg hplain,
        if_neg hquote, ← ih]
      cases skipString quote ⟨rest, c.offset + x.utf8Size⟩ <;> rfl

theorem rest_skipRegex (inClass : Bool) (c : Cursor) :
    (skipRegex inClass c).map (·.1.rest) = regexEnd inClass c.rest := by
  fun_induction skipRegex inClass c with
  | case1 inClass c hrest => simp [hrest, regexEnd]
  | case2 inClass c rest hrest _ => simp [hrest, regexEnd_cons]
  | case3 inClass c rest start _ _ hrest _ _ _ ih =>
      rw [congrArg (regexEnd inClass) hrest, regexEnd_cons, if_neg (by decide), if_pos rfl,
        ← List.drop_one]
      refine Eq.trans ?_ ih
      cases skipRegex inClass (start.skip 1) <;> rfl
  | case4 inClass c x rest hrest _ hne hplain hslash =>
      rw [congrArg (regexEnd inClass) hrest, regexEnd_cons, if_neg hne, if_neg hplain,
        if_pos hslash]
      rfl
  | case5 inClass c x rest hrest _ hne hplain hslash inside ih =>
      have hinside : inside = if x = '[' then true else if x = ']' then false else inClass := rfl
      rw [congrArg (regexEnd inClass) hrest, regexEnd_cons, if_neg hne, if_neg hplain,
        if_neg hslash, ← hinside]
      refine Eq.trans ?_ ih
      cases skipRegex inside ⟨rest, c.offset + x.utf8Size⟩ <;> rfl

theorem rest_skipComment (c : Cursor) :
    (skipComment c).map (·.1.rest) = commentEnd c.rest := by
  fun_induction skipComment c with
  | case1 c hrest => simp [hrest, commentEnd]
  | case2 c rest hrest => simp [hrest, commentEnd]
  | case3 c x rest hopen hrest _ ih =>
      have hstays : ¬(x = '*' ∧ rest.head? = some '/') :=
        fun h => hopen _ h.1 (List.eq_cons_of_mem_head? h.2)
      rw [congrArg commentEnd hrest, commentEnd, if_neg hstays, ← ih]
      cases skipComment ⟨rest, c.offset + x.utf8Size⟩ <;> rfl

-- The bracket stands where it is said to be.
def Opening.StandsIn (source : List Char) (opening : Opening) : Prop :=
  opening.bracket ∈ ['(', '[', '\x7b'] ∧ Stands source [opening.bracket] opening.offset

-- An issue shows where what it is about stands, and a bracket that is never closed at the end.
inductive Issue.ShowsIn (source : List Char) : Issue → Prop
  | closer {bracket : Char} {offset : Nat} (hbracket : bracket ∈ [')', ']', '\x7d'])
      (h : Stands source [bracket] offset) : ShowsIn source ⟨.unexpectedCloser bracket, offset⟩
  | string {quote : Char} {offset : Nat} (hquote : quote ∈ ['"', '\''])
      (h : Stands source [quote] offset) : ShowsIn source ⟨.unterminatedString, offset⟩
  | template {offset : Nat} (h : Stands source ['`'] offset) :
      ShowsIn source ⟨.unterminatedTemplate, offset⟩
  | comment {offset : Nat} (h : Stands source ['/', '*'] offset) :
      ShowsIn source ⟨.unterminatedComment, offset⟩
  | unclosed {opening : Opening} {place : Text.Place} (h : opening.StandsIn source)
      (hplace : Text.placeAt? source opening.offset = some place) :
      ShowsIn source ⟨.unclosed opening.bracket place.line, Text.byteLength source⟩

-- A scan of the source: it is where it says that it is, and so are the brackets that are open.
structure Scan.Within (source : List Char) (s : Scan) : Prop where
  cursor : (Cursor.start source).Leads s.toCursor
  openings : ∀ opening ∈ s.openings, opening.StandsIn source

-- What stops the reading of code says only what is so.
def Halt.Tells (source : List Char) : Halt → Prop
  | .finished openings => ∀ opening ∈ openings, opening.StandsIn source
  | .broken issue => issue.ShowsIn source

-- Reading ends with a scan of the source or with what is so.
def Sound (source : List Char) {s : Scan} : Except Halt (Ahead s) → Prop
  | .ok t => t.1.Within source
  | .error halt => halt.Tells source

-- Whatever is read from the scan on, in code and elsewhere, is read soundly.
structure Reading (source : List Char) (s : Scan) : Prop where
  code : ∀ base, Sound source (code base s)
  template : ∀ opened, Stands source ['`'] opened → Sound source (template opened s)
  element : ∀ t ∈ element s, t.1.Within source
  attributes : ∀ t ∈ attributes s, t.1.Within source
  children : ∀ t ∈ children s, t.1.Within source

section Steps

variable {source : List Char} {s t : Scan} {c : Char} {rest : List Char}

theorem Scan.Within.stands (h : s.Within source) (word : List Char) {later : List Char}
    (hrest : s.rest = word ++ later) : Stands source word s.offset :=
  h.cursor.stands hrest

-- Further on in the text, with no other brackets open.
theorem Scan.Within.onward (h : s.Within source) (hleads : s.toCursor.Leads t.toCursor)
    (hopenings : t.openings ⊆ s.openings) : t.Within source :=
  ⟨h.cursor.trans hleads, fun opening hmem => h.openings opening (hopenings hmem)⟩

theorem Scan.Within.moveTo (h : s.Within source) {d : Cursor} (hleads : s.toCursor.Leads d) :
    (s.moveTo d).Within source :=
  h.onward hleads (List.Subset.refl _)

theorem Scan.Within.enter (h : s.Within source) (hc : c ∈ ['(', '[', '\x7b'])
    (hrest : s.rest = c :: rest) : (s.enter c rest).Within source := by
  refine ⟨h.cursor.trans (Cursor.leads_of_cons hrest), ?_⟩
  exact List.forall_mem_cons.mpr ⟨⟨hc, h.stands [c] hrest⟩, h.openings⟩

theorem Scan.within_start (source : List Char) : (Scan.start source).Within source :=
  ⟨.refl _, nofun⟩

theorem sound_map_lift {h : t.rest.length ≤ s.rest.length} {result : Except Halt (Ahead t)} :
    Sound source (result.map (Ahead.lift h)) ↔ Sound source result := by
  cases result <;> exact Iff.rfl

theorem within_of_map_lift {h : t.rest.length ≤ s.rest.length} {result : Option (Ahead t)}
    (hresult : ∀ u ∈ result, u.1.Within source) :
    ∀ u ∈ result.map (Ahead.lift h), u.1.Within source := by
  intro u hu
  obtain ⟨v, hv, rfl⟩ := Option.map_eq_some_iff.mp hu
  exact hresult v hv

end Steps

section Reading

variable {source : List Char} {limit : Nat} {s t : Scan}

theorem length_lt_limit {c : Char} {rest : List Char} (hlimit : s.rest.length ≤ limit)
    (hrest : s.rest = c :: rest) : rest.length < limit := by
  rw [hrest] at hlimit
  exact hlimit

-- What is read from scans with less text ahead is read soundly.
variable (ih : ∀ t : Scan, t.rest.length < limit → t.Within source → Reading source t)

include ih

-- What is read further on, behind the first character, is read soundly.
theorem reading_onward (hlimit : s.rest.length ≤ limit) (hs : s.Within source) {c : Char}
    {rest : List Char} (hrest : s.rest = c :: rest)
    (hleads : (⟨rest, s.offset + c.utf8Size⟩ : Cursor).Leads t.toCursor)
    (hopenings : t.openings ⊆ s.openings) : Reading source t :=
  ih t (Nat.lt_of_le_of_lt hleads.length_le (length_lt_limit hlimit hrest))
    (hs.onward ((Cursor.leads_of_cons hrest).trans hleads) hopenings)

theorem reading_moveTo (hlimit : s.rest.length ≤ limit) (hs : s.Within source) {c : Char}
    {rest : List Char} (hrest : s.rest = c :: rest) {d : Cursor}
    (hleads : (⟨rest, s.offset + c.utf8Size⟩ : Cursor).Leads d) : Reading source (s.moveTo d) :=
  reading_onward ih hlimit hs hrest hleads (List.Subset.refl _)

theorem reading_afterValue (hlimit : s.rest.length ≤ limit) (hs : s.Within source) {c : Char}
    {rest : List Char} (hrest : s.rest = c :: rest) {d : Cursor}
    (hleads : (⟨rest, s.offset + c.utf8Size⟩ : Cursor).Leads d) :
    Reading source (s.afterValue d) :=
  reading_onward ih hlimit hs hrest hleads (List.Subset.refl _)

-- What the last token was is of no account.
theorem reading_last (ht : t.rest.length < limit) (hwithin : t.Within source)
    (last : Option Token) : Reading source { t with last := last } :=
  ih _ ht (hwithin.onward (.refl _) (List.Subset.refl _))

theorem reading_enter (hlimit : s.rest.length ≤ limit) (hs : s.Within source) {c : Char}
    {rest : List Char} (hrest : s.rest = c :: rest) (hc : c ∈ ['(', '[', '\x7b']) :
    Reading source (s.enter c rest) :=
  ih _ (length_lt_limit hlimit hrest) (hs.enter hc hrest)

-- What follows a part in braces, or an element, is read soundly.
theorem reading_braces (hlimit : s.rest.length ≤ limit) (hs : s.Within source) {rest : List Char}
    (hrest : s.rest = '\x7b' :: rest) {base : Option Nat} {t : Ahead (s.enter '\x7b' rest)}
    (h : code base (s.enter '\x7b' rest) = .ok t) : Reading source t.1 := by
  have hcode := (reading_enter ih hlimit hs hrest (by decide)).code base
  rw [h] at hcode
  exact ih _ (Nat.lt_trans t.2 (length_lt_limit hlimit hrest)) hcode

theorem reading_element (hlimit : s.rest.length ≤ limit) (hs : s.Within source) {rest : List Char}
    (hrest : s.rest = '<' :: rest) {t : Ahead (s.moveTo ⟨rest, s.offset + 1⟩)}
    (h : element (s.moveTo ⟨rest, s.offset + 1⟩) = some t) : Reading source t.1 :=
  ih _ (Nat.lt_trans t.2 (length_lt_limit hlimit hrest))
    ((reading_moveTo ih hlimit hs hrest (.refl _)).element t h)

theorem sound_template (hlimit : s.rest.length ≤ limit) (hs : s.Within source) {opened : Nat}
    (hopened : Stands source ['`'] opened) : Sound source (template opened s) := by
  unfold template
  split
  · exact .template hopened
  rename_i c rest hrest
  have hshorter := length_lt_limit hlimit hrest
  have hnext {d : Cursor} := reading_moveTo (d := d) ih hlimit hs hrest
  split
  · rename_i hc
    subst hc
    dsimp only
    rw [sound_map_lift]
    exact (hnext (Cursor.leads_skip 1 _)).template opened hopened
  split
  · rename_i hc
    subst hc
    exact hs.moveTo (Cursor.leads_of_cons hrest)
  split
  · rename_i hc
    obtain ⟨rfl, hbrace⟩ := hc
    have hdollar : (s.moveTo ⟨rest, s.offset + 1⟩).Within source :=
      hs.moveTo (Cursor.leads_of_cons hrest)
    have hinner : Reading source ((s.moveTo ⟨rest, s.offset + 1⟩).enter '\x7b' rest.tail) :=
      reading_enter ih (Nat.le_of_lt hshorter) hdollar (List.eq_cons_of_mem_head? hbrace)
        (by decide)
    have hinside : rest.tail.length < limit :=
      Nat.lt_of_le_of_lt (by simp) hshorter
    dsimp only
    generalize hbase : some (List.length _) = base
    have hcode := hinner.code base
    split
    · rename_i halt heq
      rw [heq] at hcode
      exact hcode
    · rename_i t heq
      rw [heq] at hcode
      rw [sound_map_lift]
      exact (ih _ (Nat.lt_trans t.2 hinside) hcode).template opened hopened
  · dsimp only
    rw [sound_map_lift]
    exact (hnext (.refl _)).template opened hopened

theorem within_children (hlimit : s.rest.length ≤ limit) (hs : s.Within source) :
    ∀ t ∈ children s, t.1.Within source := by
  unfold children
  split
  · simp
  rename_i c rest hrest
  split
  · rename_i hc
    subst hc
    split
    · simp
    · rename_i t ht
      exact within_of_map_lift (reading_braces ih hlimit hs hrest ht).children
  split
  · rename_i hc
    subst hc
    split
    · extract_lets _ close
      split
      · simp
      · intro t ht
        obtain rfl := Option.some.inj ht
        exact hs.moveTo ((Cursor.leads_skipWhile _ _).trans (Cursor.leads_skip 1 close))
    split
    · split
      · simp
      · rename_i t ht
        exact within_of_map_lift (reading_element ih hlimit hs hrest ht).children
    · simp
  · exact within_of_map_lift (reading_moveTo ih hlimit hs hrest (.refl _)).children

theorem within_attributes (hlimit : s.rest.length ≤ limit) (hs : s.Within source) :
    ∀ t ∈ attributes s, t.1.Within source := by
  unfold attributes
  extract_lets here hhere
  have hwithin : here.Within source := hs.moveTo (Cursor.leads_skipWhile _ _)
  have hlimit' : here.rest.length ≤ limit := Nat.le_trans hhere hlimit
  split
  · simp
  rename_i c rest hrest
  have hnext {d : Cursor} := reading_moveTo (d := d) ih hlimit' hwithin hrest
  extract_lets _ name _ sign _ value
  split
  · rename_i hc
    obtain ⟨rfl, hclose⟩ := hc
    intro t ht
    obtain rfl := Option.some.inj ht
    have hsign : here.rest = ['/', '>'] ++ rest.tail := by
      rw [hrest, List.eq_cons_of_mem_head? hclose]
      rfl
    exact hwithin.moveTo (Cursor.leads_of_rest _ hsign)
  split
  · rename_i hc
    subst hc
    exact within_of_map_lift (hnext (.refl _)).children
  split
  · rename_i hc
    subst hc
    split
    · simp
    · rename_i t ht
      exact within_of_map_lift (reading_braces ih hlimit' hwithin hrest ht).attributes
  split
  · have hsign : (⟨rest, here.offset + c.utf8Size⟩ : Cursor).Leads sign.toCursor :=
      (Cursor.leads_skipWhile _ _).trans (Cursor.leads_skipWhile _ _)
    have hvalue : (⟨rest, here.offset + c.utf8Size⟩ : Cursor).Leads value.toCursor :=
      hsign.trans ((Cursor.leads_skip 1 _).trans (Cursor.leads_skipWhile _ _))
    have hvalued : value.Within source := hwithin.moveTo ((Cursor.leads_of_cons hrest).trans hvalue)
    have hvalueLimit : value.rest.length ≤ limit :=
      Nat.le_trans hvalue.length_le (Nat.le_of_lt (length_lt_limit hlimit' hrest))
    split
    · split
      · simp
      rename_i v inside hinside
      extract_lets _ close
      split
      · rename_i hquote
        split
        · simp
        · have hclose : (⟨inside, value.offset + v.utf8Size⟩ : Cursor).Leads (close.skip 1) := by
            rcases hquote with rfl | rfl
            · exact (Cursor.leads_skipWhile _ _).trans (Cursor.leads_skip 1 _)
            · exact (Cursor.leads_skipWhile _ _).trans (Cursor.leads_skip 1 _)
          exact within_of_map_lift (reading_moveTo ih hvalueLimit hvalued hinside hclose).attributes
      split
      · rename_i hv
        subst hv
        split
        · simp
        · rename_i t ht
          exact within_of_map_lift (reading_braces ih hvalueLimit hvalued hinside ht).attributes
      split
      · rename_i hv
        subst hv
        split
        · simp
        · rename_i t ht
          exact within_of_map_lift (reading_element ih hvalueLimit hvalued hinside ht).attributes
      · simp
    · exact within_of_map_lift (hnext hsign).attributes
  · simp

theorem within_element (hlimit : s.rest.length ≤ limit) (hs : s.Within source) :
    ∀ t ∈ element s, t.1.Within source := by
  unfold element
  split
  · rename_i rest hrest
    exact within_of_map_lift (reading_moveTo ih hlimit hs hrest (.refl _)).children
  · have hname := Cursor.leads_skipWhile inTagName s.toCursor
    exact within_of_map_lift
      (within_attributes ih (Nat.le_trans hname.length_le hlimit) (hs.moveTo hname))

theorem sound_code (hlimit : s.rest.length ≤ limit) (hs : s.Within source) (base : Option Nat) :
    Sound source (code base s) := by
  unfold code
  split
  · exact hs.openings
  rename_i c rest hrest
  have hshorter := length_lt_limit hlimit hrest
  extract_lets _ _ next
  split
  · rename_i hc
    obtain ⟨rfl, _⟩ := hc
    rw [sound_map_lift]
    exact (reading_moveTo ih hlimit hs hrest (Cursor.leads_skipWhile _ _)).code base
  split
  · rename_i hc
    obtain ⟨rfl, hstar⟩ := hc
    have hrest' : rest = '*' :: rest.tail := List.eq_cons_of_mem_head? hstar
    split
    · exact .comment (hs.stands ['/', '*'] (hrest.trans (congrArg _ hrest')))
    · rename_i d hd
      rw [sound_map_lift]
      have hstart : (⟨rest, s.offset + 1⟩ : Cursor).Leads ⟨rest.tail, s.offset + 2⟩ :=
        Cursor.leads_of_rest ['*'] hrest'
      exact (reading_moveTo ih hlimit hs hrest (hstart.trans (leads_skipComment _ d hd))).code base
  split
  · rename_i d hd
    obtain ⟨⟨rfl, _⟩, hregex⟩ := Option.ite_none_right_eq_some.mp hd
    rw [sound_map_lift]
    exact (reading_afterValue ih hlimit hs hrest (leads_skipRegex false _ d hregex)).code base
  split
  · rename_i hquote
    have hmem : c ∈ ['"', '\''] := by
      rcases hquote with rfl | ⟨rfl, _⟩ <;> decide
    split
    · exact .string hmem (hs.stands [c] hrest)
    · rename_i d hd
      rw [sound_map_lift]
      have hstring : (⟨rest, s.offset + c.utf8Size⟩ : Cursor).Leads d.1 := by
        rcases hquote with rfl | ⟨rfl, _⟩ <;> exact leads_skipString _ _ d hd
      exact (reading_afterValue ih hlimit hs hrest hstring).code base
  split
  · rename_i hc
    subst hc
    have htemplate : Sound source (template s.offset (s.moveTo ⟨rest, s.offset + 1⟩)) :=
      (reading_moveTo ih hlimit hs hrest (.refl _)).template s.offset
        (hs.stands ['`'] hrest)
    split
    · rename_i halt heq
      rw [heq] at htemplate
      exact htemplate
    · rename_i t heq
      rw [heq] at htemplate
      extract_lets
      rw [sound_map_lift]
      exact (reading_last ih (Nat.lt_trans t.2 hshorter) htemplate _).code base
  split
  · rename_i t ht
    obtain ⟨⟨rfl, _⟩, helement⟩ := Option.ite_none_right_eq_some.mp ht
    have hwithin := (reading_moveTo ih hlimit hs hrest (.refl _)).element t helement
    extract_lets
    rw [sound_map_lift]
    exact (reading_last ih (Nat.lt_trans t.2 hshorter) hwithin _).code base
  split
  · rename_i hname
    have hword := Cursor.leads_skipWhile inName s.toCursor
    have hwordLimit := Nat.lt_of_lt_of_le (Cursor.length_skipWhile_lt hrest hname) hlimit
    rw [sound_map_lift]
    exact (reading_last ih (t := s.moveTo _) hwordLimit (hs.moveTo hword) _).code base
  split
  · rename_i hc
    rw [sound_map_lift]
    exact (reading_enter ih hlimit hs hrest (by simpa using hc)).code base
  split
  · rename_i hc
    split
    · exact .closer (by simpa using hc) (hs.stands [c] hrest)
    · rename_i opening outer hopenings
      split
      · extract_lets t
        have hleads : s.toCursor.Leads t.toCursor := by
          rcases hc with rfl | rfl | rfl <;> exact Cursor.leads_of_cons hrest
        have ht : t.Within source :=
          hs.onward hleads (hopenings ▸ List.subset_cons_self opening outer)
        split
        · exact ht
        · rw [sound_map_lift]
          exact (ih t hshorter ht).code base
      · exact .closer (by simpa using hc) (hs.stands [c] hrest)
  · rw [sound_map_lift]
    exact (reading_onward (t := s.step c rest) ih hlimit hs hrest (.refl _)
      (List.Subset.refl _)).code base

end Reading

-- Whatever is read from a scan of the source is read soundly, since less and less text is ahead.
theorem reading_of_within {source : List Char} {s : Scan} (hs : s.Within source) :
    Reading source s := by
  induction hlength : s.rest.length using Nat.strongRecOn generalizing s with
  | _ limit ih =>
      have hshorter : ∀ t : Scan, t.rest.length < limit → t.Within source → Reading source t :=
        fun t ht hwithin => ih _ ht hwithin rfl
      have hlimit : s.rest.length ≤ limit := Nat.le_of_eq hlength
      exact ⟨sound_code hshorter hlimit hs, fun _ => sound_template hshorter hlimit hs,
        within_element hshorter hlimit hs, within_attributes hshorter hlimit hs,
        within_children hshorter hlimit hs⟩

-- An issue that is found shows in the source.
theorem showsIn_of_structureIssue? {source : List Char} {issue : Issue}
    (h : structureIssue? source = some issue) : issue.ShowsIn source := by
  have hcode := (reading_of_within (within_start source)).code none
  unfold structureIssue? at h
  split at h
  · cases h
  · rename_i broken heq
    rw [heq] at hcode
    obtain rfl := Option.some.inj h
    exact hcode
  · cases h
  · rename_i opening outer heq
    rw [heq] at hcode
    have hopening := hcode opening List.mem_cons_self
    obtain ⟨place, hplace⟩ := hopening.2.exists_placeAt?
    obtain rfl := Option.some.inj h
    rw [hplace]
    exact .unclosed hopening hplace

-- It has a place there.
theorem Issue.ShowsIn.exists_placeAt? {source : List Char} {issue : Issue}
    (h : issue.ShowsIn source) : ∃ place, Text.placeAt? source issue.offset = some place := by
  cases h with
  | closer _ h => exact h.exists_placeAt?
  | string _ h => exact h.exists_placeAt?
  | template h => exact h.exists_placeAt?
  | comment h => exact h.exists_placeAt?
  | unclosed _ _ =>
      have hend : Stands source [] (Text.byteLength source) := ⟨source, [], by simp, rfl⟩
      exact hend.exists_placeAt?

end Script

end LivePreview
