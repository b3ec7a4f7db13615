import LivePreview.Binary64.Basic
import LivePreview.Word

/-!
Documents: what the formats for settings and messages have in common. A format tells how one of its
values reads as a truth value, a number, a text, a list of fields or a list of items; on top of that a
record of named fields is read in the same way from every format.
-/

namespace LivePreview

/-- A format of documents with values of type `δ`. -/
class Document (δ : Type) where
  isNull : δ → Bool
  bool? : δ → Option Bool
  integer? : δ → Option Int
  /-- An integer that is written without a minus sign. -/
  natural? : δ → Option Nat
  real? : δ → Option Binary64
  text? : δ → Option String
  /-- The fields of a value that names its parts. -/
  fields? : δ → Option (List (String × δ))
  /-- The parts of a value that a record may be written as by position. -/
  parts? : δ → Option (List δ)
  /-- More parts than the record has fields do no harm. -/
  toleratesSurplus : Bool

namespace Document

variable {δ α : Type} [Document δ]

/-- A record as it was found: the value of each of its fields, if it is there. -/
abbrev Found (δ : Type) := String → Option δ

/-- The fields of the record with the given names. A field may stand once; others are passed over.
Where the format allows it, the record may also be a list of its fields in order. -/
def record? (names : List String) (d : δ) : Option (Found δ) :=
  match fields? d with
  | some fields =>
    if names.all fun name => fields.countP (·.1 == name) ≤ 1 then some fun name => fields.lookup name
    else none
  | none =>
    (parts? d).bind fun parts =>
      if names.length < parts.length ∧ toleratesSurplus δ = false then none
      else some fun name => (names.zip parts).lookup name

/-- A field that must be there. -/
def need (record : Found δ) (name : String) (read? : δ → Option α) : Option α :=
  (record name).bind read?

/-- A field that has a default. -/
def orElse (record : Found δ) (name : String) (default : α) (read? : δ → Option α) : Option α :=
  match record name with
  | some d => read? d
  | none => some default

/-- A field that may be absent or empty. -/
def may (record : Found δ) (name : String) (read? : δ → Option α) : Option (Option α) :=
  match record name with
  | some d => if isNull d then some none else (read? d).map some
  | none => some none

/-- A natural number below a limit. -/
def natBelow (limit : Nat) (d : δ) : Option Nat := (natural? d).filter (· < limit)

/-- A natural number of 32 bits. -/
def nat32 (d : δ) : Option Nat := natBelow (Word.size 32) d

/-- A natural number of 64 bits. -/
def nat64 (d : δ) : Option Nat := natBelow (Word.size 64) d

/-- An integer of 32 bits. -/
def int32 (d : δ) : Option Int :=
  (integer? d).filter (Word.fitsSigned 32)

/-- One of several values by its name. -/
def named (values : List α) (name : α → String) (d : δ) : Option α :=
  (text? d).bind fun s => values.find? (name · == s)

end Document

end LivePreview
