import AgentBus.Core.Ulid
import AgentBus.Lib.JsonText
import AgentBus.Lib.Text

/-!
# External text formats

The bus does not print or parse JSON or ULIDs itself. `Formats` is what it
calls: a JSON printer and parser, and the text form of an id. `Formats.Faithful`
is what it relies on. It says that printing is undone by parsing, that a
printed document is one line, that an object is printed between braces with
each key in quotes, and that blanks before a document do not matter.
`Formats.RejectsTorn` says what it relies on where a line of a file was torn,
`Formats.RejectsRunOn` where a document goes on with a line, and
`Formats.RejectsBlank` where a line is blank. `Formats.CompactJson` says which
text a document is printed as, and `Formats.FaithfulNumbers` that numbers are
no exception.
-/

namespace AgentBus

open Lib

structure Formats where
  toString : Json → String
  fromStr : String → Option Json
  ulidToString : Ulid → String
  ulidFromString : String → Option Ulid

structure Formats.Faithful (F : Formats) : Prop where
  /-- Documents may be nested at most 127 deep. -/
  fromStr_toString : ∀ {j : Json}, j.Plain 127 → F.fromStr (F.toString j) = some j
  ulidFromString_ulidToString : ∀ u : Ulid, F.ulidFromString (F.ulidToString u) = some u
  oneLine : ∀ {j : Json}, j.Plain 127 → '\n' ∉ (F.toString j).toList ∧ '\r' ∉ (F.toString j).toList
  braces : ∀ (members : List (String × Json)),
    ∃ cs, (F.toString (.object members)).toList = '{' :: cs ++ ['}']
  /-- Keys of letters and underscores are printed as they are. -/
  quotedKey : ∀ {members : List (String × Json)} {key : String} {v : Json},
    (key, v) ∈ members → (∀ c ∈ key.toList, c.isAlpha ∨ c = '_') →
      contains (F.toString (.object members)) ("\"" ++ key ++ "\"") = true
  leadingBlank : ∀ (w s : String), (∀ c ∈ w.toList, Json.isBlank c = true) →
    F.fromStr (w ++ s) = F.fromStr s

/-- A torn object is no document: neither its beginning, unless it is the whole, nor a piece of it
that goes on with pieces of others. -/
structure Formats.RejectsTorn (F : Formats) : Prop where
  unfinished : ∀ {j : Json} {s : String}, j.Named →
    utf8 s.toList <+: utf8 (F.toString j).toList → s ≠ F.toString j → F.fromStr s = none
  spliced : ∀ {s : String} {bs : Bytes} {pieces : List Bytes},
    Json.Piece (fun j => (F.toString j).toList) bs →
    (∀ bs ∈ pieces, Json.Piece (fun j => (F.toString j).toList) bs) → pieces ≠ [] →
    utf8 s.toList = bs ++ pieces.flatten → F.fromStr s = none

/-- An object is no document with anything but blanks in front of it. -/
def Formats.RejectsRunOn (F : Formats) : Prop :=
  ∀ {w : String} {j : Json}, j.Named → (∃ c ∈ w.toList, Json.isBlank c = false) →
    F.fromStr (w ++ F.toString j) = none

/-- White space is no document. -/
def Formats.RejectsBlank (F : Formats) : Prop :=
  ∀ s : String, (∀ c ∈ s.toList, isWhitespace c = true) → F.fromStr s = none

/-- Documents are printed without blanks, with control characters escaped, and read back. -/
structure Formats.CompactJson (F : Formats) : Prop where
  toString_eq : ∀ {j : Json}, j.Plain 127 → (F.toString j).toList = JsonText.print j
  fromStr_toString : ∀ {j : Json}, j.Plain 127 → F.fromStr (F.toString j) = some j
  ulidFromString_ulidToString : ∀ u : Ulid, F.ulidFromString (F.ulidToString u) = some u

/-- Documents with natural numbers of 64 bits are printed on one line and read back, too. -/
structure Formats.FaithfulNumbers (F : Formats) : Prop where
  fromStr_toString : ∀ {j : Json}, j.Printable 127 → F.fromStr (F.toString j) = some j
  oneLine : ∀ {j : Json}, j.Printable 127 → '\n' ∉ (F.toString j).toList ∧
    '\r' ∉ (F.toString j).toList

namespace Formats

/-- An id is stored as its text. -/
def ulidJson (F : Formats) (u : Ulid) : Json := .string (F.ulidToString u)

def ulidOfJson (F : Formats) (j : Json) : Option Ulid := j.asString.bind F.ulidFromString

@[simp] theorem ulidJson_plain (F : Formats) (depth : Nat) (u : Ulid) :
    (F.ulidJson u).Plain depth := .string _

@[simp] theorem Faithful.ulidOfJson_ulidJson {F : Formats} (hF : F.Faithful) (u : Ulid) :
    F.ulidOfJson (F.ulidJson u) = some u := hF.ulidFromString_ulidToString u

theorem CompactJson.oneLine {F : Formats} (hF : F.CompactJson) {j : Json} (h : j.Plain 127) :
    '\n' ∉ (F.toString j).toList ∧ '\r' ∉ (F.toString j).toList := by
  have hctl := JsonText.not_control_print h
  rw [hF.toString_eq h]
  exact ⟨fun hc => hctl _ hc (by decide), fun hc => hctl _ hc (by decide)⟩

end Formats

end AgentBus
