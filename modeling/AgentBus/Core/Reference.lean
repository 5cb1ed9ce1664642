import AgentBus.Core.Formats
import AgentBus.Lib.JsonTorn

/-!
# Reference formats

An instance of `Formats`: compact JSON, and ids as 26 Crockford base-32
digits, most significant first. It is `Faithful`, so nothing the bus is assumed
to rely on is contradictory, and it can be run.
-/

namespace AgentBus

open Lib

/-! ## Ids as text -/

namespace Ulid

def alphabet : List Char := "0123456789ABCDEFGHJKMNPQRSTVWXYZ".toList

def digit (n : Nat) : Char := alphabet.getD n '0'

/-- The value of a digit, in either case. -/
def digitVal (c : Char) : Option Nat :=
  let n := alphabet.idxOf c.toUpper
  if n < 32 then some n else none

/-- The last `k` base-32 digits. -/
def digits : Nat → Nat → List Char
  | 0, _ => []
  | k + 1, n => digits k (n / 32) ++ [digit (n % 32)]

/-- Digits are shifted in from the right. -/
def ofDigits (acc : Nat) : List Char → Option Nat
  | [] => some acc
  | c :: cs => (digitVal c).bind fun d => ofDigits (acc * 32 + d) cs

def toText (u : Ulid) : String := String.ofList (digits 26 u.bits)

def ofText (s : String) : Option Ulid :=
  if s.toList.length = 26 then
    (ofDigits 0 s.toList).map fun n => ⟨n % 2 ^ 128, Nat.mod_lt _ (by decide)⟩
  else none

theorem digitVal_digit {n : Nat} (h : n < 32) : digitVal (digit n) = some n := by
  have hall : ∀ n < 32, digitVal (digit n) = some n := by decide
  exact hall n h

theorem length_digits (k n : Nat) : (digits k n).length = k := by
  induction k generalizing n with
  | zero => rfl
  | succ k ih => rw [digits, List.length_append, ih]; rfl

theorem ofDigits_append (acc : Nat) (cs ds : List Char) :
    ofDigits acc (cs ++ ds) = (ofDigits acc cs).bind fun acc => ofDigits acc ds := by
  induction cs generalizing acc with
  | nil => rfl
  | cons c cs ih =>
    rw [List.cons_append, ofDigits, ofDigits]
    cases digitVal c with
    | none => rfl
    | some d => exact ih _

theorem ofDigits_digits (k : Nat) {n : Nat} (h : n < 32 ^ k) :
    ofDigits 0 (digits k n) = some n := by
  induction k generalizing n with
  | zero => rw [Nat.pow_zero, Nat.lt_one_iff] at h; rw [h]; rfl
  | succ k ih =>
    have hdiv : n / 32 < 32 ^ k := Nat.div_lt_of_lt_mul (by rw [Nat.pow_succ] at h; omega)
    rw [digits, ofDigits_append, ih hdiv]
    simp only [Option.bind_some, ofDigits, digitVal_digit (Nat.mod_lt n (by decide : 0 < 32))]
    congr 1
    omega

theorem ofText_toText (u : Ulid) : ofText u.toText = some u := by
  have h : u.bits < 32 ^ 26 := Nat.lt_trans u.isLt (by decide)
  rw [ofText, toText, String.toList_ofList, if_pos (length_digits 26 _), ofDigits_digits 26 h]
  simp only [Option.map_some, Nat.mod_eq_of_lt u.isLt]

example : (Ulid.fromParts 0 33).toText = "00000000000000000000000011" := by decide

end Ulid

/-! ## The instance -/

namespace Formats

def reference : Formats where
  toString j := String.ofList (JsonText.print j)
  fromStr s := JsonText.parse s.toList
  ulidToString := Ulid.toText
  ulidFromString := Ulid.ofText

theorem reference_fromStr (s : String) : reference.fromStr s = JsonText.parse s.toList := rfl

theorem reference_toString (j : Json) : (reference.toString j).toList = JsonText.print j :=
  String.toList_ofList

theorem reference_ulidToString : reference.ulidToString = Ulid.toText := rfl

theorem reference_ulidFromString : reference.ulidFromString = Ulid.ofText := rfl

theorem reference_object (members : List (String × Json)) :
    (reference.toString (.object members)).toList =
      '{' :: (JsonText.printMembers members ++ ['}']) := by
  rw [reference_toString, JsonText.print]

theorem reference_compactJson : reference.CompactJson where
  toString_eq _ := reference_toString _
  fromStr_toString h := by
    rw [reference_fromStr, reference_toString, JsonText.parse_print h]
  ulidFromString_ulidToString u := by
    rw [reference_ulidFromString, reference_ulidToString, Ulid.ofText_toText]

theorem reference_faithful : reference.Faithful where
  fromStr_toString := reference_compactJson.fromStr_toString
  ulidFromString_ulidToString := reference_compactJson.ulidFromString_ulidToString
  oneLine := reference_compactJson.oneLine
  braces members := ⟨JsonText.printMembers members, reference_object members⟩
  quotedKey hmem hkey := by
    have hin := JsonText.printString_infix_printMembers hmem
    rw [JsonText.printString_of_letters hkey] at hin
    rw [contains, reference_object, decide_eq_true_eq]
    exact hin.trans ⟨['{'], ['}'], by simp⟩
  leadingBlank w s hw := by
    rw [reference_fromStr, reference_fromStr, String.toList_append, JsonText.parse_blank_append hw]

theorem reference_faithfulNumbers : reference.FaithfulNumbers where
  fromStr_toString h := by rw [reference_fromStr, reference_toString, JsonText.parse_printable h]
  oneLine h := by
    have hctl := JsonText.not_control_printable h
    rw [reference_toString]
    exact ⟨fun hc => hctl _ hc (by decide), fun hc => hctl _ hc (by decide)⟩

theorem reference_rejectsTorn : reference.RejectsTorn where
  unfinished {j s} hj h hne := by
    rw [reference_toString] at h
    refine JsonText.Scan.parse_unfinished hj h fun heq => hne ?_
    rw [← String.toList_inj, heq, reference_toString]
  spliced hbs hpieces hne h := by
    simp only [reference_toString] at hbs hpieces
    exact JsonText.Scan.parse_spliced hbs hpieces hne h

theorem reference_rejectsRunOn : reference.RejectsRunOn := fun hj ⟨_, hc, hblank⟩ => by
  rw [reference_fromStr, String.toList_append, reference_toString]
  exact JsonText.Scan.parse_runOn hj hc hblank

theorem isNumberChar_of_whitespace {c : Char} (h : isWhitespace c = true) :
    JsonText.isNumberChar c = false := by
  rw [Bool.eq_false_iff]
  intro hn
  simp only [JsonText.isNumberChar, Bool.or_eq_true, beq_iff_eq] at hn
  rcases hn with ((((hdigit | rfl) | rfl) | rfl) | rfl) | rfl
  · have hlo : 48 ≤ c.toNat := (Char.isDigit_iff_toNat.mp hdigit).1
    have hhi : c.toNat ≤ 57 := (Char.isDigit_iff_toNat.mp hdigit).2
    simp only [isWhitespace, Bool.or_eq_true, Bool.and_eq_true, decide_eq_true_eq, beq_iff_eq] at h
    omega
  all_goals exact absurd h (by decide)

theorem parseValue_of_whitespace {cs : List Char} (h : ∀ c ∈ cs, isWhitespace c = true)
    (depth : Nat) : JsonText.parseValue (depth + 1) cs = none := by
  have hrest : ∀ c ∈ JsonText.skipBlank cs, isWhitespace c = true := fun c hc =>
    h c ((List.dropWhile_sublist _).subset hc)
  unfold JsonText.parseValue
  generalize JsonText.skipBlank cs = ds at hrest
  cases ds with
  | nil => rfl
  | cons d ds =>
    have hd := hrest d List.mem_cons_self
    split
    case h_7 =>
      rw [List.takeWhile_cons_of_neg (by simp [isNumberChar_of_whitespace hd])]
      rfl
    all_goals
      obtain ⟨rfl, -⟩ := List.cons.inj ‹d :: ds = _›
      exact absurd hd (by decide)

theorem reference_rejectsBlank : reference.RejectsBlank := fun s hs => by
  rw [reference_fromStr, JsonText.parse, parseValue_of_whitespace hs]
  rfl

end Formats

end AgentBus
