import Mathlib.Data.List.Infix
import Mathlib.Data.List.TakeWhile

/-!
# Strings as the standard library reads them

`split`, `trim`, `contains` and the Unicode `White_Space` test, over the
characters of a string. A string is a sequence of Unicode scalar values.
-/

namespace AgentBus.Lib

/-- Unicode `White_Space`. -/
def isWhitespace (c : Char) : Bool :=
  let n := c.toNat
  (0x09 ≤ n && n ≤ 0x0d) || n == 0x20 || n == 0x85 || n == 0xa0 || n == 0x1680 ||
    (0x2000 ≤ n && n ≤ 0x200a) || n == 0x2028 || n == 0x2029 || n == 0x202f || n == 0x205f ||
    n == 0x3000

/-- The pieces of `s` between separators: at least one, possibly empty. -/
def split (sep : Char) (s : String) : List String := (s.toList.splitOn sep).map String.ofList

/-- `s` without leading and trailing white space. -/
def trim (s : String) : String :=
  String.ofList
    (((s.toList.dropWhile isWhitespace).reverse.dropWhile isWhitespace).reverse)

def contains (s needle : String) : Bool := decide (needle.toList <:+: s.toList)

theorem trim_isEmpty_iff {s : String} :
    (trim s).isEmpty = true ↔ ∀ c ∈ s.toList, isWhitespace c = true := by
  have hne : (trim s).isEmpty = true ↔ (trim s).toList = [] := by
    rw [String.isEmpty_iff, ← String.toList_inj]; simp
  rw [hne, trim, String.toList_ofList, List.reverse_eq_nil_iff, List.dropWhile_eq_nil_iff]
  simp only [List.mem_reverse]
  constructor
  · intro h c hc
    rw [← List.takeWhile_append_dropWhile (p := isWhitespace) (l := s.toList)] at hc
    rcases List.mem_append.mp hc with hc | hc
    · exact List.mem_takeWhile_imp hc
    · exact h c hc
  · intro h c hc
    exact h c ((List.dropWhile_sublist _).subset hc)

theorem trim_eq_self {s : String} (hf : ∀ c, s.toList.head? = some c → isWhitespace c = false)
    (hl : ∀ c, s.toList.getLast? = some c → isWhitespace c = false) : trim s = s := by
  have hdrop : ∀ l : List Char, (∀ c, l.head? = some c → isWhitespace c = false) →
      l.dropWhile isWhitespace = l := by
    intro l h
    cases l with
    | nil => rfl
    | cons c l => rw [List.dropWhile_cons_of_neg (by simp [h c rfl])]
  rw [trim, hdrop _ hf, hdrop _ (by simpa using hl), List.reverse_reverse, String.ofList_toList]

end AgentBus.Lib
