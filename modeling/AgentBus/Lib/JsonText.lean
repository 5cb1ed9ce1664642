import AgentBus.Lib.Json

/-!
# A compact JSON printer and its parser

`print` writes a document without blanks, `parse` reads any document, blanks
included, that is nested at most 127 deep. `parse_printable` is the round trip
for documents whose numbers are natural.
-/

namespace AgentBus.Lib.JsonText

/-! ## Printing -/

def hexDigit (n : Nat) : Char := Nat.digitChar n

def escapeChar (c : Char) : List Char :=
  if c = '"' then ['\\', '"'] else if c = '\\' then ['\\', '\\']
  else if c = '\n' then ['\\', 'n'] else if c = '\r' then ['\\', 'r']
  else if c = '\t' then ['\\', 't'] else if c = '\x08' then ['\\', 'b']
  else if c = '\x0c' then ['\\', 'f']
  else if c.toNat < 32 then ['\\', 'u', '0', '0', hexDigit (c.toNat / 16), hexDigit (c.toNat % 16)]
  else [c]

def printString (s : String) : List Char := '"' :: (s.toList.flatMap escapeChar ++ ['"'])

mutual

def print : Json → List Char
  | .null => ['n', 'u', 'l', 'l']
  | .bool true => ['t', 'r', 'u', 'e']
  | .bool false => ['f', 'a', 'l', 's', 'e']
  | .number spelling => spelling.toList
  | .string s => printString s
  | .array xs => '[' :: (printElems xs ++ [']'])
  | .object members => '{' :: (printMembers members ++ ['}'])

def printElems : List Json → List Char
  | [] => []
  | [x] => print x
  | x :: y :: xs => print x ++ ',' :: printElems (y :: xs)

def printMembers : List (String × Json) → List Char
  | [] => []
  | [(k, v)] => printString k ++ ':' :: print v
  | (k, v) :: m :: ms => printString k ++ ':' :: (print v ++ ',' :: printMembers (m :: ms))

end

example :
    String.ofList (print (.object [("a", .array [.null, .bool true]), ("b", .string "x\n")])) =
      "\x7b\"a\":[null,true],\"b\":\"x\\n\"\x7d" := by decide

/-! ## Parsing -/

def skipBlank (cs : List Char) : List Char := cs.dropWhile Json.isBlank

def hexVal (c : Char) : Option Nat :=
  if '0' ≤ c ∧ c ≤ '9' then some (c.toNat - 48)
  else if 'a' ≤ c ∧ c ≤ 'f' then some (c.toNat - 87)
  else if 'A' ≤ c ∧ c ≤ 'F' then some (c.toNat - 55)
  else none

def hex4 (a b c d : Char) : Option Nat := do
  let a ← hexVal a
  let b ← hexVal b
  let c ← hexVal c
  let d ← hexVal d
  some (((a * 16 + b) * 16 + c) * 16 + d)

def simpleEscape : Char → Option Char
  | '"' => some '"'
  | '\\' => some '\\'
  | '/' => some '/'
  | 'n' => some '\n'
  | 'r' => some '\r'
  | 't' => some '\t'
  | 'b' => some '\x08'
  | 'f' => some '\x0c'
  | _ => none

/-- The rest of a string, after its opening quote. -/
def stringBody : List Char → Option (List Char × List Char)
  | [] => none
  | '"' :: cs => some ([], cs)
  | '\\' :: 'u' :: a :: b :: c :: d :: cs =>
    match hex4 a b c d with
    | none => none
    | some n =>
      if 0xd800 ≤ n ∧ n < 0xdc00 then
        -- the high half of a surrogate pair
        match cs with
        | '\\' :: 'u' :: a :: b :: c :: d :: cs =>
          match hex4 a b c d with
          | none => none
          | some m =>
            if 0xdc00 ≤ m ∧ m < 0xe000 then
              (stringBody cs).map fun r =>
                (Char.ofNat (0x10000 + (n - 0xd800) * 1024 + (m - 0xdc00)) :: r.1, r.2)
            else none
        | _ => none
      else if 0xdc00 ≤ n ∧ n < 0xe000 then none
      else (stringBody cs).map fun r => (Char.ofNat n :: r.1, r.2)
  | '\\' :: c :: cs =>
    match simpleEscape c with
    | none => none
    | some e => (stringBody cs).map fun r => (e :: r.1, r.2)
  | c :: cs => if c.toNat < 32 then none else (stringBody cs).map fun r => (c :: r.1, r.2)

def isNumber (cs : List Char) : Bool :=
  let cs := if cs.head? = some '-' then cs.tail else cs
  let int := cs.takeWhile Char.isDigit
  let rest := cs.dropWhile Char.isDigit
  let fraction := if rest.head? = some '.' then rest.tail.takeWhile Char.isDigit else ['0']
  let rest := if rest.head? = some '.' then rest.tail.dropWhile Char.isDigit else rest
  let hasExponent := rest.head? = some 'e' || rest.head? = some 'E'
  let exponent := if rest.tail.head? = some '+' || rest.tail.head? = some '-' then rest.tail.tail
    else rest.tail
  !int.isEmpty && (int.length = 1 || int.head? ≠ some '0') && !fraction.isEmpty &&
    (if hasExponent then !exponent.isEmpty && exponent.all Char.isDigit else rest.isEmpty)

def isNumberChar (c : Char) : Bool :=
  c.isDigit || c == '-' || c == '+' || c == '.' || c == 'e' || c == 'E'

/-- The elements of an array, after `[` or a comma; one round for each element. -/
def parseElems (value : List Char → Option (Json × List Char)) :
    Nat → List Char → Option (List Json × List Char)
  | 0, _ => none
  | fuel + 1, cs =>
    (value cs).bind fun r =>
      match skipBlank r.2 with
      | ',' :: cs => (parseElems value fuel cs).map fun q => (r.1 :: q.1, q.2)
      | ']' :: cs => some ([r.1], cs)
      | _ => none

/-- One member of an object. -/
def parseMember (value : List Char → Option (Json × List Char)) (cs : List Char) :
    Option ((String × Json) × List Char) :=
  match skipBlank cs with
  | '"' :: cs =>
    (stringBody cs).bind fun k =>
      match skipBlank k.2 with
      | ':' :: cs => (value cs).map fun r => ((String.ofList k.1, r.1), r.2)
      | _ => none
  | _ => none

def parseMembers (value : List Char → Option (Json × List Char)) :
    Nat → List Char → Option (List (String × Json) × List Char)
  | 0, _ => none
  | fuel + 1, cs =>
    (parseMember value cs).bind fun r =>
      match skipBlank r.2 with
      | ',' :: cs => (parseMembers value fuel cs).map fun q => (r.1 :: q.1, q.2)
      | '}' :: cs => some ([r.1], cs)
      | _ => none

/-- A value at the front, nested less than `depth` deep. -/
def parseValue : Nat → List Char → Option (Json × List Char)
  | 0, _ => none
  | depth + 1, cs =>
    match skipBlank cs with
    | '[' :: cs =>
      if depth = 0 then none
      else
        match skipBlank cs with
        | ']' :: cs => some (.array [], cs)
        | cs => (parseElems (parseValue depth) cs.length cs).map fun r => (.array r.1, r.2)
    | '{' :: cs =>
      if depth = 0 then none
      else
        match skipBlank cs with
        | '}' :: cs => some (.object [], cs)
        | cs => (parseMembers (parseValue depth) cs.length cs).map fun r => (.object r.1, r.2)
    | '"' :: cs => (stringBody cs).map fun r => (.string (String.ofList r.1), r.2)
    | 'n' :: 'u' :: 'l' :: 'l' :: cs => some (.null, cs)
    | 't' :: 'r' :: 'u' :: 'e' :: cs => some (.bool true, cs)
    | 'f' :: 'a' :: 'l' :: 's' :: 'e' :: cs => some (.bool false, cs)
    | cs =>
      let spelling := cs.takeWhile isNumberChar
      if isNumber spelling then
        some (.number (String.ofList spelling), cs.dropWhile isNumberChar)
      else none

def parse (cs : List Char) : Option Json :=
  (parseValue 128 cs).bind fun r => if skipBlank r.2 = [] then some r.1 else none

/-! ## Round trip -/

theorem hexVal_hexDigit {n : Nat} (h : n < 16) : hexVal (hexDigit n) = some n := by
  have hall : ∀ n < 16, hexVal (hexDigit n) = some n := by decide
  exact hall n h

theorem stringBody_escapeChar (c : Char) (rest : List Char) :
    stringBody (escapeChar c ++ rest) = (stringBody rest).map fun r => (c :: r.1, r.2) := by
  unfold escapeChar
  split
  · next h => subst h; rfl
  split
  · next h => subst h; rfl
  split
  · next h => subst h; rfl
  split
  · next h => subst h; rfl
  split
  · next h => subst h; rfl
  split
  · next h => subst h; rfl
  split
  · next h => subst h; rfl
  split
  · next h =>
    have hhex : hex4 '0' '0' (hexDigit (c.toNat / 16)) (hexDigit (c.toNat % 16)) =
        some c.toNat := by
      rw [hex4, hexVal_hexDigit (by omega), hexVal_hexDigit (by omega)]
      show some (((0 * 16 + 0) * 16 + c.toNat / 16) * 16 + c.toNat % 16) = some c.toNat
      congr 1
      omega
    simp only [List.cons_append, List.nil_append, stringBody, hhex]
    rw [if_neg (by omega), if_neg (by omega), Char.ofNat_toNat]
  · next hb _ _ _ _ _ h =>
    simp [stringBody, hb, h]

theorem stringBody_print (cs rest : List Char) :
    stringBody (cs.flatMap escapeChar ++ '"' :: rest) = some (cs, rest) := by
  induction cs with
  | nil => rfl
  | cons c cs ih => rw [List.flatMap_cons, List.append_assoc, stringBody_escapeChar, ih]; rfl

theorem skipBlank_of_head {c : Char} {cs : List Char} (h : Json.isBlank c = false) :
    skipBlank (c :: cs) = c :: cs := by
  rw [skipBlank, List.dropWhile_cons_of_neg (by simp [h])]

theorem isBlank_of_isDigit {c : Char} (h : c.isDigit = true) : Json.isBlank c = false := by
  rw [Bool.eq_false_iff]
  intro hblank
  simp only [Json.isBlank, Bool.or_eq_true, beq_iff_eq] at hblank
  rcases hblank with ((rfl | rfl) | rfl) | rfl <;> exact absurd h (by decide)

theorem isNumberChar_of_isDigit {c : Char} (h : c.isDigit = true) : isNumberChar c = true := by
  simp [isNumberChar, h]

theorem isDigit_of_mem_toDigits {n : Nat} {c : Char} (h : c ∈ Nat.toDigits 10 n) :
    c.isDigit = true :=
  Nat.isDigit_of_mem_toDigits (by decide) (by decide) h

/-- No number is spelled with a leading zero. -/
theorem head_toDigits {n : Nat} (h : 10 ≤ n) : (Nat.toDigits 10 n).head? ≠ some '0' := by
  induction n using Nat.strongRecOn with
  | ind n ih =>
    rw [Nat.toDigits_of_base_le (by decide) h, List.head?_append_of_ne_nil _ Nat.toDigits_ne_nil]
    by_cases hsmall : n / 10 < 10
    · have hall : ∀ d < 10, 0 < d → Nat.digitChar d ≠ '0' := by decide
      rw [Nat.toDigits_of_lt_base hsmall]
      simpa using hall _ hsmall (by omega)
    · exact ih (n / 10) (by omega) (by omega)

theorem isNumber_toDigits (n : Nat) : isNumber (Nat.toDigits 10 n) = true := by
  have hdigits : ∀ c ∈ Nat.toDigits 10 n, c.isDigit = true := fun c => isDigit_of_mem_toDigits
  have hminus : (Nat.toDigits 10 n).head? ≠ some '-' := fun hhead =>
    absurd (hdigits _ (List.mem_of_head? hhead)) (by decide)
  have hlead : (Nat.toDigits 10 n).length = 1 ∨ (Nat.toDigits 10 n).head? ≠ some '0' := by
    by_cases h : n < 10
    · rw [Nat.toDigits_of_lt_base h]
      exact .inl rfl
    · exact .inr (head_toDigits (Nat.le_of_not_lt h))
  have htake : (Nat.toDigits 10 n ++ []).takeWhile Char.isDigit = Nat.toDigits 10 n ++ [] :=
    List.takeWhile_append_of_pos hdigits
  have hdrop : (Nat.toDigits 10 n ++ []).dropWhile Char.isDigit = [] :=
    List.dropWhile_append_of_pos hdigits
  rw [List.append_nil] at htake hdrop
  rw [isNumber, if_neg hminus, htake, hdrop]
  simpa using hlead

/-- What comes after a number. -/
def Ends (rest : List Char) : Prop := ∀ c ∈ rest.head?, isNumberChar c = false

theorem ends_nil : Ends [] := nofun

theorem ends_cons {c : Char} {cs : List Char} (h : isNumberChar c = false) : Ends (c :: cs) := by
  rintro d hd
  obtain rfl : c = d := by simpa using hd
  exact h

theorem takeWhile_toDigits (n : Nat) {rest : List Char} (h : Ends rest) :
    (Nat.toDigits 10 n ++ rest).takeWhile isNumberChar = Nat.toDigits 10 n ∧
      (Nat.toDigits 10 n ++ rest).dropWhile isNumberChar = rest := by
  have hdigits : ∀ c ∈ Nat.toDigits 10 n, isNumberChar c = true := fun c hc =>
    isNumberChar_of_isDigit (isDigit_of_mem_toDigits hc)
  rw [List.takeWhile_append_of_pos hdigits, List.dropWhile_append_of_pos hdigits]
  cases rest with
  | nil => simp
  | cons c cs => simp [h c rfl]

theorem parseValue_natural (depth n : Nat) {rest : List Char} (h : Ends rest) :
    parseValue (depth + 1) (print (.ofNat n) ++ rest) = some (.ofNat n, rest) := by
  obtain ⟨htake, hdrop⟩ := takeWhile_toDigits n h
  have hnumber := isNumber_toDigits n
  have hprint : print (.ofNat n) = Nat.toDigits 10 n := by rw [Json.ofNat, print, Nat.toList_repr]
  rw [hprint]
  obtain ⟨c, cs, hcs⟩ := List.exists_cons_of_ne_nil (Nat.toDigits_ne_nil (n := n) (b := 10))
  have hc : c.isDigit = true := isDigit_of_mem_toDigits (hcs ▸ List.mem_cons_self)
  rw [hcs, List.cons_append] at htake hdrop ⊢
  rw [hcs] at hnumber
  rw [parseValue, skipBlank_of_head (isBlank_of_isDigit hc)]
  split
  case h_7 =>
    rw [htake, if_pos hnumber, hdrop, ← hcs, Json.ofNat, Nat.repr_eq_ofList_toDigits]
  all_goals
    obtain ⟨rfl, -⟩ := List.cons.inj ‹c :: (cs ++ rest) = _›
    exact absurd hc (by decide)

/-- What a document is printed as starts neither with a blank nor with a closing bracket. -/
theorem print_head {depth : Nat} {j : Json} (h : j.Printable depth) : ∃ c cs, print j = c :: cs ∧
    Json.isBlank c = false ∧ c ≠ ']' ∧ c ≠ '}' := by
  cases h with
  | null => exact ⟨_, _, rfl, by decide⟩
  | bool b => cases b <;> exact ⟨_, _, rfl, by decide⟩
  | @natural _ n _ =>
    obtain ⟨c, cs, hcs⟩ := List.exists_cons_of_ne_nil (Nat.toDigits_ne_nil (n := n) (b := 10))
    have hc : c.isDigit = true := isDigit_of_mem_toDigits (hcs ▸ List.mem_cons_self)
    refine ⟨c, cs, by rw [Json.ofNat, print, Nat.toList_repr, hcs], ?_, ?_, ?_⟩
    · exact isBlank_of_isDigit hc
    · rintro rfl
      exact absurd hc (by decide)
    · rintro rfl
      exact absurd hc (by decide)
  | string s => exact ⟨_, _, rfl, by decide⟩
  | array _ => exact ⟨_, _, rfl, by decide⟩
  | object _ => exact ⟨_, _, rfl, by decide⟩

theorem length_le_printElems {depth : Nat} : ∀ xs : List Json, (∀ x ∈ xs, x.Printable depth) →
    xs.length ≤ (printElems xs).length
  | [], _ => Nat.le_refl _
  | [x], h => by
    obtain ⟨c, cs, hx, -⟩ := print_head (h x List.mem_cons_self)
    simp [printElems, hx]
  | x :: y :: xs, h => by
    have ih := length_le_printElems (y :: xs) fun z hz => h z (List.mem_cons_of_mem _ hz)
    simp only [printElems, List.length_append, List.length_cons] at ih ⊢
    omega

theorem length_le_printMembers : ∀ ms : List (String × Json), ms.length ≤ (printMembers ms).length
  | [] => Nat.le_refl _
  | [(k, v)] => by simp [printMembers, printString]
  | (k, v) :: m :: ms => by
    have ih := length_le_printMembers (m :: ms)
    simp only [printMembers, List.length_append, List.length_cons] at ih ⊢
    omega

theorem printElems_head {depth : Nat} {x : Json} (h : x.Printable depth) (xs : List Json) :
    ∃ c cs, printElems (x :: xs) = c :: cs ∧ Json.isBlank c = false ∧ c ≠ ']' := by
  obtain ⟨c, cs, hx, hc, hne, -⟩ := print_head h
  cases xs with
  | nil => exact ⟨c, cs, hx, hc, hne⟩
  | cons y ys => exact ⟨c, cs ++ ',' :: printElems (y :: ys), by simp [printElems, hx], hc, hne⟩

theorem printMembers_head (m : String × Json) (ms : List (String × Json)) :
    ∃ cs, printMembers (m :: ms) = '"' :: cs := by
  obtain ⟨k, v⟩ := m
  cases ms <;> exact ⟨_, rfl⟩

/-- A parser that undoes `print` on the elements undoes `printElems`. -/
theorem parseElems_print (value : List Char → Option (Json × List Char)) (rest : List Char) :
    ∀ (xs : List Json) (fuel : Nat), xs ≠ [] → xs.length ≤ fuel →
      (∀ x ∈ xs, ∀ rest, Ends rest → value (print x ++ rest) = some (x, rest)) →
      parseElems value fuel (printElems xs ++ ']' :: rest) = some (xs, rest)
  | [], _, h, _, _ => absurd rfl h
  | [x], fuel + 1, _, _, hv => by
    rw [printElems, parseElems, hv x List.mem_cons_self _ (ends_cons (by decide))]
    simp [skipBlank, Json.isBlank]
  | x :: y :: xs, fuel + 1, _, hf, hv => by
    have ih := parseElems_print value rest (y :: xs) fuel (by simp)
      (by simpa using hf) fun z hz => hv z (List.mem_cons_of_mem _ hz)
    rw [printElems, parseElems, List.append_assoc, List.cons_append,
      hv x List.mem_cons_self _ (ends_cons (by decide))]
    simp [skipBlank, Json.isBlank, ih]

theorem parseMember_print {value : List Char → Option (Json × List Char)} {k : String} {v : Json}
    {rest : List Char} (hv : value (print v ++ rest) = some (v, rest)) :
    parseMember value (printString k ++ ':' :: (print v ++ rest)) = some ((k, v), rest) := by
  rw [printString, List.cons_append, parseMember, skipBlank_of_head (by decide), List.append_assoc,
    List.singleton_append]
  simp [stringBody_print, skipBlank, Json.isBlank, hv]

theorem parseMembers_print (value : List Char → Option (Json × List Char)) (rest : List Char) :
    ∀ (ms : List (String × Json)) (fuel : Nat), ms ≠ [] → ms.length ≤ fuel →
      (∀ m ∈ ms, ∀ rest, Ends rest → value (print m.2 ++ rest) = some (m.2, rest)) →
      parseMembers value fuel (printMembers ms ++ '}' :: rest) = some (ms, rest)
  | [], _, h, _, _ => absurd rfl h
  | [(k, v)], fuel + 1, _, _, hv => by
    rw [printMembers, parseMembers, List.append_assoc, List.cons_append,
      parseMember_print (hv (k, v) List.mem_cons_self _ (ends_cons (by decide)))]
    simp [skipBlank, Json.isBlank]
  | (k, v) :: m :: ms, fuel + 1, _, hf, hv => by
    have ih := parseMembers_print value rest (m :: ms) fuel (by simp)
      (by simpa using hf) fun z hz => hv z (List.mem_cons_of_mem _ hz)
    rw [printMembers, parseMembers, List.append_assoc, List.cons_append, List.append_assoc,
      List.cons_append, parseMember_print (hv (k, v) List.mem_cons_self _ (ends_cons (by decide)))]
    simp [skipBlank, Json.isBlank, ih]

theorem parseValue_array {depth : Nat} (hd : depth ≠ 0) {c : Char} {cs : List Char}
    (hc : Json.isBlank c = false) (hne : c ≠ ']') :
    parseValue (depth + 1) ('[' :: c :: cs) =
      (parseElems (parseValue depth) (c :: cs).length (c :: cs)).map fun r =>
        (.array r.1, r.2) := by
  rw [parseValue, skipBlank_of_head (by decide)]
  simp [hd, skipBlank_of_head hc, hne]

theorem parseValue_object {depth : Nat} (hd : depth ≠ 0) (cs : List Char) :
    parseValue (depth + 1) ('{' :: '"' :: cs) =
      (parseMembers (parseValue depth) ('"' :: cs).length ('"' :: cs)).map
        fun r => (.object r.1, r.2) := by
  rw [parseValue, skipBlank_of_head (by decide)]
  simp [hd, skipBlank_of_head (show Json.isBlank '"' = false by decide)]

theorem parseValue_print {d : Nat} {j : Json} (h : j.Printable d) :
    ∀ {depth : Nat}, d < depth → ∀ rest, Ends rest → parseValue depth (print j ++ rest) =
      some (j, rest) := by
  induction h with
  | null =>
    rintro (_ | depth) hd rest -
    · omega
    · rfl
  | bool b =>
    rintro (_ | depth) hd rest -
    · omega
    · cases b <;> rfl
  | @natural _ n _ =>
    rintro (_ | depth) hd rest hrest
    · omega
    · exact parseValue_natural depth n hrest
  | string s =>
    rintro (_ | depth) hd rest -
    · omega
    · rw [print, printString, List.cons_append, parseValue, skipBlank_of_head (by decide),
        List.append_assoc, List.singleton_append]
      simp [stringBody_print]
  | @array d xs hxs ih =>
    rintro (_ | depth) hd rest -
    · omega
    · cases xs with
      | nil =>
        have : depth ≠ 0 := by omega
        simp [print, printElems, parseValue, skipBlank, Json.isBlank, this]
      | cons x xs =>
        obtain ⟨c, cs, hcs, hc, hne⟩ := printElems_head (hxs x List.mem_cons_self) xs
        have helems := parseElems_print (parseValue depth) rest (x :: xs)
          (printElems (x :: xs) ++ ']' :: rest).length (by simp)
          (Nat.le_trans (length_le_printElems _ hxs) (by simp)) fun y hy => ih y hy (by omega)
        rw [print, List.cons_append, List.append_assoc, List.singleton_append]
        rw [hcs, List.cons_append] at helems ⊢
        rw [parseValue_array (by omega) hc hne, helems]
        rfl
  | @object d ms hms ih =>
    rintro (_ | depth) hd rest -
    · omega
    · cases ms with
      | nil =>
        have : depth ≠ 0 := by omega
        simp [print, printMembers, parseValue, skipBlank, Json.isBlank, this]
      | cons m ms =>
        obtain ⟨cs, hcs⟩ := printMembers_head m ms
        have hmembers := parseMembers_print (parseValue depth) rest (m :: ms)
          (printMembers (m :: ms) ++ '}' :: rest).length (by simp)
          (Nat.le_trans (length_le_printMembers _) (by simp)) fun y hy => ih y hy (by omega)
        rw [print, List.cons_append, List.append_assoc, List.singleton_append]
        rw [hcs, List.cons_append] at hmembers ⊢
        rw [parseValue_object (by omega), hmembers]
        rfl

/-- **Parsing undoes printing.** -/
theorem parse_printable {j : Json} (h : j.Printable 127) : parse (print j) = some j := by
  have := parseValue_print h (Nat.lt_succ_self 127) [] ends_nil
  rw [List.append_nil] at this
  rw [parse, this]
  rfl

theorem parse_print {j : Json} (h : j.Plain 127) : parse (print j) = some j :=
  parse_printable h.printable

/-! ## The shape of printed documents -/

theorem skipBlank_append {w : List Char} (hw : ∀ c ∈ w, Json.isBlank c = true) (cs : List Char) :
    skipBlank (w ++ cs) = skipBlank cs := by
  rw [skipBlank, List.dropWhile_append_of_pos hw]
  rfl

theorem parse_blank_append {w : List Char} (hw : ∀ c ∈ w, Json.isBlank c = true) (cs : List Char) :
    parse (w ++ cs) = parse cs := by
  have : parseValue 128 (w ++ cs) = parseValue 128 cs := by
    rw [parseValue, parseValue, skipBlank_append hw]
  rw [parse, this, ← parse]

theorem mem_printElems {c : Char} : ∀ {xs : List Json}, c ∈ printElems xs →
    c = ',' ∨ ∃ x ∈ xs, c ∈ print x
  | [], h => absurd h List.not_mem_nil
  | [x], h => .inr ⟨x, List.mem_cons_self, h⟩
  | x :: y :: xs, h => by
    rw [printElems, List.mem_append, List.mem_cons] at h
    rcases h with h | h | h
    · exact .inr ⟨x, List.mem_cons_self, h⟩
    · exact .inl h
    · exact (mem_printElems h).imp id fun ⟨z, hz, hc⟩ => ⟨z, List.mem_cons_of_mem _ hz, hc⟩

theorem mem_printMembers {c : Char} : ∀ {ms : List (String × Json)}, c ∈ printMembers ms →
    c = ',' ∨ c = ':' ∨ ∃ m ∈ ms, c ∈ printString m.1 ∨ c ∈ print m.2
  | [], h => absurd h List.not_mem_nil
  | [(k, v)], h => by
    rw [printMembers, List.mem_append, List.mem_cons] at h
    rcases h with h | h | h
    · exact .inr (.inr ⟨(k, v), List.mem_cons_self, .inl h⟩)
    · exact .inr (.inl h)
    · exact .inr (.inr ⟨(k, v), List.mem_cons_self, .inr h⟩)
  | (k, v) :: m :: ms, h => by
    rw [printMembers, List.mem_append, List.mem_cons, List.mem_append, List.mem_cons] at h
    rcases h with h | h | h | h | h
    · exact .inr (.inr ⟨(k, v), List.mem_cons_self, .inl h⟩)
    · exact .inr (.inl h)
    · exact .inr (.inr ⟨(k, v), List.mem_cons_self, .inr h⟩)
    · exact .inl h
    · exact (mem_printMembers h).imp id (Or.imp id
        fun ⟨z, hz, hc⟩ => ⟨z, List.mem_cons_of_mem _ hz, hc⟩)

theorem not_control_escapeChar {c d : Char} (h : d ∈ escapeChar c) : ¬ d.toNat < 32 := by
  have hhex : ∀ n < 16, ¬ (hexDigit n).toNat < 32 := by decide
  unfold escapeChar at h
  iterate 7
    split at h
    · simp only [List.mem_cons, List.not_mem_nil, or_false] at h
      rcases h with rfl | rfl <;> decide
  split at h
  · simp only [List.mem_cons, List.not_mem_nil, or_false] at h
    rcases h with rfl | rfl | rfl | rfl | rfl | rfl
    · decide
    · decide
    · decide
    · decide
    · exact hhex _ (by omega)
    · exact hhex _ (by omega)
  · next hc =>
    rw [List.mem_singleton.mp h]
    exact hc

theorem not_control_printString {s : String} {c : Char} (h : c ∈ printString s) :
    ¬ c.toNat < 32 := by
  rw [printString, List.mem_cons, List.mem_append, List.mem_singleton, List.mem_flatMap] at h
  rcases h with rfl | ⟨a, -, h⟩ | rfl
  · decide
  · exact not_control_escapeChar h
  · decide

theorem not_control_printable {d : Nat} {j : Json} (h : j.Printable d) :
    ∀ c ∈ print j, ¬ c.toNat < 32 := by
  induction h with
  | null => simp [print]
  | bool b => cases b <;> simp [print]
  | @natural _ n _ =>
    intro c hc
    rw [Json.ofNat, print, Nat.toList_repr] at hc
    have hlo : 48 ≤ c.toNat := (Char.isDigit_iff_toNat.mp (isDigit_of_mem_toDigits hc)).1
    omega
  | string s => exact fun c hc => not_control_printString hc
  | array _ ih =>
    intro c hc
    rw [print, List.mem_cons, List.mem_append, List.mem_singleton] at hc
    rcases hc with rfl | hc | rfl
    · decide
    · rcases mem_printElems hc with rfl | ⟨x, hx, hc⟩
      · decide
      · exact ih x hx c hc
    · decide
  | object _ ih =>
    intro c hc
    rw [print, List.mem_cons, List.mem_append, List.mem_singleton] at hc
    rcases hc with rfl | hc | rfl
    · decide
    · rcases mem_printMembers hc with rfl | rfl | ⟨m, hm, hc | hc⟩
      · decide
      · decide
      · exact not_control_printString hc
      · exact ih m hm c hc
    · decide

theorem not_control_print {d : Nat} {j : Json} (h : j.Plain d) : ∀ c ∈ print j, ¬ c.toNat < 32 :=
  not_control_printable h.printable

theorem printString_infix_printMembers {k : String} {v : Json} : ∀ {ms : List (String × Json)},
    (k, v) ∈ ms → printString k <:+: printMembers ms
  | [(k', v')], h => by
    obtain ⟨rfl, rfl⟩ := Prod.mk.inj (List.mem_singleton.mp h)
    exact (List.prefix_append ..).isInfix
  | (k', v') :: m :: ms, h => by
    rw [printMembers]
    rcases List.mem_cons.mp h with heq | h
    · obtain ⟨rfl, rfl⟩ := Prod.mk.inj heq
      exact (List.prefix_append ..).isInfix
    · have ih := printString_infix_printMembers h
      exact ih.trans ⟨printString k' ++ ':' :: (print v' ++ [',']), [], by simp⟩

/-- Letters are ASCII, and no control characters. -/
theorem toNat_of_isAlpha {c : Char} (h : c.isAlpha = true) : 32 ≤ c.toNat ∧ c.toNat < 128 := by
  delta Char.isAlpha Char.isUpper Char.isLower at h
  simp only [Bool.or_eq_true, Bool.and_eq_true, decide_eq_true_eq, ge_iff_le,
    UInt32.le_iff_toNat_le] at h
  have hA : 'A'.val.toNat = 65 := rfl
  have ha : 'a'.val.toNat = 97 := rfl
  have hZ : 'Z'.val.toNat = 90 := rfl
  have hz : 'z'.val.toNat = 122 := rfl
  show 32 ≤ c.val.toNat ∧ c.val.toNat < 128
  omega

theorem escapeChar_of_letter {c : Char} (h : c.isAlpha ∨ c = '_') : escapeChar c = [c] := by
  have hne : ∀ d : Char, d.isAlpha = false → d ≠ '_' → c ≠ d := by
    rintro d hd hd' rfl
    rcases h with h | h
    · rw [hd] at h; cases h
    · exact hd' h
  have hctl : ¬ c.toNat < 32 := by
    rcases h with h | rfl
    · exact Nat.not_lt.mpr (toNat_of_isAlpha h).1
    · decide
  unfold escapeChar
  rw [if_neg (hne _ (by decide) (by decide)), if_neg (hne _ (by decide) (by decide)),
    if_neg (hne _ (by decide) (by decide)), if_neg (hne _ (by decide) (by decide)),
    if_neg (hne _ (by decide) (by decide)), if_neg (hne _ (by decide) (by decide)),
    if_neg (hne _ (by decide) (by decide)), if_neg hctl]

theorem printString_of_letters {s : String} (h : ∀ c ∈ s.toList, c.isAlpha ∨ c = '_') :
    printString s = ("\"" ++ s ++ "\"").toList := by
  have hflat : s.toList.flatMap escapeChar = s.toList := by
    rw [List.flatMap_congr fun c hc => escapeChar_of_letter (h c hc)]
    simp
  simp [printString, hflat]

end AgentBus.Lib.JsonText
