import Mathlib.Data.List.Basic
import Mathlib.Data.List.Induction

/-!
# Text files as bytes

`utf8` and `decodeUtf8` go between characters and bytes. `readLines` cuts a
byte sequence into the lines a buffered reader yields: a line ends at a
newline byte, which is dropped together with one carriage return before it,
and what follows the last newline is a line unless it is empty.
-/

namespace AgentBus.Lib

abbrev Bytes := List UInt8

def newline : UInt8 := 10

def carriageReturn : UInt8 := 13

def utf8 (cs : List Char) : Bytes := cs.flatMap String.utf8EncodeChar

/-- The characters, unless the bytes are not valid UTF-8. -/
def decodeUtf8 (bs : Bytes) : Option (List Char) :=
  bs.toByteArray.utf8Decode?.map Array.toList

/-- A line without the carriage return that ended it. -/
def stripReturn (line : Bytes) : Bytes :=
  if line.getLast? = some carriageReturn then line.dropLast else line

/-- The reader's loop: `line` is what has been read of the current line. -/
def readLinesFrom (line : Bytes) : Bytes → List Bytes
  | [] => if line.isEmpty then [] else [line]
  | b :: bs =>
    if b = newline then stripReturn line :: readLinesFrom [] bs else readLinesFrom (line ++ [b]) bs

def readLines (bs : Bytes) : List Bytes := readLinesFrom [] bs

/-! ## UTF-8 -/

@[simp] theorem utf8_nil : utf8 [] = [] := rfl

theorem utf8_append (cs ds : List Char) : utf8 (cs ++ ds) = utf8 cs ++ utf8 ds :=
  List.flatMap_append

@[simp] theorem decodeUtf8_utf8 (cs : List Char) : decodeUtf8 (utf8 cs) = some cs := by
  show (cs.utf8Encode.utf8Decode?).map Array.toList = some cs
  simp [List.utf8Decode?_utf8Encode]

theorem utf8_injective {cs ds : List Char} (h : utf8 cs = utf8 ds) : cs = ds := by
  have := congrArg decodeUtf8 h
  simpa using this

theorem utf8_of_decodeUtf8 {bs : Bytes} {cs : List Char} (h : decodeUtf8 bs = some cs) :
    utf8 cs = bs := by
  obtain ⟨chars, hchars, rfl⟩ := Option.map_eq_some_iff.mp h
  have hsome : bs.toByteArray.utf8Decode?.isSome = true := by rw [hchars]; rfl
  have hencode := ByteArray.utf8Encode_get_utf8Decode? (b := bs.toByteArray) (h := hsome)
  simp only [hchars, Option.get_some] at hencode
  have := congrArg (fun b => b.data.toList) hencode
  simpa [List.utf8Encode, utf8] using this

theorem utf8EncodeChar_of_lt {c : Char} (h : c.toNat < 128) :
    String.utf8EncodeChar c = [UInt8.ofNat c.toNat] := by
  unfold String.utf8EncodeChar
  simp only
  rw [if_pos (by show c.toNat ≤ 127; omega)]
  rfl

theorem not_ascii_ofNat {n : Nat} (h : 128 ≤ n) (h' : n < 256) : ¬ (UInt8.ofNat n).toNat < 128 := by
  rw [UInt8.toNat_ofNat_of_lt' h']
  omega

/-- An ASCII byte occurs in the encoding of its own character only. -/
theorem toNat_of_mem_utf8EncodeChar {c : Char} {b : UInt8} (hb : b.toNat < 128)
    (h : b ∈ String.utf8EncodeChar c) : c.toNat = b.toNat := by
  unfold String.utf8EncodeChar at h
  simp only at h
  split at h
  · next hc =>
    obtain rfl := List.mem_singleton.mp h
    rw [UInt8.toNat_ofNat_of_lt' (by show _ < 256; omega)]
    rfl
  · exfalso
    revert hb
    split at h
    · simp only [List.mem_cons, List.not_mem_nil, or_false] at h
      rcases h with rfl | rfl <;> exact not_ascii_ofNat (by omega) (by omega)
    · split at h
      · simp only [List.mem_cons, List.not_mem_nil, or_false] at h
        rcases h with rfl | rfl | rfl <;> exact not_ascii_ofNat (by omega) (by omega)
      · simp only [List.mem_cons, List.not_mem_nil, or_false] at h
        rcases h with rfl | rfl | rfl | rfl <;> exact not_ascii_ofNat (by omega) (by omega)

theorem mem_of_mem_utf8 {cs : List Char} {b : UInt8} {a : Char} (hb : b.toNat < 128)
    (ha : a.toNat = b.toNat) (h : b ∈ utf8 cs) : a ∈ cs := by
  obtain ⟨c, hc, hbc⟩ := List.mem_flatMap.mp h
  have hca : c.toNat = a.toNat := (toNat_of_mem_utf8EncodeChar hb hbc).trans ha.symm
  rwa [← Char.toNat_inj.mp hca]

theorem newline_notMem_utf8 {cs : List Char} (h : '\n' ∉ cs) : newline ∉ utf8 cs :=
  fun hb => h (mem_of_mem_utf8 (b := newline) (by decide) rfl hb)

theorem return_notMem_utf8 {cs : List Char} (h : '\r' ∉ cs) : carriageReturn ∉ utf8 cs :=
  fun hb => h (mem_of_mem_utf8 (b := carriageReturn) (by decide) rfl hb)

/-! ## Lines -/

theorem stripReturn_eq_self {line : Bytes} (h : carriageReturn ∉ line) : stripReturn line = line :=
  if_neg fun hl => h (List.mem_of_getLast? hl)

theorem readLinesFrom_append_newline {r : Bytes} (h : newline ∉ r) (line bs : Bytes) :
    readLinesFrom line (r ++ newline :: bs) = stripReturn (line ++ r) :: readLines bs := by
  induction r generalizing line with
  | nil => simp [readLinesFrom, readLines]
  | cons b r ih =>
    obtain ⟨hb, hr⟩ := not_or.mp (mt List.mem_cons.mpr h)
    rw [List.cons_append, readLinesFrom, if_neg (Ne.symm hb), ih hr, List.append_assoc]
    rfl

theorem readLines_append_newline {r : Bytes} (h : newline ∉ r) (bs : Bytes) :
    readLines (r ++ newline :: bs) = stripReturn r :: readLines bs := by
  rw [readLines, readLinesFrom_append_newline h, List.nil_append]

theorem readLines_cons {r : Bytes} (h : newline ∉ r) (hr : carriageReturn ∉ r) (bs : Bytes) :
    readLines (r ++ newline :: bs) = r :: readLines bs := by
  rw [readLines_append_newline h, stripReturn_eq_self hr]

/-- Everything up to a newline is read independently of what follows. -/
theorem readLinesFrom_append {line xs ys : Bytes} :
    readLinesFrom line (xs ++ newline :: ys) = readLinesFrom line (xs ++ [newline]) ++
      readLines ys := by
  induction xs generalizing line with
  | nil => simp [readLinesFrom, readLines]
  | cons b xs ih =>
    simp only [List.cons_append, readLinesFrom]
    split
    · rw [ih, List.cons_append]
    · exact ih

theorem readLines_append (xs ys : Bytes) :
    readLines (xs ++ newline :: ys) = readLines (xs ++ [newline]) ++ readLines ys :=
  readLinesFrom_append

theorem readLinesFrom_of_notMem {t : Bytes} (h : newline ∉ t) (line : Bytes) :
    readLinesFrom line t = if (line ++ t).isEmpty then [] else [line ++ t] := by
  induction t generalizing line with
  | nil => simp [readLinesFrom]
  | cons b t ih =>
    obtain ⟨hb, ht⟩ := not_or.mp (mt List.mem_cons.mpr h)
    rw [readLinesFrom, if_neg (Ne.symm hb), ih ht, List.append_assoc]
    rfl

theorem readLines_of_notMem {t : Bytes} (h : newline ∉ t) :
    readLines t = if t.isEmpty then [] else [t] :=
  readLinesFrom_of_notMem h []

/-! ## Texts -/

/-- The bytes are valid UTF-8. -/
def IsText (bs : Bytes) : Prop := ∃ cs, bs = utf8 cs

theorem IsText.append {xs ys : Bytes} (hx : IsText xs) (hy : IsText ys) : IsText (xs ++ ys) := by
  obtain ⟨cs, rfl⟩ := hx
  obtain ⟨ds, rfl⟩ := hy
  exact ⟨cs ++ ds, (utf8_append cs ds).symm⟩

theorem exists_stripReturn_utf8 (cs : List Char) :
    ∃ ds, ds <+: cs ∧ stripReturn (utf8 cs) = utf8 ds := by
  unfold stripReturn
  split
  · next hlast =>
    rcases List.eq_nil_or_concat cs with rfl | ⟨ds, d, rfl⟩
    · cases hlast
    · -- the carriage return is the last character
      have hd : d = '\r' := by
        have hmem : carriageReturn ∈ String.utf8EncodeChar d := by
          rw [List.concat_eq_append, utf8_append, utf8, utf8, List.flatMap_singleton] at hlast
          rw [List.getLast?_append_of_ne_nil _ (by simp)] at hlast
          exact List.mem_of_getLast? hlast
        exact Char.toNat_inj.mp (toNat_of_mem_utf8EncodeChar (by decide) hmem)
      subst hd
      rw [List.concat_eq_append, utf8_append]
      exact ⟨ds, List.prefix_append .., List.dropLast_concat⟩
  · exact ⟨cs, List.prefix_refl cs, rfl⟩

theorem IsText.stripReturn {line : Bytes} (h : IsText line) : IsText (stripReturn line) := by
  obtain ⟨cs, rfl⟩ := h
  obtain ⟨ds, -, heq⟩ := exists_stripReturn_utf8 cs
  exact ⟨ds, heq⟩

theorem readLinesFrom_append_of_notMem {r : Bytes} (h : newline ∉ r) (line bs : Bytes) :
    readLinesFrom line (r ++ bs) = readLinesFrom (line ++ r) bs := by
  induction r generalizing line with
  | nil => simp
  | cons b r ih =>
    obtain ⟨hb, hr⟩ := not_or.mp (mt List.mem_cons.mpr h)
    rw [List.cons_append, readLinesFrom, if_neg (Ne.symm hb), ih hr, List.append_assoc]
    rfl

theorem isText_of_mem_readLinesFrom {line bs : Bytes} (hline : IsText line) (hbs : IsText bs) :
    ∀ l ∈ readLinesFrom line bs, IsText l := by
  obtain ⟨cs, rfl⟩ := hbs
  induction cs generalizing line with
  | nil =>
    intro l hl
    rw [utf8_nil, readLinesFrom] at hl
    split at hl
    · cases hl
    · rwa [List.mem_singleton.mp hl]
  | cons c cs ih =>
    intro l hl
    have hcons : utf8 (c :: cs) = String.utf8EncodeChar c ++ utf8 cs := rfl
    by_cases hc : c = '\n'
    · subst hc
      have hstep : readLinesFrom line (utf8 ('\n' :: cs)) =
          Lib.stripReturn line :: readLinesFrom [] (utf8 cs) := rfl
      rcases List.mem_cons.mp (hstep ▸ hl) with rfl | hl
      · exact hline.stripReturn
      · exact ih ⟨[], rfl⟩ l hl
    · have hnot : newline ∉ String.utf8EncodeChar c := fun h =>
        hc (Char.toNat_inj.mp (toNat_of_mem_utf8EncodeChar (by decide) h))
      rw [hcons, readLinesFrom_append_of_notMem hnot] at hl
      exact ih (hline.append ⟨[c], (List.flatMap_singleton ..).symm⟩) l hl

theorem IsText.of_mem_readLines {bs l : Bytes} (h : IsText bs) (hl : l ∈ readLines bs) : IsText l :=
  isText_of_mem_readLinesFrom ⟨[], rfl⟩ h l hl

theorem isText_of_stripReturn {line : Bytes} (h : IsText (stripReturn line)) : IsText line := by
  unfold Lib.stripReturn at h
  split at h
  · next hlast =>
    obtain ⟨xs, rfl⟩ := List.getLast?_eq_some_iff.mp hlast
    rw [List.dropLast_concat] at h
    exact h.append ⟨['\r'], rfl⟩
  · exact h

theorem isText_of_readLinesFrom {line bs : Bytes} (h : ∀ l ∈ readLinesFrom line bs, IsText l) :
    IsText (line ++ bs) := by
  induction bs generalizing line with
  | nil =>
    cases line with
    | nil => exact ⟨[], rfl⟩
    | cons b line => simpa using h (b :: line) (by simp [readLinesFrom])
  | cons b bs ih =>
    rw [readLinesFrom] at h
    split at h
    · next hb =>
      subst hb
      have hline := isText_of_stripReturn (h _ List.mem_cons_self)
      have hrest := ih fun l hl => h l (List.mem_cons_of_mem _ hl)
      exact hline.append (.append ⟨['\n'], rfl⟩ hrest)
    · have := ih h
      rwa [List.append_assoc] at this

/-- A file is a text exactly if all its lines are. -/
theorem isText_iff_lines {bs : Bytes} : IsText bs ↔ ∀ l ∈ readLines bs, IsText l :=
  ⟨fun h _ => h.of_mem_readLines, isText_of_readLinesFrom⟩

/-! ## The last line -/

/-- Nothing, or something that ends with a newline. -/
def Terminated (bs : Bytes) : Prop := bs = [] ∨ ∃ xs, bs = xs ++ [newline]

/-- What follows the last newline. -/
def unterminated (bs : Bytes) : Bytes := (bs.reverse.takeWhile fun b => b != newline).reverse

theorem readLines_append_of_terminated {xs : Bytes} (h : Terminated xs) (ys : Bytes) :
    readLines (xs ++ ys) = readLines xs ++ readLines ys := by
  obtain rfl | ⟨xs, rfl⟩ := h
  · rfl
  · rw [List.append_assoc, List.singleton_append, readLines_append]

theorem unterminated_append {xs ys : Bytes} (hx : Terminated xs) (hy : newline ∉ ys) :
    unterminated (xs ++ ys) = ys := by
  have hall : ∀ b ∈ ys.reverse, (b != newline) = true := by
    intro b hb
    rw [bne_iff_ne]
    rintro rfl
    exact hy (List.mem_reverse.mp hb)
  rw [unterminated, List.reverse_append, List.takeWhile_append_of_pos hall]
  obtain rfl | ⟨xs, rfl⟩ := hx
  · simp
  · simp

/-- A text is whole lines followed by an unterminated one. -/
theorem IsText.exists_terminated {bs : Bytes} (h : IsText bs) : ∃ ls cs, bs = ls ++ utf8 cs ∧
    Terminated ls ∧ IsText ls ∧ newline ∉ utf8 cs ∧ unterminated bs = utf8 cs := by
  obtain ⟨cs, rfl⟩ := h
  suffices hsplit : ∃ ls ds, utf8 cs = ls ++ utf8 ds ∧ Terminated ls ∧ IsText ls ∧
      newline ∉ utf8 ds by
    obtain ⟨ls, ds, heq, hls, htext, hds⟩ := hsplit
    exact ⟨ls, ds, heq, hls, htext, hds, heq ▸ unterminated_append hls hds⟩
  induction cs using List.reverseRecOn with
  | nil => exact ⟨[], [], rfl, .inl rfl, ⟨[], rfl⟩, by simp⟩
  | append_singleton cs c ih =>
    by_cases hc : c = '\n'
    · subst hc
      exact ⟨utf8 (cs ++ ['\n']), [], by simp, .inr ⟨utf8 cs, utf8_append ..⟩, ⟨_, rfl⟩, by simp⟩
    · obtain ⟨ls, ds, heq, hls, htext, hds⟩ := ih
      refine ⟨ls, ds ++ [c], by rw [utf8_append, utf8_append, heq, List.append_assoc],
        hls, htext, ?_⟩
      rw [utf8_append, List.mem_append, not_or]
      exact ⟨hds, newline_notMem_utf8 (by simpa using Ne.symm hc)⟩

end AgentBus.Lib
