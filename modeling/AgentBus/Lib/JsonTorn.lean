import AgentBus.Lib.JsonText
import Mathlib.Data.List.DropRight
import Mathlib.Data.List.Infix

/-!
# Torn JSON objects

A scanner reads a document code by code and keeps the nesting depth and
whether it is inside a string. An object that is parsed is scanned to its end
(`run_of_parse`); the beginning of a printed object, continued by the
beginnings of others, never is (`runBytes_pieces`), nor is a whole object
that comes after anything but blanks (`parse_runOn`).
-/

namespace AgentBus.Lib.JsonText

/-! ## The scanner -/

inductive Scan where
  /-- Outside strings, inside `depth + 1` brackets. -/
  | out (depth : Nat)
  | str (depth : Nat)
  /-- After a backslash in a string. -/
  | esc (depth : Nat)
  /-- After a string, before the next token. -/
  | closed (depth : Nat)
  /-- After the last bracket. -/
  | done
  | dead

namespace Scan

def close : Nat → Scan
  | 0 => done
  | depth + 1 => out depth

def outStep (depth code : Nat) : Scan :=
  if code = '"'.toNat then str depth
  else if code = '{'.toNat ∨ code = '['.toNat then out (depth + 1)
  else if code = '}'.toNat ∨ code = ']'.toNat then close depth
  else out depth

def isBlankCode (code : Nat) : Bool :=
  code == ' '.toNat || code == '\t'.toNat || code == '\r'.toNat || code == '\n'.toNat

/-- What may come after a string. -/
def isAfterString (code : Nat) : Bool :=
  code == ','.toNat || code == ':'.toNat || code == '}'.toNat || code == ']'.toNat

def step : Scan → Nat → Scan
  | out depth, code => outStep depth code
  | str depth, code =>
    if code = '"'.toNat then closed depth else if code = '\\'.toNat then esc depth else str depth
  | esc depth, _ => str depth
  | closed depth, code =>
    if isBlankCode code then closed depth
    else if isAfterString code then outStep depth code
    else dead
  | done, code => if isBlankCode code then done else dead
  | dead, _ => dead

def run (s : Scan) (cs : List Char) : Scan := cs.foldl (fun s c => s.step c.toNat) s

def runBytes (s : Scan) (bs : Bytes) : Scan := bs.foldl (fun s b => s.step b.toNat) s

@[simp] theorem run_nil (s : Scan) : s.run [] = s := rfl

@[simp] theorem run_cons (s : Scan) (c : Char) (cs : List Char) :
    s.run (c :: cs) = (s.step c.toNat).run cs := rfl

theorem run_append (s : Scan) (cs ds : List Char) : s.run (cs ++ ds) = (s.run cs).run ds :=
  List.foldl_append

theorem runBytes_append (s : Scan) (bs cs : Bytes) :
    s.runBytes (bs ++ cs) = (s.runBytes bs).runBytes cs := List.foldl_append

/-! ## Bytes and characters -/

/-- No byte of a character outside ASCII means anything to the scanner. -/
theorem step_step_of_le {x y : Nat} (hx : 128 ≤ x) (hy : 128 ≤ y) (s : Scan) :
    (s.step x).step y = s.step x ∧ s.step y = s.step x := by
  have hout : ∀ d z, 128 ≤ z → outStep d z = out d := fun d z hz => by
    unfold outStep
    rw [if_neg (by simp; omega), if_neg (by simp; omega), if_neg (by simp; omega)]
  have hblank : ∀ z, 128 ≤ z → isBlankCode z = false := fun z hz => by simp [isBlankCode]; omega
  have hafter : ∀ z, 128 ≤ z → isAfterString z = false := fun z hz => by simp [isAfterString]; omega
  have hstr : ∀ d z, 128 ≤ z → (str d).step z = str d := fun d z hz => by
    rw [step, if_neg (by simp; omega), if_neg (by simp; omega)]
  cases s with
  | out d => simp only [step, hout d x hx, hout d y hy, and_self]
  | str d => simp only [hstr d x hx, hstr d y hy, and_self]
  | esc d => exact ⟨hstr d y hy, rfl⟩
  | closed d => simp [step, hblank, hafter, hx, hy]
  | done => simp [step, hblank, hx, hy]
  | dead => exact ⟨rfl, rfl⟩

theorem runBytes_of_le {bs : Bytes} {x : Nat} (hx : 128 ≤ x) (hbs : ∀ b ∈ bs, 128 ≤ b.toNat)
    (hne : bs ≠ []) (s : Scan) : s.runBytes bs = s.step x := by
  cases bs with
  | nil => exact absurd rfl hne
  | cons b bs =>
    have hb := hbs b List.mem_cons_self
    show (s.step b.toNat).runBytes bs = s.step x
    rw [(step_step_of_le hx hb s).2]
    replace hbs := fun b' hb' => hbs b' (List.mem_cons_of_mem _ hb')
    clear hne hb
    induction bs with
    | nil => rfl
    | cons b bs ih =>
      show ((s.step x).step b.toNat).runBytes bs = s.step x
      rw [(step_step_of_le hx (hbs b List.mem_cons_self) s).1]
      exact ih fun b' hb' => hbs b' (List.mem_cons_of_mem _ hb')

theorem runBytes_utf8EncodeChar (s : Scan) (c : Char) :
    s.runBytes (String.utf8EncodeChar c) = s.step c.toNat := by
  by_cases hc : c.toNat < 128
  · rw [utf8EncodeChar_of_lt hc]
    show s.step (UInt8.ofNat c.toNat).toNat = s.step c.toNat
    rw [UInt8.toNat_ofNat_of_lt' (by show c.toNat < 256; omega)]
  · refine runBytes_of_le (Nat.le_of_not_lt hc) (fun b hb => ?_) (fun h => ?_) s
    · by_contra hlt
      exact hc (by have := toNat_of_mem_utf8EncodeChar (Nat.lt_of_not_le hlt) hb; omega)
    · have := String.length_utf8EncodeChar c
      rw [h] at this
      have := Char.utf8Size_pos c
      simp_all

theorem runBytes_utf8 (s : Scan) (cs : List Char) : s.runBytes (utf8 cs) = s.run cs := by
  induction cs generalizing s with
  | nil => rfl
  | cons c cs ih =>
    show s.runBytes (String.utf8EncodeChar c ++ utf8 cs) = _
    rw [runBytes_append, runBytes_utf8EncodeChar, ih]
    rfl

theorem runBytes_of_ended {s : Scan} (h : s = done ∨ s = dead) (bs : Bytes) :
    s.runBytes bs = done ∨ s.runBytes bs = dead := by
  induction bs generalizing s with
  | nil => exact h
  | cons b bs ih =>
    refine ih ?_
    rcases h with rfl | rfl
    · by_cases hb : isBlankCode b.toNat = true
      · exact .inl (by show (if _ then _ else _) = _; rw [if_pos hb])
      · exact .inr (by show (if _ then _ else _) = _; rw [if_neg hb])
    · exact .inr rfl

/-! ## Scanning what is printed -/

/-- A value has been read inside `depth + 1` brackets. -/
def Settled (depth : Nat) (s : Scan) : Prop := s = out depth ∨ s = closed depth

theorem step_blank {s : Scan} {depth : Nat} (h : Settled depth s) {c : Char}
    (hc : Json.isBlank c = true) : s.step c.toNat = s := by
  simp only [Json.isBlank, Bool.or_eq_true, beq_iff_eq] at hc
  rcases h with rfl | rfl <;> rcases hc with ((rfl | rfl) | rfl) | rfl <;> rfl

theorem run_skipBlank {s : Scan} {depth : Nat} (h : Settled depth s) (cs : List Char) :
    s.run (skipBlank cs) = s.run cs := by
  induction cs with
  | nil => rfl
  | cons c cs ih =>
    by_cases hc : Json.isBlank c = true
    · rw [skipBlank, List.dropWhile_cons_of_pos hc, run_cons, step_blank h hc]
      exact ih
    · rw [skipBlank, List.dropWhile_cons_of_neg hc]

theorem Settled.step {s : Scan} {depth : Nat} (h : Settled depth s) {c : Char}
    (hc : c = ',' ∨ c = ':' ∨ c = '}' ∨ c = ']') : s.step c.toNat = outStep depth c.toNat := by
  rcases h with rfl | rfl
  · rfl
  · rcases hc with rfl | rfl | rfl | rfl <;> rfl

theorem run_str_escapeChar (depth : Nat) (c : Char) :
    (str depth).run (escapeChar c) = str depth := by
  have hplain : ∀ n < 16, ¬ (hexDigit n).toNat = '"'.toNat ∧ ¬ (hexDigit n).toNat = '\\'.toNat := by
    decide
  have hhex : ∀ n < 16, (str depth).step (hexDigit n).toNat = str depth := fun n hn => by
    rw [step, if_neg (hplain n hn).1, if_neg (hplain n hn).2]
  unfold escapeChar
  iterate 7
    split
    · rfl
  split
  · show ((str depth).step (hexDigit (c.toNat / 16)).toNat).step (hexDigit (c.toNat % 16)).toNat =
      str depth
    rw [hhex _ (by omega), hhex _ (by omega)]
  · next hq hb _ _ _ _ _ _ =>
    have hq : ¬ c.toNat = '"'.toNat := fun h => hq (Char.toNat_inj.mp h)
    have hb : ¬ c.toNat = '\\'.toNat := fun h => hb (Char.toNat_inj.mp h)
    rw [run_cons, run_nil, step, if_neg hq, if_neg hb]

theorem run_str_flatMap (depth : Nat) (cs : List Char) :
    (str depth).run (cs.flatMap escapeChar) = str depth := by
  induction cs with
  | nil => rfl
  | cons c cs ih => rw [List.flatMap_cons, run_append, run_str_escapeChar, ih]

theorem run_printString (depth : Nat) (s : String) :
    (out depth).run (printString s) = closed depth := by
  show (str depth).run (s.toList.flatMap escapeChar ++ ['"']) = closed depth
  rw [run_append, run_str_flatMap]
  rfl

theorem run_printElems (depth : Nat) : ∀ xs : List Json,
    (∀ x ∈ xs, Settled depth ((out depth).run (print x))) →
      Settled depth ((out depth).run (printElems xs))
  | [], _ => .inl rfl
  | [x], h => h x List.mem_cons_self
  | x :: y :: xs, h => by
    rw [printElems, run_append, run_cons, (h x List.mem_cons_self).step (.inl rfl)]
    exact run_printElems depth (y :: xs) fun z hz => h z (List.mem_cons_of_mem _ hz)

theorem run_printMembers (depth : Nat) : ∀ ms : List (String × Json),
    (∀ m ∈ ms, Settled depth ((out depth).run (print m.2))) →
      Settled depth ((out depth).run (printMembers ms))
  | [], _ => .inl rfl
  | [(k, v)], h => by
    rw [printMembers, run_append, run_printString, run_cons]
    exact h (k, v) List.mem_cons_self
  | (k, v) :: m :: ms, h => by
    rw [printMembers, run_append, run_printString, run_cons, run_append]
    show Settled depth (Scan.run ((out depth).run (print v)) _)
    rw [run_cons, (h (k, v) List.mem_cons_self).step (.inl rfl)]
    exact run_printMembers depth (m :: ms) fun z hz => h z (List.mem_cons_of_mem _ hz)

theorem run_print {d : Nat} {j : Json} (h : j.Plain d) (depth : Nat) :
    Settled depth ((out depth).run (print j)) := by
  induction h generalizing depth with
  | null => exact .inl rfl
  | bool b => cases b <;> exact .inl rfl
  | string s => exact .inr (run_printString depth s)
  | array _ ih =>
    rw [print, run_cons, run_append]
    have := run_printElems (depth + 1) _ fun x hx => ih x hx (depth + 1)
    exact .inl (this.step (c := ']') (by simp))
  | object _ ih =>
    rw [print, run_cons, run_append]
    have := run_printMembers (depth + 1) _ fun m hm => ih m hm (depth + 1)
    exact .inl (this.step (c := '}') (by simp))

/-! ## Scanning what is parsed -/

theorem step_of_hexVal {depth n : Nat} {c : Char} (h : hexVal c = some n) :
    (str depth).step c.toNat = str depth := by
  have hq : ¬ c.toNat = '"'.toNat := fun he => by
    rw [Char.toNat_inj.mp he] at h
    cases h
  have hb : ¬ c.toNat = '\\'.toNat := fun he => by
    rw [Char.toNat_inj.mp he] at h
    cases h
  rw [step, if_neg hq, if_neg hb]

theorem run_of_hex4 {depth n : Nat} {a b c d : Char} (h : hex4 a b c d = some n) (cs : List Char) :
    (str depth).run ('\\' :: 'u' :: a :: b :: c :: d :: cs) = (str depth).run cs := by
  simp only [hex4, Option.bind_eq_bind, Option.bind_eq_some_iff] at h
  obtain ⟨w, ha, x, hb, y, hc, z, hd, -⟩ := h
  show (((((str depth).step a.toNat).step b.toNat).step c.toNat).step d.toNat).run cs = _
  rw [step_of_hexVal ha, step_of_hexVal hb, step_of_hexVal hc, step_of_hexVal hd]

theorem run_stringBody {depth : Nat} {cs : List Char} {r : List Char × List Char}
    (h : stringBody cs = some r) : (str depth).run cs = (closed depth).run r.2 := by
  fun_induction stringBody cs generalizing r with
  | case1 | case3 | case4 | case6 | case7 | case8 | case10 | case12 => cases h
  | case2 => cases h; rfl
  | case5 a b c d n hex _ a' b' c' d' cs m hex' _ ih =>
    obtain ⟨q, hq, rfl⟩ := Option.map_eq_some_iff.mp h
    rw [run_of_hex4 hex, run_of_hex4 hex', ih hq]
  | case9 a b c d cs n hex _ _ ih =>
    obtain ⟨q, hq, rfl⟩ := Option.map_eq_some_iff.mp h
    rw [run_of_hex4 hex, ih hq]
  | case11 c cs _ e _ ih =>
    obtain ⟨q, hq, rfl⟩ := Option.map_eq_some_iff.mp h
    show (str depth).run cs = (closed depth).run q.2
    exact ih hq
  | case13 c cs hquote _ hback _ ih =>
    obtain ⟨q, hq, rfl⟩ := Option.map_eq_some_iff.mp h
    have hc : c ≠ '\\' := fun hc => by
      cases cs with
      | nil => cases hq
      | cons d ds => exact hback d ds hc rfl
    have hquote : ¬ c.toNat = '"'.toNat := fun he => hquote (Char.toNat_inj.mp he)
    have hc : ¬ c.toNat = '\\'.toNat := fun he => hc (Char.toNat_inj.mp he)
    rw [run_cons, step, if_neg hquote, if_neg hc, ih hq]

/-- The value parsed in front of `rest` is scanned as one value. -/
def Scans (value : List Char → Option (Json × List Char)) : Prop :=
  ∀ cs v rest, value cs = some (v, rest) → ∀ depth, ∃ s, Settled depth s ∧
    (out depth).run cs = s.run rest

theorem Settled.run {s : Scan} {depth : Nat} (h : Settled depth s) {c : Char} {cs ds : List Char}
    (hskip : skipBlank cs = c :: ds) (hc : c = ',' ∨ c = ':' ∨ c = '}' ∨ c = ']') :
    s.run cs = (outStep depth c.toNat).run ds := by
  rw [← run_skipBlank h, hskip, run_cons, h.step hc]

theorem run_parseElems {value : List Char → Option (Json × List Char)} (hv : Scans value)
    (depth : Nat) :
    ∀ {fuel : Nat} {cs : List Char} {r : List Json × List Char},
      parseElems value fuel cs = some r → (out depth).run cs = (close depth).run r.2
  | 0, _, _, h => by cases h
  | fuel + 1, cs, r, h => by
    rw [parseElems] at h
    obtain ⟨⟨v, rest⟩, hvalue, h⟩ := Option.bind_eq_some_iff.mp h
    obtain ⟨s, hs, hrun⟩ := hv _ _ _ hvalue depth
    rw [hrun]
    split at h
    · next ds hskip =>
      obtain ⟨q, hq, rfl⟩ := Option.map_eq_some_iff.mp h
      rw [hs.run hskip (.inl rfl)]
      show (out depth).run ds = (close depth).run q.2
      exact run_parseElems hv depth hq
    · next ds hskip =>
      cases h
      exact hs.run hskip (.inr (.inr (.inr rfl)))
    · cases h

theorem run_parseMember {value : List Char → Option (Json × List Char)} (hv : Scans value)
    {cs : List Char} {r : (String × Json) × List Char} (h : parseMember value cs = some r)
    (depth : Nat) : ∃ s, Settled depth s ∧ (out depth).run cs = s.run r.2 := by
  rw [parseMember] at h
  split at h
  · next ds hskip =>
    obtain ⟨k, hk, h⟩ := Option.bind_eq_some_iff.mp h
    split at h
    · next es hskip' =>
      obtain ⟨q, hq, rfl⟩ := Option.map_eq_some_iff.mp h
      rw [← run_skipBlank (.inl rfl), hskip]
      show ∃ s, Settled depth s ∧ (str depth).run ds = _
      rw [run_stringBody hk, Settled.run (.inr rfl) hskip' (.inr (.inl rfl))]
      exact hv _ _ _ hq depth
    · cases h
  · cases h

theorem run_parseMembers {value : List Char → Option (Json × List Char)} (hv : Scans value)
    (depth : Nat) :
    ∀ {fuel : Nat} {cs : List Char} {r : List (String × Json) × List Char},
      parseMembers value fuel cs = some r → (out depth).run cs = (close depth).run r.2
  | 0, _, _, h => by cases h
  | fuel + 1, cs, r, h => by
    rw [parseMembers] at h
    obtain ⟨⟨m, rest⟩, hmember, h⟩ := Option.bind_eq_some_iff.mp h
    obtain ⟨s, hs, hrun⟩ := run_parseMember hv hmember depth
    rw [hrun]
    split at h
    · next ds hskip =>
      obtain ⟨q, hq, rfl⟩ := Option.map_eq_some_iff.mp h
      rw [hs.run hskip (.inl rfl)]
      show (out depth).run ds = (close depth).run q.2
      exact run_parseMembers hv depth hq
    · next ds hskip =>
      cases h
      exact hs.run hskip (.inr (.inr (.inl rfl)))
    · cases h

theorem run_object {depth : Nat} (hv : Scans (parseValue depth)) {cs : List Char}
    {r : Json × List Char} (h : parseValue (depth + 1) ('{' :: cs) = some r) (d : Nat) :
    (out d).run cs = (close d).run r.2 := by
  rw [parseValue, skipBlank_of_head (by decide)] at h
  simp only at h
  split at h
  · cases h
  · rw [← run_skipBlank (.inl rfl)]
    split at h
    · next ds hskip =>
      cases h
      rw [hskip]
      rfl
    · next ds hne =>
      obtain ⟨q, hq, rfl⟩ := Option.map_eq_some_iff.mp h
      exact run_parseMembers hv d hq

theorem run_array {depth : Nat} (hv : Scans (parseValue depth)) {cs : List Char}
    {r : Json × List Char} (h : parseValue (depth + 1) ('[' :: cs) = some r) (d : Nat) :
    (out d).run cs = (close d).run r.2 := by
  rw [parseValue, skipBlank_of_head (by decide)] at h
  simp only at h
  split at h
  · cases h
  · rw [← run_skipBlank (.inl rfl)]
    split at h
    · next ds hskip =>
      cases h
      rw [hskip]
      rfl
    · next ds hne =>
      obtain ⟨q, hq, rfl⟩ := Option.map_eq_some_iff.mp h
      exact run_parseElems hv d hq

theorem step_isNumberChar {c : Char} (hc : isNumberChar c = true) (depth : Nat) :
    (out depth).step c.toNat = out depth := by
  have hne : ∀ d, isNumberChar d = false → ¬ c.toNat = d.toNat := fun d hd he => by
    rw [Char.toNat_inj.mp he, hd] at hc
    cases hc
  rw [step, outStep, if_neg (hne _ (by decide)),
    if_neg (not_or.mpr ⟨hne _ (by decide), hne _ (by decide)⟩),
    if_neg (not_or.mpr ⟨hne _ (by decide), hne _ (by decide)⟩)]

theorem run_isNumberChar (depth : Nat) (cs : List Char) :
    (out depth).run cs = (out depth).run (cs.dropWhile isNumberChar) := by
  induction cs with
  | nil => rfl
  | cons c cs ih =>
    by_cases hc : isNumberChar c = true
    · rw [List.dropWhile_cons_of_pos hc, run_cons, step_isNumberChar hc, ih]
    · rw [List.dropWhile_cons_of_neg hc]

theorem scans_parseValue : ∀ depth, Scans (parseValue depth)
  | 0 => fun cs v rest h d => by cases h
  | depth + 1 => fun cs v rest h d => by
    have ih := scans_parseValue depth
    rw [← run_skipBlank (.inl rfl)]
    have hskip : parseValue (depth + 1) (skipBlank cs) = some (v, rest) := by
      rw [← h, parseValue, parseValue, skipBlank, skipBlank, List.dropWhile_idempotent]
    rw [parseValue] at h
    split at h
    · next ds hcs =>
      rw [hcs] at hskip ⊢
      exact ⟨_, .inl rfl, run_array ih hskip (d + 1)⟩
    · next ds hcs =>
      rw [hcs] at hskip ⊢
      exact ⟨_, .inl rfl, run_object ih hskip (d + 1)⟩
    · next ds hcs =>
      obtain ⟨q, hq, heq⟩ := Option.map_eq_some_iff.mp h
      cases heq
      rw [hcs]
      exact ⟨_, .inr rfl, run_stringBody hq⟩
    · next ds hcs => cases h; rw [hcs]; exact ⟨_, .inl rfl, rfl⟩
    · next ds hcs => cases h; rw [hcs]; exact ⟨_, .inl rfl, rfl⟩
    · next ds hcs => cases h; rw [hcs]; exact ⟨_, .inl rfl, rfl⟩
    · simp only at h
      split at h
      · cases h
        exact ⟨_, .inl rfl, run_isNumberChar d _⟩
      · cases h

theorem run_done_of_blank {cs : List Char} (h : skipBlank cs = []) : done.run cs = done := by
  induction cs with
  | nil => rfl
  | cons c cs ih =>
    have hall := List.dropWhile_eq_nil_iff.mp h
    have hc := hall c List.mem_cons_self
    simp only [Json.isBlank, Bool.or_eq_true, beq_iff_eq] at hc
    have hstep : done.step c.toNat = done := by
      rcases hc with ((rfl | rfl) | rfl) | rfl <;> rfl
    rw [run_cons, hstep]
    exact ih (List.dropWhile_eq_nil_iff.mpr fun d hd => hall d (List.mem_cons_of_mem _ hd))

/-- **An object that parses is scanned to its end.** -/
theorem run_of_parse {cs : List Char} {j : Json} (h : parse ('{' :: cs) = some j) :
    (out 0).run cs = done := by
  obtain ⟨⟨v, rest⟩, hvalue, h⟩ := Option.bind_eq_some_iff.mp h
  rw [run_object (scans_parseValue 127) hvalue 0]
  split at h
  · next hrest =>
    exact run_done_of_blank hrest
  · cases h

/-! ## Torn pieces -/

/-- The beginnings of what is scanned as one value never end the scan. -/
theorem runBytes_prefix_ne_done {s : Scan} {depth : Nat} {bs cs : Bytes}
    (h : Settled depth (s.runBytes cs)) (hbs : bs <+: cs) : s.runBytes bs ≠ done := by
  obtain ⟨ds, rfl⟩ := hbs
  intro hdone
  rw [runBytes_append, hdone] at h
  rcases runBytes_of_ended (.inl rfl) ds with hend | hend <;> rw [hend] at h <;>
    rcases h with h | h <;> cases h

theorem runBytes_dead (bs : Bytes) : dead.runBytes bs = dead := by
  induction bs with
  | nil => rfl
  | cons b bs ih => exact ih

theorem print_named {j : Json} (h : j.Named) : ∃ (c : Char) (cs : List Char), c.isAlpha = true ∧
    print j = '{' :: ('"' :: c :: cs ++ ['}']) ∧
    ∀ depth, Settled depth ((out depth).run ('"' :: c :: cs)) := by
  obtain ⟨hc, hplain⟩ := h
  rename_i c key v ms
  have hmembers : ∀ depth, Settled depth ((out depth).run
      (printMembers ((String.ofList (c :: key), v) :: ms))) := fun depth => by
    cases hplain with
    | object hms => exact run_printMembers depth _ fun m hm => run_print (hms m hm) depth
  have hkey : printString (String.ofList (c :: key)) =
      '"' :: c :: (key.flatMap escapeChar ++ ['"']) := by
    rw [printString, String.toList_ofList, List.flatMap_cons, escapeChar_of_letter (.inl hc)]
    rfl
  have hhead : ∃ cs, printMembers ((String.ofList (c :: key), v) :: ms) = '"' :: c :: cs := by
    cases ms <;> rw [printMembers, hkey] <;> exact ⟨_, rfl⟩
  obtain ⟨cs, hcs⟩ := hhead
  exact ⟨c, cs, hc, by rw [print, hcs], fun depth => hcs ▸ hmembers depth⟩

theorem utf8_named {j : Json} (h : j.Named) : ∃ (c : Char) (cs : List Char), c.isAlpha = true ∧
    utf8 (print j) = 123 :: (utf8 ('"' :: c :: cs) ++ [125]) ∧
    ∀ depth, Settled depth ((out depth).runBytes (utf8 ('"' :: c :: cs))) := by
  obtain ⟨c, cs, hc, hprint, hscan⟩ := print_named h
  refine ⟨c, cs, hc, ?_, fun depth => by rw [runBytes_utf8]; exact hscan depth⟩
  rw [hprint, show '{' :: ('"' :: c :: cs ++ ['}']) = ['{'] ++ ('"' :: c :: cs) ++ ['}'] from rfl,
    utf8_append, utf8_append]
  rfl

/-- After the opening brace, only the closing brace ends the object. -/
theorem runBytes_of_prefix_concat {depth : Nat} {bs inner : Bytes}
    (hscan : Settled depth ((out depth).runBytes inner)) (h : bs <+: inner ++ [125]) :
    (out depth).runBytes bs ≠ done ∨ bs = inner ++ [125] ∧ (out depth).runBytes bs =
      close depth := by
  rcases List.prefix_concat_iff.mp h with rfl | h
  · refine .inr ⟨rfl, ?_⟩
    rw [runBytes_append]
    exact hscan.step (c := '}') (by simp)
  · exact .inl (runBytes_prefix_ne_done hscan h)

theorem step_closed_letter (depth : Nat) {c : Char} (hc : c.isAlpha = true) :
    (closed depth).step c.toNat = dead := by
  have hne : ∀ d : Char, d.isAlpha = false → c.toNat ≠ d.toNat := fun d hd he => by
    rw [Char.toNat_inj.mp he, hd] at hc
    cases hc
  rw [step, if_neg, if_neg]
  · simp only [isAfterString, Bool.or_eq_true, beq_iff_eq, not_or]
    exact ⟨⟨⟨hne _ rfl, hne _ rfl⟩, hne _ rfl⟩, hne _ rfl⟩
  · simp only [isBlankCode, Bool.or_eq_true, beq_iff_eq, not_or]
    exact ⟨⟨⟨hne _ rfl, hne _ rfl⟩, hne _ rfl⟩, hne _ rfl⟩

theorem runBytes_closed_letter {depth : Nat} {c : Char} (hc : c.isAlpha = true) (bs : Bytes) :
    (closed depth).runBytes (UInt8.ofNat c.toNat :: bs) = dead := by
  have hlt := (toNat_of_isAlpha hc).2
  have hbyte : (UInt8.ofNat c.toNat).toNat = c.toNat :=
    UInt8.toNat_ofNat_of_lt' (by show c.toNat < 256; omega)
  show Scan.runBytes ((closed depth).step (UInt8.ofNat c.toNat).toNat) bs = dead
  rw [hbyte, step_closed_letter depth hc, runBytes_dead]

theorem exists_cons_of_piece {bs : Bytes} (h : Json.Piece print bs) : ∃ bs', bs = 123 :: bs' := by
  obtain ⟨hne, j, hj, hbs⟩ := h
  obtain ⟨c, cs, -, htext, -⟩ := utf8_named hj
  rw [htext] at hbs
  rcases List.prefix_cons_iff.mp hbs with rfl | ⟨bs', rfl, -⟩
  · exact absurd rfl hne
  · exact ⟨bs', rfl⟩

/-- **A piece never ends a scan.** -/
theorem runBytes_piece {s : Scan} (hs : s ≠ done) {bs : Bytes} (h : Json.Piece print bs) :
    s.runBytes bs ≠ done := by
  obtain ⟨hne, j, hj, hbs⟩ := h
  obtain ⟨c, cs, hc, htext, hscan⟩ := utf8_named hj
  rw [htext] at hbs
  rcases List.prefix_cons_iff.mp hbs with rfl | ⟨bs, rfl, hinner⟩
  · exact absurd rfl hne
  -- a brace inside a string is text, and the quote after it ends the string
  have hstr : ∀ depth, (str depth).runBytes bs ≠ done := by
    intro depth
    clear hne hbs
    have hkey : utf8 ('"' :: c :: cs) = 34 :: UInt8.ofNat c.toNat :: utf8 cs := by
      show utf8 ['"'] ++ (String.utf8EncodeChar c ++ utf8 cs) = _
      rw [utf8EncodeChar_of_lt (toNat_of_isAlpha hc).2]
      rfl
    rw [hkey] at hinner
    rcases List.prefix_cons_iff.mp hinner with rfl | ⟨bs, rfl, hrest⟩
    · exact Scan.noConfusion
    rcases List.prefix_cons_iff.mp hrest with rfl | ⟨bs, rfl, -⟩
    · exact Scan.noConfusion
    show (closed depth).runBytes (UInt8.ofNat c.toNat :: bs) ≠ done
    rw [runBytes_closed_letter hc]
    exact Scan.noConfusion
  cases s with
  | out depth =>
    rcases runBytes_of_prefix_concat (hscan (depth + 1)) hinner with hne | ⟨-, heq⟩
    · exact hne
    · show (out (depth + 1)).runBytes bs ≠ done
      rw [heq]
      exact Scan.noConfusion
  | str depth => exact hstr depth
  | esc depth => exact hstr depth
  | closed depth | dead =>
    show dead.runBytes bs ≠ done
    rw [runBytes_dead]
    exact Scan.noConfusion
  | done => exact absurd rfl hs

theorem runBytes_pieces {s : Scan} (hs : s ≠ done) {pieces : List Bytes}
    (h : ∀ bs ∈ pieces, Json.Piece print bs) : s.runBytes pieces.flatten ≠ done := by
  induction pieces generalizing s with
  | nil => exact hs
  | cons bs pieces ih =>
    rw [List.flatten_cons, runBytes_append]
    exact ih (runBytes_piece hs (h bs List.mem_cons_self)) fun cs hcs =>
      h cs (List.mem_cons_of_mem _ hcs)

/-- A text that starts with a brace parses only if the bytes after it are scanned to their end. -/
theorem runBytes_of_parse {cs : List Char} {j : Json} {bs : Bytes} (hcs : utf8 cs = 123 :: bs)
    (h : parse cs = some j) : (out 0).runBytes bs = done := by
  cases cs with
  | nil => cases hcs
  | cons c cs =>
    have hbyte : (123 : UInt8) ∈ String.utf8EncodeChar c := by
      cases hc : String.utf8EncodeChar c with
      | nil =>
        have := c.utf8Size_pos
        rw [← String.length_utf8EncodeChar, hc] at this
        exact absurd this (Nat.lt_irrefl 0)
      | cons b bs' =>
        rw [utf8, List.flatMap_cons, hc] at hcs
        rw [(List.cons.inj hcs).1]
        exact List.mem_cons_self
    obtain rfl : c = '{' := Char.toNat_inj.mp (toNat_of_mem_utf8EncodeChar (by decide) hbyte)
    obtain rfl : utf8 cs = bs := (List.cons.inj hcs).2
    rw [runBytes_utf8]
    exact run_of_parse h

/-- **The beginning of an object does not parse, unless it is the whole.** -/
theorem parse_unfinished {j : Json} (hj : j.Named) {cs : List Char} (h : utf8 cs <+: utf8 (print j))
    (hne : cs ≠ print j) : parse cs = none := by
  obtain ⟨c, ds, -, htext, hscan⟩ := utf8_named hj
  rw [htext] at h
  rcases List.prefix_cons_iff.mp h with hnil | ⟨bs, hbs, hinner⟩
  · obtain rfl : cs = [] := utf8_injective hnil
    rfl
  · rcases runBytes_of_prefix_concat (hscan 0) hinner with hopen | ⟨rfl, -⟩
    · rw [Option.eq_none_iff_forall_ne_some]
      exact fun v hv => hopen (runBytes_of_parse hbs hv)
    · exact absurd (utf8_injective (hbs.trans htext.symm)) hne

/-- **A piece of an object does not parse with more pieces after it.** -/
theorem parse_spliced {bs : Bytes} {pieces : List Bytes} (hbs : Json.Piece print bs)
    (hpieces : ∀ bs ∈ pieces, Json.Piece print bs) (hne : pieces ≠ []) {cs : List Char}
    (h : utf8 cs = bs ++ pieces.flatten) : parse cs = none := by
  obtain ⟨bs, rfl⟩ := exists_cons_of_piece hbs
  rw [List.cons_append] at h
  rw [Option.eq_none_iff_forall_ne_some]
  intro v hv
  have hend := runBytes_of_parse h hv
  rw [runBytes_append] at hend
  by_cases hdone : (out 0).runBytes bs = done
  · -- the first object is complete, and the next piece starts another
    obtain ⟨p, ps, rfl⟩ := List.exists_cons_of_ne_nil hne
    obtain ⟨p, rfl⟩ := exists_cons_of_piece (hpieces p List.mem_cons_self)
    rw [hdone] at hend
    have : dead.runBytes (p ++ ps.flatten) = done := hend
    rw [runBytes_dead] at this
    cases this
  · exact runBytes_pieces hdone hpieces hend

/-! ## Run-on lines -/

theorem run_dead (cs : List Char) : dead.run cs = dead := by
  induction cs with
  | nil => rfl
  | cons c cs ih => exact ih

/-- Wherever a scan is, a named object does not end it. -/
theorem run_named {j : Json} (hj : j.Named) (s : Scan) :
    s.run (print j) = dead ∨ ∃ depth, s.run (print j) = out depth := by
  obtain ⟨c, cs, hc, hprint, hscan⟩ := print_named hj
  rw [hprint]
  have hstr : ∀ depth, (str depth).run ('"' :: c :: cs ++ ['}']) = dead := fun depth => by
    show ((closed depth).step c.toNat).run (cs ++ ['}']) = dead
    rw [step_closed_letter depth hc, run_dead]
  cases s with
  | out depth =>
    refine .inr ⟨depth, ?_⟩
    show (out (depth + 1)).run ('"' :: c :: cs ++ ['}']) = out depth
    rw [run_append]
    exact (hscan (depth + 1)).step (c := '}') (by simp)
  | str depth => exact .inl (hstr depth)
  | esc depth => exact .inl (hstr depth)
  | closed depth | done | dead => exact .inl (run_dead _)

theorem exists_split_blank {w : List Char} {c : Char} (hc : c ∈ w)
    (hblank : Json.isBlank c = false) :
    ∃ bs d ds, w = bs ++ d :: ds ∧ (∀ b ∈ bs, Json.isBlank b = true) ∧ Json.isBlank d = false := by
  cases hdrop : w.dropWhile Json.isBlank with
  | nil =>
    rw [List.dropWhile_eq_nil_iff.mp hdrop c hc] at hblank
    cases hblank
  | cons d ds =>
    have hd := List.head?_dropWhile_not Json.isBlank w
    rw [hdrop, List.head?_cons] at hd
    refine ⟨w.takeWhile Json.isBlank, d, ds, ?_,
      fun b hb => List.mem_takeWhile_imp hb, by simpa using hd⟩
    rw [← hdrop, List.takeWhile_append_dropWhile]

theorem brace_mem_print {j : Json} (hj : j.Named) : '{' ∈ print j := by
  obtain ⟨c, cs, -, hprint, -⟩ := print_named hj
  rw [hprint]
  exact List.mem_cons_self

/-- **Nothing but blanks may come before an object.** -/
theorem parse_runOn {j : Json} (hj : j.Named) {w : List Char} {c : Char} (hc : c ∈ w)
    (hblank : Json.isBlank c = false) : parse (w ++ print j) = none := by
  obtain ⟨bs, d, ds, rfl, hbs, hd⟩ : ∃ bs d ds, w = bs ++ d :: ds ∧
      (∀ b ∈ bs, Json.isBlank b = true) ∧ Json.isBlank d = false := exists_split_blank hc hblank
  rw [List.append_assoc, parse_blank_append hbs, List.cons_append,
    Option.eq_none_iff_forall_ne_some]
  intro v hv
  obtain ⟨⟨v, rest⟩, hvalue, hrest⟩ := Option.bind_eq_some_iff.mp hv
  have hrest : skipBlank rest = [] := by
    by_contra hne
    simp [hne] at hrest
  -- the brace of the object is not left over
  have hleft : ∀ xs, '{' ∉ xs → xs ++ rest ≠ d :: (ds ++ print j) := by
    intro xs hxs heq
    have hmem : '{' ∈ xs ++ rest := heq ▸ List.mem_cons_of_mem _
      (List.mem_append_right _ (brace_mem_print hj))
    rcases List.mem_append.mp hmem with hmem | hmem
    · exact hxs hmem
    · exact absurd (List.dropWhile_eq_nil_iff.mp hrest _ hmem) (by decide)
  -- and it does not end an array, an object or a string
  have hopen : ∀ s : Scan, s.run (ds ++ print j) ≠ done ∧ s.run (ds ++ print j) ≠ closed 0 := by
    intro s
    rw [run_append]
    rcases run_named hj (s.run ds) with h | ⟨depth, h⟩ <;> rw [h] <;> exact ⟨nofun, nofun⟩
  have hvalue' := hvalue
  rw [parseValue, skipBlank_of_head hd] at hvalue
  split at hvalue
  · next es heq =>
    obtain ⟨rfl, rfl⟩ := List.cons.inj heq
    refine (hopen (out 0)).1 ?_
    rw [run_array (scans_parseValue 127) hvalue' 0]
    exact run_done_of_blank hrest
  · next es heq =>
    obtain ⟨rfl, rfl⟩ := List.cons.inj heq
    refine (hopen (out 0)).1 ?_
    rw [run_object (scans_parseValue 127) hvalue' 0]
    exact run_done_of_blank hrest
  · next es heq =>
    obtain ⟨rfl, rfl⟩ := List.cons.inj heq
    obtain ⟨q, hq, heq⟩ := Option.map_eq_some_iff.mp hvalue
    obtain ⟨-, rfl⟩ := Prod.mk.inj heq
    refine (hopen (str 0)).2 ?_
    rw [run_stringBody hq, ← run_skipBlank (.inr rfl), hrest]
    rfl
  · next es heq =>
    obtain ⟨-, rfl⟩ := Prod.mk.inj (Option.some.inj hvalue)
    exact hleft "null".toList (by decide) heq.symm
  · next es heq =>
    obtain ⟨-, rfl⟩ := Prod.mk.inj (Option.some.inj hvalue)
    exact hleft "true".toList (by decide) heq.symm
  · next es heq =>
    obtain ⟨-, rfl⟩ := Prod.mk.inj (Option.some.inj hvalue)
    exact hleft "false".toList (by decide) heq.symm
  · simp only at hvalue
    split at hvalue
    · obtain ⟨-, rfl⟩ := Prod.mk.inj (Option.some.inj hvalue)
      refine hleft _ (fun hmem => ?_) List.takeWhile_append_dropWhile
      have := List.mem_takeWhile_imp hmem
      exact absurd this (by decide)
    · cases hvalue

end Scan

end AgentBus.Lib.JsonText
