import AgentBus.Protocol.Frames

/-!
# Frames as lines

Every frame is one line of JSON. Both sides skip blank lines. The daemon answers
a line of text that is no request with an error and goes on, and hears nothing
after a line that is no text; a client reports a line that is no response. A
stream may have been written by another version of this program: its members in
another order, members that are not known here, and without those that have a
default. What it says is read all the same, by the daemon (`inbound_stream`) and
by a client (`reads_stream`).
-/

namespace AgentBus.Protocol

open Lib

variable (F : Formats)

def encode {α : Type} (c : Codec α) (a : α) : String := F.toString (c.encode a)

/-- What is written for a frame. -/
def line {α : Type} (c : Codec α) (a : α) : Bytes := utf8 (encode F c a).toList ++ [newline]

def decode {α : Type} (c : Codec α) (line : String) : Option α := (F.fromStr line).bind c.decode

/-! ## The daemon's side -/

inductive Inbound where
  | request (q : Request)
  | malformed

/-- What the daemon reads from a connection, as long as it does: it ends the connection where a line
is no text, and also of its own accord, after a stop or a follow that `dispatch` accepts. -/
def inbound : List Bytes → List Inbound
  | [] => []
  | l :: ls =>
    match decodeUtf8 l with
    | none => []
    | some cs =>
      if (trim (String.ofList cs)).isEmpty then inbound ls
      else
        match decode F request (String.ofList cs) with
        | some q => .request q :: inbound ls
        | none => .malformed :: inbound ls

/-! ## The client's side -/

inductive ReadError where
  | reading
  | decoding

/-- The next response, or none at the end of the stream. -/
def readOptional (hF : F.Faithful) : List Bytes → Except ReadError (Option Response) × List Bytes
  | [] => (.ok none, [])
  | l :: ls =>
    match decodeUtf8 l with
    | none => (.error .reading, ls)
    | some cs =>
      if (trim (String.ofList cs)).isEmpty then readOptional hF ls
      else
        match decode F (response F hF) (trim (String.ofList cs)) with
        | some r => (.ok (some r), ls)
        | none => (.error .decoding, ls)

/-- So many reads, one after the other. -/
def reads (hF : F.Faithful) : Nat → List Bytes → List (Except ReadError (Option Response))
  | 0, _ => []
  | n + 1, ls => (readOptional F hF ls).1 :: reads hF n (readOptional F hF ls).2

/-! ## Streams -/

/-- A line of a stream. -/
inductive Piece (α : Type) where
  | blank (w : String)
  /-- A frame, as an object of these members. -/
  | frame (a : α) (members : List (String × Json))
  /-- A line that is no frame. -/
  | junk (bs : Bytes)

/-- What a line says that is not blank. -/
inductive Content (α : Type) where
  | frame (a : α)
  | noFrame
  | noText

/-- The line as a reader gets it, unless it is no text. -/
def lineText (bs : Bytes) : Option String := (decodeUtf8 (stripReturn bs)).map String.ofList

namespace Piece

variable {α : Type}

/-- A frame as this version writes it. -/
def sent (t : Tagged α) (a : α) : Piece α := frame a (t.members a)

def raw : Piece α → Bytes
  | blank w => utf8 w.toList
  | frame _ members => utf8 (F.toString (.object members)).toList
  | junk bs => bs

def bytes (p : Piece α) : Bytes := p.raw F ++ [newline]

/-- Blank lines are of white space, frames are in range and have their fields, and junk is not read
as a frame. -/
def Ok (t : Tagged α) (parse : String → Option α) : Piece α → Prop
  | blank w => '\n' ∉ w.toList ∧ (trim w).isEmpty = true
  | frame a members => t.Fits a ∧ t.Readable a members ∧ (Json.object members).Printable 127
  | junk bs => newline ∉ bs ∧ ∀ s ∈ lineText bs, (trim s).isEmpty = false ∧ parse s = none

/-- What the lines say, the blank ones aside. -/
def contents : List (Piece α) → List (Content α)
  | [] => []
  | blank _ :: ps => contents ps
  | frame a _ :: ps => .frame a :: contents ps
  | junk bs :: ps => (if (lineText bs).isSome then .noFrame else .noText) :: contents ps

theorem bytes_sent {t : Tagged α} {depth : Nat}
    (hd : ∀ v ∈ t.variants, v.fields.depth ≤ depth) (a : α) :
    (sent t a).bytes F = line F (t.codec depth hd) a := rfl

/-- What this version writes is such a frame. -/
theorem sent_ok {t : Tagged α} (hdepth : ∀ v ∈ t.variants, v.fields.depth ≤ 126)
    (parse : String → Option α) {a : α} (h : t.Fits a) : (sent t a).Ok t parse :=
  ⟨h, t.readable_members a, t.printable_members hdepth h⟩

end Piece

section Streams

variable {F} {α : Type} {t : Tagged α}

theorem trim_object (hF : F.Faithful) (members : List (String × Json)) :
    trim (F.toString (.object members)) = F.toString (.object members) ∧
      (trim (F.toString (.object members))).isEmpty = false := by
  obtain ⟨cs, hcs⟩ := hF.braces members
  have htrim : trim (F.toString (.object members)) = F.toString (.object members) := by
    refine trim_eq_self ?_ ?_
    · intro ch hch
      rw [hcs] at hch
      cases hch
      decide
    · intro ch hch
      rw [hcs, List.getLast?_append] at hch
      cases hch
      decide
  refine ⟨htrim, ?_⟩
  rw [htrim, Bool.eq_false_iff, ne_eq, String.isEmpty_iff]
  intro hempty
  rw [hempty] at hcs
  cases hcs

theorem decode_frame (hN : F.FaithfulNumbers) {depth : Nat}
    {hd : ∀ v ∈ t.variants, v.fields.depth ≤ depth} {parse : String → Option α} {a : α}
    {members : List (String × Json)} (h : (Piece.frame a members).Ok t parse) :
    decode F (t.codec depth hd) (F.toString (.object members)) = some a := by
  obtain ⟨hfits, hread, hprint⟩ := h
  rw [decode, hN.fromStr_toString hprint, Option.bind_some]
  exact t.decode_of_readable hfits hread

/-- A piece comes off the front of a stream as one line. -/
theorem readLines_piece (hN : F.FaithfulNumbers) {parse : String → Option α} {p : Piece α}
    (h : p.Ok t parse) (bs : Bytes) : readLines (p.bytes F ++ bs) = stripReturn (p.raw F) ::
      readLines bs := by
  have hline : newline ∉ p.raw F := by
    cases p with
    | blank w => exact newline_notMem_utf8 h.1
    | frame a members => exact newline_notMem_utf8 (hN.oneLine h.2.2).1
    | junk bs => exact h.1
  rw [Piece.bytes, List.append_assoc, List.singleton_append]
  exact readLines_append_newline hline bs

theorem stripReturn_blank {parse : String → Option α} {w : String}
    (h : (Piece.blank w : Piece α).Ok t parse) :
    ∃ v : String, stripReturn (utf8 w.toList) = utf8 v.toList ∧ (trim v).isEmpty = true := by
  obtain ⟨ds, hds, heq⟩ := exists_stripReturn_utf8 w.toList
  refine ⟨String.ofList ds, by rw [heq, String.toList_ofList], trim_isEmpty_iff.mpr fun c hc => ?_⟩
  rw [String.toList_ofList] at hc
  exact trim_isEmpty_iff.mp h.2 c (hds.subset hc)

theorem stripReturn_frame (hN : F.FaithfulNumbers) {parse : String → Option α} {a : α}
    {members : List (String × Json)} (h : (Piece.frame a members).Ok t parse) :
    stripReturn (utf8 (F.toString (.object members)).toList) =
      utf8 (F.toString (.object members)).toList :=
  stripReturn_eq_self (return_notMem_utf8 (hN.oneLine h.2.2).2)

end Streams

variable {F}

theorem inbound_line (s : String) (ls : List Bytes) :
    inbound F (utf8 s.toList :: ls) =
      if (trim s).isEmpty then inbound F ls
      else
        match decode F request s with
        | some q => .request q :: inbound F ls
        | none => .malformed :: inbound F ls := by
  rw [inbound, decodeUtf8_utf8]
  simp only [String.ofList_toList]

theorem readOptional_line (hF : F.Faithful) (s : String) (ls : List Bytes) :
    readOptional F hF (utf8 s.toList :: ls) =
      if (trim s).isEmpty then readOptional F hF ls
      else
        match decode F (response F hF) (trim s) with
        | some r => (.ok (some r), ls)
        | none => (.error .decoding, ls) := by
  rw [readOptional, decodeUtf8_utf8]
  simp only [String.ofList_toList]

section Daemon

variable {bs : Bytes}

theorem inbound_frame (hF : F.Faithful) (hN : F.FaithfulNumbers) {q : Request}
    {members : List (String × Json)} (h : (Piece.frame q members).Ok requests (decode F request)) :
    inbound F (readLines ((Piece.frame q members).bytes F ++ bs)) =
      .request q :: inbound F (readLines bs) := by
  have hblank := (trim_object hF members).2
  have hdecode : decode F request (F.toString (.object members)) = some q := decode_frame hN h
  rw [readLines_piece hN h, Piece.raw, stripReturn_frame hN h, inbound_line, hblank, hdecode]
  rfl

/-- What the daemon hears. -/
def heard : List (Content Request) → List Inbound
  | [] => []
  | .frame q :: cs => .request q :: heard cs
  | .noFrame :: cs => .malformed :: heard cs
  | .noText :: _ => []

end Daemon

section Client

variable {hF : F.Faithful} {bs : Bytes}

theorem readOptional_blank (hN : F.FaithfulNumbers) {parse : String → Option Response} {w : String}
    (h : (Piece.blank w).Ok (responses F hF) parse) :
    readOptional F hF (readLines ((Piece.blank w : Piece Response).bytes F ++ bs)) =
      readOptional F hF (readLines bs) := by
  obtain ⟨v, heq, hblank⟩ := stripReturn_blank h
  rw [readLines_piece hN h, Piece.raw, heq, readOptional_line]
  exact if_pos hblank

theorem readOptional_frame (hN : F.FaithfulNumbers) {parse : String → Option Response}
    {r : Response} {members : List (String × Json)}
    (h : (Piece.frame r members).Ok (responses F hF) parse) :
    readOptional F hF (readLines ((Piece.frame r members).bytes F ++ bs)) =
      (.ok (some r), readLines bs) := by
  obtain ⟨htrim, hblank⟩ := trim_object hF members
  have hdecode : decode F (response F hF) (F.toString (.object members)) = some r :=
    decode_frame hN h
  rw [htrim] at hblank
  rw [readLines_piece hN h, Piece.raw, stripReturn_frame hN h, readOptional_line, htrim,
    hblank, hdecode]
  rfl

theorem readOptional_junk (hN : F.FaithfulNumbers) {line : Bytes}
    (h : (Piece.junk line).Ok (responses F hF) fun s => decode F (response F hF) (trim s)) :
    readOptional F hF (readLines ((Piece.junk line : Piece Response).bytes F ++ bs)) =
      (.error (if (lineText line).isSome then .decoding else .reading), readLines bs) := by
  rw [readLines_piece hN h, Piece.raw, readOptional]
  cases hdecode : decodeUtf8 (stripReturn line) with
  | none => simp [lineText, hdecode]
  | some cs =>
    obtain ⟨hblank, hnone⟩ := h.2 (String.ofList cs) (by simp [lineText, hdecode])
    simp only [hblank, hnone]
    simp [lineText, hdecode]

/-- What a client reads. -/
def Content.read : Content Response → Except ReadError (Option Response)
  | frame r => .ok (some r)
  | noFrame => .error .decoding
  | noText => .error .reading

end Client

/-- **A client reads every response of a stream, one at a time**, reports every line that is none,
and then sees the end of the stream. -/
theorem reads_stream (hF : F.Faithful) (hN : F.FaithfulNumbers) {ps : List (Piece Response)}
    (h : ∀ p ∈ ps, p.Ok (responses F hF) fun s => decode F (response F hF) (trim s)) :
    reads F hF ((Piece.contents ps).length + 1) (readLines (ps.flatMap (Piece.bytes F))) =
      (Piece.contents ps).map Content.read ++ [.ok none] := by
  induction ps with
  | nil => rfl
  | cons p ps ih =>
    have hp := h p List.mem_cons_self
    have hps := ih fun q hq => h q (List.mem_cons_of_mem _ hq)
    rw [List.flatMap_cons]
    cases p with
    | blank w => rw [Piece.contents, ← hps, reads, readOptional_blank hN hp, ← reads]
    | frame r members =>
      rw [Piece.contents, List.length_cons, reads, readOptional_frame hN hp, hps]
      rfl
    | junk line =>
      rw [Piece.contents, List.length_cons, reads, readOptional_junk hN hp, hps]
      cases (lineText line).isSome <;> rfl

/-- The answer of an older daemon, then nonsense, a torn character, and two more answers. -/
theorem reads_stream_older :
    let members : List (String × Json) :=
  [("id", .string "01J0000000000000000000000"), ("type", .string "posted")]
    let posted : Response := .posted "01J0000000000000000000000" ""
    let ensured : Response := .ensured "iot_base" true
    reads .reference Formats.reference_faithful 6 (readLines ([.frame posted members,
      .junk (utf8 ['?', '\r']), .junk [0xc3], .blank "",
      .sent (responses .reference Formats.reference_faithful) .timeout,
      .sent (responses .reference Formats.reference_faithful) ensured].flatMap
        (Piece.bytes .reference))) = [.ok (some posted), .error .decoding, .error .reading,
          .ok (some .timeout), .ok (some ensured),
          .ok none] := by
  intro members posted ensured
  have hprint : (Json.object members).Printable 127 := by
    refine .object ?_
    simp only [members, List.forall_mem_cons]
    exact ⟨.string _, .string _, nofun⟩
  have hdepth : ∀ v ∈ (responses .reference Formats.reference_faithful).variants,
    v.fields.depth ≤ 126 :=
    fun v hv => (responses_depth .reference Formats.reference_faithful v hv).trans (by decide)
  refine reads_stream Formats.reference_faithful Formats.reference_faithfulNumbers ?_
  simp only [List.forall_mem_cons]
  refine ⟨⟨⟨trivial, trivial, trivial⟩, ⟨rfl, .inl rfl, .inr ⟨rfl, .inl rfl⟩, trivial⟩, hprint⟩,
    ⟨by decide, by decide +kernel⟩, ⟨by decide, by decide +kernel⟩, ⟨by decide, by decide +kernel⟩,
    Piece.sent_ok hdepth _ trivial, Piece.sent_ok hdepth _ ⟨trivial, trivial, trivial⟩, nofun⟩

end AgentBus.Protocol
