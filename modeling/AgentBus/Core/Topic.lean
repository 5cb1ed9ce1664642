import AgentBus.Lib.Text

/-!
# Topics and subscription patterns

A topic is a `/`-separated path of literal segments; the first segment names
the partition. A pattern may also use `*` (one segment) and a final `**` (one
or more); a bare partition name stands for the partition and everything in it.

`Topic` and `Pattern` carry the fact that their fields come from parsing `raw`,
so two patterns with the same string are the same pattern.
-/

namespace AgentBus

open Lib

inductive CoreError where
  | invalidTopic (input reason : String)
  | invalidPattern (input reason : String)
  | invalidPartition (input reason : String)
  /-- `none` for the decoder's own text. -/
  | malformedRecord (reason : Option String)
  deriving DecidableEq, Repr

def segments (input : String) : List String := split '/' input

/-- The prefix of a string that takes `n` bytes. -/
def bytePrefix (n : Nat) : List Char → List Char
  | [] => []
  | c :: cs => if c.utf8Size ≤ n then c :: bytePrefix (n - c.utf8Size) cs else []

/-! ## Topics -/

namespace Topic

/-- Why a segment cannot stand in a topic. -/
def segmentReason (segment : String) : Option String :=
  if segment.isEmpty then some "segments must not be empty"
  else if segment.toList.contains '*' then some "wildcards are not allowed in a concrete topic"
  else if segment.toList.any isWhitespace then some "segments must not contain whitespace"
  else none

/-- Byte length of the partition, for an acceptable topic. -/
def parseRaw (input : String) : Except CoreError Nat :=
  match (segments input).findSome? segmentReason with
  | some reason => .error (.invalidTopic input reason)
  | none => .ok ((segments input).headD "").utf8ByteSize

end Topic

structure Topic where
  raw : String
  partitionLen : Nat
  parsed : Topic.parseRaw raw = .ok partitionLen
  deriving DecidableEq

namespace Topic

def parse (input : String) : Except CoreError Topic :=
  match h : parseRaw input with
  | .error e => .error e
  | .ok partitionLen => .ok ⟨input, partitionLen, h⟩

def partition (t : Topic) : String := String.ofList (bytePrefix t.partitionLen t.raw.toList)

def asStr (t : Topic) : String := t.raw

def segments (t : Topic) : List String := AgentBus.segments t.raw

end Topic

/-! ## Patterns -/

inductive Seg where
  | literal (s : String)
  | one
  | rest
  deriving DecidableEq, Repr

namespace Pattern

def segmentReason (segment : String) : Option String :=
  if segment.isEmpty then some "segments must not be empty"
  else if segment.toList.any isWhitespace then some "segments must not contain whitespace"
  else if segment.toList.contains '*' && segment != "*" && segment != "**" then
    some "partial wildcards like `dev_*` are not supported"
  else none

/-- Compile the segments; `**` may only be the last. -/
def compile : List String → Except String (List Seg)
  | [] => .ok []
  | segment :: rest =>
    if segment = "*" then (compile rest).map (.one :: ·)
    else if segment = "**" then
      if rest.isEmpty then .ok [.rest] else .error "`**` must be the final segment"
    else (compile rest).map (.literal segment :: ·)

/-- What `parse` computes from its input besides the input itself. -/
structure Parts where
  partition : String
  segments : List Seg
  /-- A bare partition name also matches the partition topic itself. -/
  barePartition : Bool
  deriving DecidableEq

def parseRaw (input : String) : Except CoreError Parts :=
  let rawSegments := segments input
  match rawSegments.findSome? segmentReason with
  | some reason => .error (.invalidPattern input reason)
  | none =>
    let first := rawSegments.headD ""
    if first = "*" ∨ first = "**" then
      .error (.invalidPattern input "the partition segment must be a literal name")
    else
      match compile rawSegments with
      | .error reason => .error (.invalidPattern input reason)
      | .ok segs =>
        let barePartition := rawSegments.length == 1
        .ok ⟨first, if barePartition then segs ++ [.rest] else segs, barePartition⟩

end Pattern

structure Pattern extends Pattern.Parts where
  raw : String
  parsed : Pattern.parseRaw raw = .ok toParts
  deriving DecidableEq

namespace Pattern

def parse (input : String) : Except CoreError Pattern :=
  match h : parseRaw input with
  | .error e => .error e
  | .ok parts => .ok ⟨parts, input, h⟩

def asStr (p : Pattern) : String := p.raw

/-- The matching loop, `t` topic segments in. -/
def matchFrom (topicSegments : List String) : List Seg → Nat → Bool
  | [], t => t == topicSegments.length
  | .rest :: _, t => decide (topicSegments.length > t)
  | .one :: segs, t =>
    if t ≥ topicSegments.length then false else matchFrom topicSegments segs (t + 1)
  | .literal expected :: segs, t =>
    if topicSegments[t]? ≠ some expected then false else matchFrom topicSegments segs (t + 1)

/-- Does this pattern select `topic`? -/
def matchesTopic (p : Pattern) (topic : Topic) : Bool :=
  if topic.partition ≠ p.partition then false
  else if p.barePartition && topic.segments.length == 1 then true
  else matchFrom topic.segments p.segments 0

/-- A pattern selects in its own partition only. -/
theorem partition_of_matchesTopic {p : Pattern} {topic : Topic} (h : p.matchesTopic topic = true) :
    topic.partition = p.partition := by
  by_contra hne
  rw [matchesTopic, if_pos hne] at h
  cases h

theorem ext_raw {p q : Pattern} (h : p.raw = q.raw) : p = q := by
  obtain ⟨pp, pr, hp⟩ := p
  obtain ⟨qp, qr, hq⟩ := q
  cases h
  rw [hp] at hq
  cases hq
  rfl

theorem parse_raw (p : Pattern) : parse p.raw = .ok p := by
  unfold parse
  split
  · next h => rw [p.parsed] at h; cases h
  · next parts h =>
    have hparts := Except.ok.inj (h.symm.trans p.parsed)
    congr 1
    exact ext_raw rfl

end Pattern

/-! ## A topic read as a pattern -/

theorem bytePrefix_append (cs ds : List Char) :
    bytePrefix (String.ofList cs).utf8ByteSize (cs ++ ds) = cs := by
  induction cs with
  | nil =>
    cases ds with
    | nil => rfl
    | cons d ds =>
      have : d.utf8Size ≠ 0 := Nat.pos_iff_ne_zero.mp d.utf8Size_pos
      simp [bytePrefix, this]
  | cons c cs ih =>
    have hlen : (String.ofList (c :: cs)).utf8ByteSize =
        c.utf8Size + (String.ofList cs).utf8ByteSize := by
      rw [String.ofList_cons, String.utf8ByteSize_append, String.utf8ByteSize_singleton]
    rw [hlen, List.cons_append, bytePrefix, if_pos (Nat.le_add_right _ _),
      Nat.add_sub_cancel_left, ih]

theorem segments_ne_nil (s : String) : segments s ≠ [] := by
  simp [segments, split]

theorem exists_append_of_segments {s first : String} {rest : List String}
    (h : segments s = first :: rest) : ∃ ds, s.toList = first.toList ++ ds := by
  obtain ⟨p, ps, hp, rfl, -⟩ := List.map_eq_cons_iff.mp h
  have hs : ['/'].intercalate (s.toList.splitOn '/') = s.toList := List.intercalate_splitOn '/'
  rw [hp] at hs
  cases ps with
  | nil => exact ⟨[], by simpa using hs.symm⟩
  | cons q qs =>
    exact ⟨_, by rw [← hs, List.intercalate_cons_cons, List.append_assoc, String.toList_ofList]⟩

namespace Topic

theorem parse_raw (t : Topic) : parse t.raw = .ok t := by
  unfold parse
  split
  · next h => rw [t.parsed] at h; cases h
  · next h =>
    have := h.symm.trans t.parsed
    cases this
    rfl

theorem findSome_segmentReason (t : Topic) : t.segments.findSome? segmentReason = none := by
  have h := t.parsed
  unfold parseRaw at h
  split at h
  · cases h
  · assumption

theorem partition_eq (t : Topic) : t.partition = t.segments.headD "" := by
  have h := t.parsed
  have hn := t.findSome_segmentReason
  unfold segments at hn ⊢
  rw [parseRaw, hn] at h
  cases hs : AgentBus.segments t.raw with
  | nil => exact absurd hs (segments_ne_nil _)
  | cons first rest =>
    obtain ⟨ds, hds⟩ := exists_append_of_segments hs
    rw [hs] at h
    simp only [List.headD_cons, Except.ok.injEq] at h
    have hfirst : first = String.ofList first.toList := String.ofList_toList.symm
    rw [partition, ← h, hds, List.headD_cons, hfirst, String.toList_ofList, bytePrefix_append]

theorem segmentReason_of_mem {t : Topic} {segment : String} (h : segment ∈ t.segments) :
    segmentReason segment = none :=
  List.findSome?_eq_none_iff.mp t.findSome_segmentReason segment h

theorem literal_of_segmentReason {segment : String} (h : segmentReason segment = none) :
    Pattern.segmentReason segment = none ∧ segment ≠ "*" ∧ segment ≠ "**" := by
  unfold segmentReason at h
  split at h
  · cases h
  · next hne =>
    split at h
    · cases h
    · next hstar =>
      split at h
      · cases h
      · next hws =>
        refine ⟨by simp_all [Pattern.segmentReason], ?_, ?_⟩
        · rintro rfl; exact hstar (by decide)
        · rintro rfl; exact hstar (by decide)

end Topic

namespace Pattern

theorem compile_literals :
    ∀ {segs : List String}, (∀ s ∈ segs, s ≠ "*" ∧ s ≠ "**") →
      compile segs = .ok (segs.map .literal)
  | [], _ => rfl
  | s :: segs, h => by
    obtain ⟨h1, h2⟩ := h s List.mem_cons_self
    rw [compile, if_neg h1, if_neg h2,
      compile_literals fun s' hs' => h s' (List.mem_cons_of_mem _ hs')]
    rfl

theorem matchFrom_literals (pre : List String) :
    ∀ segs : List String, matchFrom (pre ++ segs) (segs.map .literal) pre.length = true
  | [] => by simp [matchFrom]
  | s :: segs => by
    have ih := matchFrom_literals (pre ++ [s]) segs
    rw [List.append_assoc, List.length_append] at ih
    simpa [matchFrom] using ih

end Pattern

/-- **A topic's own string is a pattern that selects it.** -/
theorem Topic.exists_pattern (t : Topic) :
    ∃ p : Pattern, p.raw = t.raw ∧ p.matchesTopic t = true := by
  have hlit : ∀ s ∈ t.segments, Pattern.segmentReason s = none ∧ s ≠ "*" ∧ s ≠ "**" := fun s hs =>
    literal_of_segmentReason (segmentReason_of_mem hs)
  obtain ⟨first, rest, hsegs⟩ := List.exists_cons_of_ne_nil (segments_ne_nil t.raw)
  have hseg : t.segments = first :: rest := hsegs
  have hfirst := hlit first (by rw [hseg]; exact List.mem_cons_self)
  have hcompile := Pattern.compile_literals fun s hs => (hlit s hs).2
  have hreason : (AgentBus.segments t.raw).findSome? Pattern.segmentReason = none :=
    List.findSome?_eq_none_iff.mpr fun s hs => (hlit s hs).1
  let parts : Pattern.Parts := ⟨first, if rest.isEmpty then (first :: rest).map .literal ++ [.rest]
    else (first :: rest).map .literal, rest.isEmpty⟩
  have hparse : Pattern.parseRaw t.raw = .ok parts := by
    rw [Pattern.parseRaw, hreason, hsegs]
    rw [hseg] at hcompile
    simp only [List.headD_cons, hfirst.2.1, hfirst.2.2, or_self, if_false, hcompile]
    cases rest <;> simp [parts]
  refine ⟨⟨parts, t.raw, hparse⟩, rfl, ?_⟩
  have hpart : t.partition = first := by rw [t.partition_eq, hseg, List.headD_cons]
  rw [Pattern.matchesTopic, if_neg (by simp [hpart, parts]), hseg]
  cases rest with
  | nil => simp [parts]
  | cons r rest => simpa [parts] using Pattern.matchFrom_literals [] (first :: r :: rest)

end AgentBus
