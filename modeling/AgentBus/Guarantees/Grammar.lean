import AgentBus.Core.Topic

/-!
# The grammar of patterns

`Grammatical` says which lists of segments are patterns and `Selects` which
topics they select, in the words of the documentation. `pattern_grammar` says
that the parser and the matching loop compute just that.
-/

namespace AgentBus

open Lib

/-! ## The grammar -/

structure Grammatical (segs : List String) : Prop where
  nonempty : ∀ s ∈ segs, s ≠ ""
  noWhitespace : ∀ s ∈ segs, ∀ c ∈ s.toList, isWhitespace c = false
  /-- A star stands alone in its segment, or with one other. -/
  wholeStars : ∀ s ∈ segs, '*' ∈ s.toList → s = "*" ∨ s = "**"
  literalFirst : ∀ s ∈ segs.head?, '*' ∉ s.toList
  restLast : "**" ∉ segs.dropLast

/-- Pattern segments against topic segments, with nothing left over. -/
inductive Aligned : List String → List String → Prop where
  | nil : Aligned [] []
  | literal {s : String} {ss ts : List String} : s ≠ "*" → s ≠ "**" → Aligned ss ts →
      Aligned (s :: ss) (s :: ts)
  | one {t : String} {ss ts : List String} : Aligned ss ts → Aligned ("*" :: ss) (t :: ts)
  | rest {t : String} {ts : List String} : Aligned ["**"] (t :: ts)

/-- A bare partition selects everything in it, and itself. -/
def Selects (ss ts : List String) : Prop :=
  (∃ s, ss = [s] ∧ ts.head? = some s) ∨ 1 < ss.length ∧ Aligned ss ts

theorem aligned_cons_iff {s t : String} {ss ts : List String} : Aligned (s :: ss) (t :: ts) ↔
    s = "*" ∧ Aligned ss ts ∨ s = "**" ∧ ss = [] ∨ (s ≠ "*" ∧ s ≠ "**") ∧ t = s ∧
    Aligned ss ts := by
  constructor
  · intro h
    cases h with
    | literal h1 h2 h => exact .inr (.inr ⟨⟨h1, h2⟩, rfl, h⟩)
    | one h => exact .inl ⟨rfl, h⟩
    | rest => exact .inr (.inl ⟨rfl, rfl⟩)
  · rintro (⟨rfl, h⟩ | ⟨rfl, rfl⟩ | ⟨⟨h1, h2⟩, rfl, h⟩)
    · exact .one h
    · exact .rest
    · exact .literal h1 h2 h

theorem not_aligned_nil {s : String} {ss : List String} : ¬ Aligned (s :: ss) [] :=
  fun h => nomatch h

theorem Aligned.head_eq {s : String} {ss ts : List String} (h : Aligned (s :: ss) ts)
    (hs : '*' ∉ s.toList) : ts.head? = some s := by
  cases h with
  | literal => rfl
  | one => exact absurd (by decide) hs
  | rest => exact absurd (by decide) hs

namespace Pattern

/-! ## Parsing -/

/-- What a segment compiles to. -/
def segOf (s : String) : Seg := if s = "*" then .one else if s = "**" then .rest else .literal s

theorem segmentReason_eq_none_iff {s : String} : segmentReason s = none ↔
    s ≠ "" ∧ (∀ c ∈ s.toList, isWhitespace c = false) ∧ ('*' ∈ s.toList → s = "*" ∨ s = "**") := by
  unfold segmentReason
  split
  · next hempty => simp [String.isEmpty_iff.mp hempty]
  · next hempty =>
    have hne : s ≠ "" := fun h => hempty (String.isEmpty_iff.mpr h)
    split
    · next hws =>
      obtain ⟨c, hc, hcw⟩ := List.any_eq_true.mp hws
      refine iff_of_false (by simp) fun h => ?_
      rw [h.2.1 c hc] at hcw
      cases hcw
    · next hws =>
      have hws : ∀ c ∈ s.toList, isWhitespace c = false := by simpa using hws
      split
      · next hstar =>
        simp only [Bool.and_eq_true, List.contains_eq_mem, decide_eq_true_eq, bne_iff_ne] at hstar
        exact iff_of_false (by simp) fun h => (h.2.2 hstar.1.1).elim hstar.1.2 hstar.2
      · next hstar =>
        simp only [Bool.and_eq_true, List.contains_eq_mem, decide_eq_true_eq, bne_iff_ne] at hstar
        refine iff_of_true rfl ⟨hne, hws, fun hmem => ?_⟩
        by_cases h1 : s = "*"
        · exact .inl h1
        · exact .inr (by_contra fun h2 => hstar ⟨⟨hmem, h1⟩, h2⟩)

/-- The segments compile one by one, unless `**` is followed by others. -/
theorem compile_eq (ss : List String) : compile ss =
    if "**" ∈ ss.dropLast then .error "`**` must be the final segment" else .ok (ss.map segOf) := by
  induction ss with
  | nil => rfl
  | cons s ss ih =>
    cases ss with
    | nil =>
      simp only [compile, List.dropLast_singleton, List.not_mem_nil, if_false, segOf, List.map_cons,
        List.map_nil, List.isEmpty_nil, if_true]
      split
      · rfl
      · split <;> rfl
    | cons s' ss =>
      rw [List.dropLast_cons_of_ne_nil (List.cons_ne_nil _ _), compile, ih, List.map_cons, segOf]
      by_cases h2 : s = "**"
      · simp [h2]
      · have hmem : "**" ∈ s :: (s' :: ss).dropLast ↔ "**" ∈ (s' :: ss).dropLast := by
          simp [Ne.symm h2]
        simp only [hmem]
        by_cases h1 : s = "*" <;> by_cases hrest : "**" ∈ (s' :: ss).dropLast <;>
          simp [h1, h2, hrest, segOf, Except.map]

/-- What an accepted input is parsed into. -/
def partsOf (ss : List String) : Parts :=
  ⟨ss.headD "", if ss.length == 1 then ss.map segOf ++ [.rest] else ss.map segOf, ss.length == 1⟩

theorem parseRaw_of_grammatical {s : String} (h : Grammatical (segments s)) :
    parseRaw s = .ok (partsOf (segments s)) := by
  have hreason : (segments s).findSome? segmentReason = none :=
    List.findSome?_eq_none_iff.mpr fun x hx =>
      segmentReason_eq_none_iff.mpr ⟨h.nonempty x hx, h.noWhitespace x hx, h.wholeStars x hx⟩
  obtain ⟨first, rest, hs⟩ := List.exists_cons_of_ne_nil (segments_ne_nil s)
  have hfirst : '*' ∉ first.toList := h.literalFirst first (by rw [hs]; rfl)
  have hne : ¬ (first = "*" ∨ first = "**") := by
    rintro (rfl | rfl) <;> exact hfirst (by decide)
  rw [parseRaw, hreason]
  simp only [compile_eq, if_neg h.restLast]
  rw [if_neg (by simpa [hs] using hne)]
  rfl

theorem grammatical_of_parseRaw {s : String} {parts : Parts} (h : parseRaw s = .ok parts) :
    Grammatical (segments s) := by
  unfold parseRaw at h
  simp only at h
  split at h
  · cases h
  · next hreason =>
    have hseg := fun x hx => segmentReason_eq_none_iff.mp
      (List.findSome?_eq_none_iff.mp hreason x hx)
    split at h
    · cases h
    · next hfirst =>
      rw [compile_eq] at h
      by_cases hrest : "**" ∈ (segments s).dropLast
      · simp [hrest] at h
      · refine ⟨fun x hx => (hseg x hx).1, fun x hx => (hseg x hx).2.1, fun x hx => (hseg x hx).2.2,
          fun x hx hstar => hfirst ?_, hrest⟩
        obtain ⟨rest, hs⟩ := List.head?_eq_some_iff.mp hx
        rw [hs]
        exact (hseg x (by simp [hs])).2.2 hstar

theorem exists_parse_iff {s : String} :
    (∃ p, parse s = .ok p) ↔ ∃ parts, parseRaw s = .ok parts := by
  unfold parse
  constructor
  · rintro ⟨p, hp⟩
    split at hp
    · cases hp
    · exact ⟨_, ‹_›⟩
  · rintro ⟨parts, hparts⟩
    split
    · next e he => rw [hparts] at he; cases he
    · exact ⟨_, rfl⟩

theorem grammatical (p : Pattern) : Grammatical (AgentBus.segments p.raw) :=
  grammatical_of_parseRaw p.parsed

theorem toParts_eq (p : Pattern) : p.toParts = partsOf (AgentBus.segments p.raw) :=
  Except.ok.inj (p.parsed.symm.trans (parseRaw_of_grammatical p.grammatical))

/-! ## Matching -/

/-- The loop aligns what is left of the topic. -/
theorem matchFrom_iff (ts : List String) : ∀ {ss : List String} {t : Nat}, "**" ∉ ss.dropLast →
    t ≤ ts.length → (matchFrom ts (ss.map segOf) t = true ↔ Aligned ss (ts.drop t))
  | [], t, _, ht => by
    rw [List.map_nil, matchFrom, beq_iff_eq]
    constructor
    · rintro rfl
      rw [List.drop_length]
      exact .nil
    · intro h
      cases hdrop : ts.drop t with
      | nil => exact Nat.le_antisymm ht (List.drop_eq_nil_iff.mp hdrop)
      | cons x xs => rw [hdrop] at h; cases h
  | s :: ss, t, hrest, ht => by
    have hrest' : "**" ∉ ss.dropLast := fun hmem => by
      cases ss with
      | nil => cases hmem
      | cons s' ss => exact hrest (List.mem_cons_of_mem _ hmem)
    rw [List.map_cons, segOf]
    by_cases h2 : s = "**"
    · subst h2
      have hnil : ss = [] := by
        cases ss with
        | nil => rfl
        | cons s' ss => exact absurd List.mem_cons_self hrest
      subst hnil
      rw [if_neg (by decide), if_pos rfl, matchFrom, decide_eq_true_eq]
      constructor
      · intro hlt
        rw [List.drop_eq_getElem_cons hlt]
        exact .rest
      · intro h
        by_contra hge
        rw [List.drop_eq_nil_iff.mpr (Nat.le_of_not_lt hge)] at h
        exact not_aligned_nil h
    · by_cases hlt : t < ts.length
      · have hih := matchFrom_iff ts hrest' (Nat.succ_le_of_lt hlt)
        rw [List.drop_eq_getElem_cons hlt]
        by_cases h1 : s = "*"
        · subst h1
          rw [if_pos rfl, matchFrom, if_neg (by omega), hih, aligned_cons_iff]
          simp
        · rw [if_neg h1, if_neg h2, matchFrom, List.getElem?_eq_getElem hlt]
          by_cases hs : ts[t] = s
          · subst hs
            rw [if_neg (by simp), hih, aligned_cons_iff]
            simp [h1, h2]
          · rw [if_pos (by simpa using hs), aligned_cons_iff]
            simp [h1, h2, hs]
      · rw [List.drop_eq_nil_iff.mpr (Nat.le_of_not_lt hlt)]
        refine iff_of_false (fun h => ?_) not_aligned_nil
        by_cases h1 : s = "*"
        · rw [if_pos h1, matchFrom, if_pos (by omega)] at h
          cases h
        · rw [if_neg h1, if_neg h2, matchFrom, List.getElem?_eq_none (by omega),
            if_pos (by simp)] at h
          cases h

theorem matchesTopic_iff (p : Pattern) (t : Topic) :
    p.matchesTopic t = true ↔ Selects (AgentBus.segments p.raw) t.segments := by
  have hg := p.grammatical
  obtain ⟨t₀, ts, hts⟩ := List.exists_cons_of_ne_nil (segments_ne_nil t.raw)
  have hts : t.segments = t₀ :: ts := hts
  obtain ⟨s, ss, hss⟩ := List.exists_cons_of_ne_nil (segments_ne_nil p.raw)
  have hparts := p.toParts_eq
  rw [hss] at hg hparts ⊢
  have hstar : '*' ∉ s.toList := hg.literalFirst s rfl
  have hpartition : p.partition = s := congrArg Parts.partition hparts
  have hsegments : p.segments = _ := congrArg Parts.segments hparts
  have hbare : p.barePartition = _ := congrArg Parts.barePartition hparts
  rw [matchesTopic, t.partition_eq, hts, List.headD_cons, hpartition, hsegments, hbare, partsOf]
  have hlit : segOf s = .literal s := by
    rw [segOf, if_neg (by rintro rfl; exact hstar (by decide)),
      if_neg (by rintro rfl; exact hstar (by decide))]
  cases ss with
  | nil =>
    have hselects : Selects [s] (t₀ :: ts) ↔ t₀ = s := by simp [Selects]
    rw [hselects]
    by_cases heq : t₀ = s
    · subst heq
      cases ts with
      | nil => simp
      | cons t₁ ts => simp [hlit, matchFrom]
    · simp [heq]
  | cons s' ss =>
    have hselects : Selects (s :: s' :: ss) (t₀ :: ts) ↔ Aligned (s :: s' :: ss) (t₀ :: ts) := by
      simp [Selects]
    have hloop := matchFrom_iff (t₀ :: ts) hg.restLast (Nat.zero_le _)
    rw [List.drop_zero] at hloop
    rw [hselects, ← hloop]
    by_cases heq : t₀ = s
    · simp [heq]
    · have hfalse : ¬ Aligned (s :: s' :: ss) (t₀ :: ts) := fun h =>
        heq (Option.some.inj (h.head_eq hstar))
      rw [hloop]
      simp [heq, hfalse]

end Pattern

/-- **Patterns accept and select exactly their grammar.** No pattern selects a topic of another
partition, and every topic selects itself. -/
theorem pattern_grammar :
    (∀ s : String, (∃ p, Pattern.parse s = .ok p) ↔ Grammatical (segments s)) ∧
      (∀ (p : Pattern) (t : Topic), p.matchesTopic t = true ↔ Selects (segments p.raw) t.segments) ∧
      (∀ (p : Pattern) (t : Topic), t.segments.head? ≠ (segments p.raw).head? →
        p.matchesTopic t = false) ∧
      ∀ t : Topic, ∃ p, Pattern.parse t.raw = .ok p ∧ p.matchesTopic t = true := by
  refine ⟨fun s => ?_, Pattern.matchesTopic_iff, fun p t hne => ?_, fun t => ?_⟩
  · rw [Pattern.exists_parse_iff]
    exact ⟨fun ⟨_, h⟩ => Pattern.grammatical_of_parseRaw h,
      fun h => ⟨_, Pattern.parseRaw_of_grammatical h⟩⟩
  · rw [Bool.eq_false_iff]
    intro hmatch
    have hg := p.grammatical
    refine hne ?_
    rcases (p.matchesTopic_iff t).mp hmatch with ⟨s, hs, ht⟩ | ⟨hlen, h⟩
    · rw [hs, ht]
      rfl
    · obtain ⟨s, ss, hss⟩ := List.exists_cons_of_ne_nil (segments_ne_nil p.raw)
      rw [hss] at h hg ⊢
      rw [h.head_eq (hg.literalFirst s rfl)]
      rfl
  · obtain ⟨p, hraw, hmatch⟩ := t.exists_pattern
    exact ⟨p, hraw ▸ p.parse_raw, hmatch⟩

end AgentBus
