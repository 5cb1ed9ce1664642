import AgentBus.Daemon.Steps

/-!
# Logs with torn records

A write that fails leaves the beginning of a record in the log, and the next
record goes on with its line. Such a log holds `Scraps`: whole lines, and then
pieces of records. Whatever is appended to it, the only message that it may
hold in addition is the one whose record was written (`loadable_append`).
-/

namespace AgentBus

open Lib PartitionLog

variable {F : Formats}

/-! ## Loadable messages -/

/-- The message on a line, if there is one. -/
def lineRecord (F : Formats) (line : Bytes) : Option Message :=
  (decodeUtf8 line).bind fun cs =>
    if (trim (String.ofList cs)).isEmpty then none else (Message.fromJsonl F
      (String.ofList cs)).toOption

/-- The messages on the lines of a file, whether or not all its lines are text. -/
def loadable (F : Formats) (content : Bytes) : List Message :=
  (readLines content).filterMap (lineRecord F)

theorem loadLines_eq {ls : List Bytes} {r : List Message × Nat} (h : loadLines F ls = some r) :
    r.1 = ls.filterMap (lineRecord F) := by
  induction ls generalizing r with
  | nil => cases h; rfl
  | cons l ls ih =>
    obtain ⟨cs, r', hcs, hr', hline⟩ := loadLines_cons_cases h
    have hrest := ih hr'
    rw [List.filterMap_cons, lineRecord, hcs, Option.bind_some]
    rcases hline with ⟨hblank, rfl⟩ | ⟨hblank, ⟨m, hm, rfl⟩ | ⟨e, he, rfl⟩⟩
    · rw [if_pos hblank]
      exact hrest
    · rw [if_neg (by simp [hblank]), hm]
      exact congrArg (m :: ·) hrest
    · rw [if_neg (by simp [hblank]), he]
      exact hrest

theorem loadable_append_of_terminated {xs : Bytes} (h : Terminated xs) (ys : Bytes) :
    loadable F (xs ++ ys) = loadable F xs ++ loadable F ys := by
  rw [loadable, readLines_append_of_terminated h, List.filterMap_append]
  rfl

theorem loadable_records (hF : F.Faithful) (ms : List Message) :
    loadable F (ms.flatMap (recordOf F)) = ms :=
  (loadLines_eq (loadLines_records hF ms)).symm

theorem fromJsonl_of_fromStr {line : String} (h : F.fromStr line = none) :
    Message.fromJsonl F line = .error (.malformedRecord none) := by
  rw [Message.fromJsonl, h]
  rfl

theorem lineRecord_eq_none {line : Bytes}
    (h : ∀ cs, utf8 cs = line → F.fromStr (String.ofList cs) = none) :
    lineRecord F line = none := by
  cases hcs : decodeUtf8 line with
  | none => rw [lineRecord, hcs]; rfl
  | some cs =>
    simp [lineRecord, hcs, fromJsonl_of_fromStr (h cs (utf8_of_decodeUtf8 hcs)), Except.toOption]

/-! ## Pieces of records -/

/-- A record without its newline. -/
def textOf (F : Formats) (m : Message) : Bytes := utf8 (F.toString (m.toJson F)).toList

theorem recordOf_eq (m : Message) : recordOf F m = textOf F m ++ [newline] := rfl

theorem named_toJson (F : Formats) (m : Message) : (m.toJson F).Named :=
  @Json.Named.mk 'i' ['d'] _ _ rfl (m.toJson_plain F 126)

/-- A record loads nothing on a line that was begun with anything but blanks. -/
theorem recordsIn_runOn (hF : F.Faithful) (hR : F.RejectsRunOn) {cs : List Char}
    (hnl : newline ∉ utf8 cs) (hbegun : ∃ c ∈ cs, Json.isBlank c = false) (m : Message) :
    recordsIn F (utf8 cs ++ recordOf F m) = [] := by
  have hparse : Message.fromJsonl F (String.ofList cs ++ F.toString (m.toJson F)) =
      .error (.malformedRecord none) :=
    fromJsonl_of_fromStr (hR (named_toJson F m) (by rwa [String.toList_ofList]))
  rw [recordsIn, readLines_append_recordOf hF hnl, loadLines_utf8_cons, hparse]
  split <;> rfl

/-- Some of the first bytes of a record, at least one and not its newline. -/
abbrev RecordPiece (F : Formats) (bs : Bytes) : Prop :=
  Json.Piece (fun j => (F.toString j).toList) bs

theorem recordPiece_of_beginning {m : Message} {bs : Bytes} (hne : bs ≠ [])
    (h : bs <+: textOf F m) :
    RecordPiece F bs := ⟨hne, _, named_toJson F m, h⟩

/-- What a write leaves of a record: nothing, a piece, or the record. -/
theorem prefix_recordOf_cases {m : Message} {bs : Bytes} (h : bs <+: recordOf F m) :
    bs = [] ∨ bs ≠ [] ∧ bs <+: textOf F m ∨ bs = recordOf F m := by
  rcases List.prefix_concat_iff.mp h with h | h
  · exact .inr (.inr h)
  · by_cases hne : bs = []
    · exact .inl hne
    · exact .inr (.inl ⟨hne, h⟩)

theorem oneLine_piece (hF : F.Faithful) {bs : Bytes} (h : RecordPiece F bs) :
    newline ∉ bs ∧ carriageReturn ∉ bs := by
  obtain ⟨-, j, hj, hbs⟩ := h
  have hplain : j.Plain 127 := by cases hj; assumption
  exact ⟨fun hmem => newline_notMem_utf8 (hF.oneLine hplain).1 (hbs.subset hmem),
    fun hmem => return_notMem_utf8 (hF.oneLine hplain).2 (hbs.subset hmem)⟩

theorem oneLine_pieces (hF : F.Faithful) {pieces : List Bytes} (h : ∀ p ∈ pieces, RecordPiece F p) :
    newline ∉ pieces.flatten ∧ carriageReturn ∉ pieces.flatten := by
  simp only [List.mem_flatten, not_exists, not_and]
  exact ⟨fun p hp => (oneLine_piece hF (h p hp)).1, fun p hp => (oneLine_piece hF (h p hp)).2⟩

/-! ## Logs -/

/-- Whole lines, and after them pieces of records. -/
def Scraps (F : Formats) (content : Bytes) : Prop :=
  ∃ ls pieces, content = ls ++ List.flatten pieces ∧
  Terminated ls ∧ ∀ p ∈ pieces, RecordPiece F p

theorem terminated_records (ms : List Message) : Terminated (ms.flatMap (recordOf F)) := by
  rcases List.eq_nil_or_concat ms with rfl | ⟨ms, m, rfl⟩
  · exact .inl rfl
  · exact .inr ⟨ms.flatMap (recordOf F) ++ textOf F m, by
      rw [List.concat_eq_append, List.flatMap_append, List.flatMap_singleton, recordOf_eq,
        List.append_assoc]⟩

theorem scraps_records (ms : List Message) : Scraps F (ms.flatMap (recordOf F)) :=
  ⟨ms.flatMap (recordOf F), [], by simp, terminated_records ms, nofun⟩

theorem Scraps.append {content bs : Bytes} (h : Scraps F content) {m : Message}
    (hbs : bs <+: recordOf F m) : Scraps F (content ++ bs) := by
  obtain ⟨ls, pieces, rfl, hls, hpieces⟩ := h
  rcases prefix_recordOf_cases hbs with rfl | ⟨hne, hpre⟩ | rfl
  · exact ⟨ls, pieces, by simp, hls, hpieces⟩
  · refine ⟨ls, pieces ++ [bs], by simp, hls, fun p hp => ?_⟩
    rcases List.mem_append.mp hp with hp | hp
    · exact hpieces p hp
    · rw [List.mem_singleton.mp hp]
      exact recordPiece_of_beginning hne hpre
  · exact ⟨ls ++ pieces.flatten ++ recordOf F m, [], by simp,
      .inr ⟨ls ++ pieces.flatten ++ textOf F m, by simp [recordOf_eq]⟩, nofun⟩

theorem recordPiece_textOf (hF : F.Faithful) (m : Message) : RecordPiece F (textOf F m) := by
  refine recordPiece_of_beginning (fun hnil => ?_) (List.prefix_refl _)
  obtain ⟨cs, hcs⟩ := hF.braces (m.members F)
  rw [textOf, Message.toJson, hcs] at hnil
  cases hnil

theorem loadable_pieces (hF : F.Faithful) {pieces : List Bytes}
    (hpieces : ∀ p ∈ pieces, RecordPiece F p) (hne : pieces.flatten ≠ []) :
    loadable F pieces.flatten = (lineRecord F pieces.flatten).toList ∧
      loadable F (pieces.flatten ++ [newline]) = (lineRecord F pieces.flatten).toList := by
  obtain ⟨hnl, hcr⟩ := oneLine_pieces hF hpieces
  have hline : ∀ line, [line].filterMap (lineRecord F) = (lineRecord F line).toList :=
      fun line => by
    cases h : lineRecord F line <;> simp [h]
  constructor
  · rw [loadable, readLines_of_notMem hnl, if_neg (by simpa using hne), hline]
  · rw [loadable, readLines_cons hnl hcr, ← hline]
    rfl

/-- On a line of its own, what is written of a record holds its message or none. -/
theorem loadable_beginning (hF : F.Faithful) (hT : F.RejectsTorn) {m : Message} {bs : Bytes}
    (h : bs <+: recordOf F m) : (loadable F bs).Sublist [m] := by
  have hrecords := loadable_records hF [m]
  rw [List.flatMap_singleton] at hrecords
  rcases prefix_recordOf_cases h with rfl | ⟨hne, hpre⟩ | rfl
  · exact List.nil_sublist _
  · have hpiece := recordPiece_of_beginning hne hpre
    have hpieces : ∀ p ∈ [bs], RecordPiece F p := fun p hp => List.mem_singleton.mp hp ▸ hpiece
    have hload := loadable_pieces hF hpieces (by simpa using hne)
    rw [List.flatten_singleton] at hload
    by_cases hwhole : bs = textOf F m
    · rw [hload.1, ← hload.2, hwhole, ← recordOf_eq, hrecords]
    · have hnone : lineRecord F bs = none := by
        refine lineRecord_eq_none fun cs hcs => hT.unfinished (named_toJson F m) ?_
          fun heq => hwhole ?_
        · rw [String.toList_ofList, hcs]
          exact hpre
        · rw [← hcs, textOf, ← heq, String.toList_ofList]
      rw [hload.1, hnone]
      exact List.nil_sublist _
  · rw [hrecords]

/-- On a torn line, it holds none. -/
theorem loadable_spliced (hF : F.Faithful) (hT : F.RejectsTorn) {pieces : List Bytes}
    (hpieces : ∀ p ∈ pieces, RecordPiece F p) (hne : pieces ≠ []) {m : Message} {bs : Bytes}
    (hbs : bs ≠ []) (h : bs <+: recordOf F m) : loadable F (pieces.flatten ++ bs) = [] := by
  have hload : ∀ q, RecordPiece F q → loadable F (pieces.flatten ++ q) = [] ∧
      loadable F (pieces.flatten ++ q ++ [newline]) = [] := by
    intro q hq
    have hall : ∀ p ∈ pieces ++ [q], RecordPiece F p := fun p hp => by
      rcases List.mem_append.mp hp with hp | hp
      · exact hpieces p hp
      · exact List.mem_singleton.mp hp ▸ hq
    have hflat : (pieces ++ [q]).flatten = pieces.flatten ++ q := by simp
    have hnone : lineRecord F (pieces.flatten ++ q) = none := by
      obtain ⟨p, ps, rfl⟩ := List.exists_cons_of_ne_nil hne
      have hrest : ∀ r ∈ ps ++ [q], RecordPiece F r :=
        fun r hr => hall r (List.mem_cons_of_mem _ hr)
      refine lineRecord_eq_none fun cs hcs =>
        hT.spliced (hpieces p List.mem_cons_self) hrest (by simp) ?_
      rw [String.toList_ofList, hcs]
      simp
    have := loadable_pieces hF hall (by rw [hflat]; simp [hq.1])
    rw [hflat, hnone] at this
    exact this
  rcases prefix_recordOf_cases h with hnil | ⟨hne, hpre⟩ | rfl
  · exact absurd hnil hbs
  · exact (hload bs (recordPiece_of_beginning hne hpre)).1
  · rw [recordOf_eq, ← List.append_assoc]
    exact (hload _ (recordPiece_textOf hF m)).2

/-- **An append adds at most its own message.** -/
theorem loadable_append (hF : F.Faithful) (hT : F.RejectsTorn) {content bs : Bytes}
    (h : Scraps F content) {m : Message} (hbs : bs <+: recordOf F m) :
    (loadable F (content ++ bs)).Sublist (loadable F content ++ [m]) := by
  obtain ⟨ls, pieces, rfl, hls, hpieces⟩ := h
  by_cases hnil : bs = []
  · rw [hnil, List.append_nil]
    exact List.sublist_append_left ..
  rw [List.append_assoc, loadable_append_of_terminated hls, loadable_append_of_terminated hls]
  by_cases hne : pieces = []
  · subst hne
    have hnil : loadable F (List.flatten []) = [] := rfl
    rw [List.flatten_nil, List.nil_append] at *
    rw [hnil, List.append_nil]
    exact (List.Sublist.refl _).append (loadable_beginning hF hT hbs)
  · rw [loadable_spliced hF hT hpieces hne hnil hbs, List.append_nil, List.append_assoc]
    exact List.sublist_append_left ..

end AgentBus
