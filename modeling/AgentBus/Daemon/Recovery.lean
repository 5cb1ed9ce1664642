import AgentBus.Daemon.World

/-!
# Opening what was written

A world is `Synced` when its files say what its memory says: the log file
holds the records of the messages in order, and the cursor file, if there is
one, holds the cursors. Every successful call keeps a world synced, and
opening the directory of a synced world gives its messages and cursors back.
-/

namespace AgentBus

open Lib

variable {F : Formats}

/-! ## Records -/

namespace PartitionLog

/-- A message's line in the log file. -/
def recordOf (F : Formats) (m : Message) : Bytes := record (F.toString (m.toJson F))

theorem rewritten_eq (ms : List Message) : rewritten F ms = .ok (ms.flatMap (recordOf F)) := by
  induction ms with
  | nil => rfl
  | cons m ms ih =>
    rw [rewritten, ih]
    rfl

end PartitionLog

open PartitionLog

theorem trim_toJson (hF : F.Faithful) (m : Message) :
    (trim (F.toString (m.toJson F))).isEmpty = false := by
  obtain ⟨cs, hcs⟩ := hF.braces (m.members F)
  rw [← Message.toJson] at hcs
  rw [Bool.eq_false_iff, ne_eq, trim_isEmpty_iff]
  intro h
  have := h '{' (by rw [hcs]; exact List.mem_cons_self)
  exact absurd this (by decide)

theorem loadLines_utf8_cons (line : String) (lines : List Bytes) :
    loadLines F (utf8 line.toList :: lines) =
      if (trim line).isEmpty then loadLines F lines
      else
        match Message.fromJsonl F line with
        | .ok message => (loadLines F lines).map fun r => (message :: r.1, r.2)
        | .error _ => (loadLines F lines).map fun r => (r.1, r.2 + 1) := by
  cases hline : Message.fromJsonl F line <;> simp [loadLines, decodeUtf8_utf8, hline]

theorem loadLines_record_cons (hF : F.Faithful) (m : Message) (lines : List Bytes) :
    loadLines F (utf8 (F.toString (m.toJson F)).toList :: lines) =
      (loadLines F lines).map fun r => (m :: r.1, r.2) := by
  rw [loadLines_utf8_cons, trim_toJson hF, Message.fromJsonl_toJsonl hF]
  rfl

theorem newline_notMem_toJson (hF : F.Faithful) (m : Message) :
    newline ∉ utf8 (F.toString (m.toJson F)).toList :=
  newline_notMem_utf8 (hF.oneLine (m.toJson_plain F 126)).1

theorem return_notMem_toJson (hF : F.Faithful) (m : Message) :
    carriageReturn ∉ utf8 (F.toString (m.toJson F)).toList :=
  return_notMem_utf8 (hF.oneLine (m.toJson_plain F 126)).2

theorem loadLines_records (hF : F.Faithful) (ms : List Message) :
    loadLines F (readLines (ms.flatMap (recordOf F))) = some (ms, 0) := by
  induction ms with
  | nil => rfl
  | cons m ms ih =>
    rw [List.flatMap_cons, recordOf, record, List.append_assoc, List.singleton_append,
      readLines_cons (newline_notMem_toJson hF m) (return_notMem_toJson hF m),
      loadLines_record_cons hF, ih]
    rfl

/-! ## Contents -/

/-- The first of some lines that load: text that is blank, a record or corrupt. -/
theorem loadLines_cons_cases {l : Bytes} {ls : List Bytes} {r : List Message × Nat}
    (h : loadLines F (l :: ls) = some r) : ∃ cs r', decodeUtf8 l = some cs ∧
      loadLines F ls = some r' ∧ ((trim (String.ofList cs)).isEmpty = true ∧ r = r' ∨
        (trim (String.ofList cs)).isEmpty = false ∧
          ((∃ m, Message.fromJsonl F (String.ofList cs) = .ok m ∧ r = (m :: r'.1, r'.2)) ∨
            (∃ e, Message.fromJsonl F (String.ofList cs) = .error e ∧ r = (r'.1, r'.2 + 1)))) := by
  rw [loadLines] at h
  cases hcs : decodeUtf8 l with
  | none => rw [hcs] at h; cases h
  | some cs =>
    simp only [hcs] at h
    split at h
    · next hblank => exact ⟨cs, r, rfl, h, .inl ⟨hblank, rfl⟩⟩
    · next hblank =>
      have hline := Bool.eq_false_iff.mpr hblank
      split at h
      · next m hm =>
        obtain ⟨r', hr', rfl⟩ := Option.map_eq_some_iff.mp h
        exact ⟨cs, r', rfl, hr', .inr ⟨hline, .inl ⟨m, hm, rfl⟩⟩⟩
      · next e he =>
        obtain ⟨r', hr', rfl⟩ := Option.map_eq_some_iff.mp h
        exact ⟨cs, r', rfl, hr', .inr ⟨hline, .inr ⟨e, he, rfl⟩⟩⟩

theorem loadLines_append (ls ls' : List Bytes) :
    loadLines F (ls ++ ls') = (loadLines F ls).bind fun r =>
      (loadLines F ls').map fun r' => (r.1 ++ r'.1, r.2 + r'.2) := by
  induction ls with
  | nil => simp [loadLines]
  | cons l ls ih =>
    rw [List.cons_append, loadLines, loadLines]
    cases decodeUtf8 l with
    | none => rfl
    | some cs =>
      simp only [ih]
      split
      · rfl
      · cases Message.fromJsonl F (String.ofList cs) <;> cases loadLines F ls <;>
          cases loadLines F ls' <;> simp [Nat.add_right_comm]

theorem exists_loadLines {ls : List Bytes} (h : ∀ l ∈ ls, IsText l) :
    ∃ r, loadLines F ls = some r := by
  induction ls with
  | nil => exact ⟨_, rfl⟩
  | cons l ls ih =>
    obtain ⟨cs, rfl⟩ := h l List.mem_cons_self
    obtain ⟨r, hr⟩ := ih fun l hl => h l (List.mem_cons_of_mem _ hl)
    have := loadLines_utf8_cons (F := F) (String.ofList cs) ls
    rw [String.toList_ofList, hr] at this
    rw [this]
    split
    · exact ⟨_, rfl⟩
    · split <;> exact ⟨_, rfl⟩

/-- The messages a file's content loads as, in file order. -/
def recordsIn (F : Formats) (content : Bytes) : List Message :=
  ((loadLines F (readLines content)).map Prod.fst).getD []

theorem recordsIn_append {xs ys : Bytes} (h : Terminated xs) (hx : IsText xs) (hy : IsText ys) :
    recordsIn F (xs ++ ys) = recordsIn F xs ++ recordsIn F ys := by
  obtain ⟨r, hr⟩ := exists_loadLines (F := F) fun l => hx.of_mem_readLines
  obtain ⟨r', hr'⟩ := exists_loadLines (F := F) fun l => hy.of_mem_readLines
  simp only [recordsIn, readLines_append_of_terminated h, loadLines_append, hr, hr']
  rfl

theorem isWhitespace_of_isBlank {c : Char} (h : Json.isBlank c = true) : isWhitespace c = true := by
  simp only [Json.isBlank, Bool.or_eq_true, beq_iff_eq] at h
  rcases h with ((rfl | rfl) | rfl) | rfl <;> rfl

theorem recordsIn_blank {cs : List Char} (h : ∀ c ∈ cs, Json.isBlank c = true)
    (hnl : newline ∉ utf8 cs) : recordsIn F (utf8 cs) = [] := by
  have hblank : (trim (String.ofList cs)).isEmpty = true := by
    rw [trim_isEmpty_iff, String.toList_ofList]
    exact fun c hc => isWhitespace_of_isBlank (h c hc)
  have hload := loadLines_utf8_cons (F := F) (String.ofList cs) []
  rw [String.toList_ofList, if_pos hblank] at hload
  rw [recordsIn, readLines_of_notMem hnl]
  split
  · rfl
  · rw [hload]
    rfl

/-- A record written on a line that has begun goes on with it. -/
theorem readLines_append_recordOf (hF : F.Faithful) {cs : List Char} (hnl : newline ∉ utf8 cs)
    (m : Message) : readLines (utf8 cs ++ recordOf F m) =
      [utf8 (String.ofList cs ++ F.toString (m.toJson F)).toList] := by
  obtain ⟨ds, hds⟩ := hF.braces (m.members F)
  rw [← Message.toJson] at hds
  have hline : utf8 cs ++ recordOf F m =
      utf8 (String.ofList cs ++ F.toString (m.toJson F)).toList ++ [newline] := by
    rw [recordOf, record, String.toList_append, String.toList_ofList, utf8_append,
      List.append_assoc]
  have hstrip : stripReturn (utf8 (String.ofList cs ++ F.toString (m.toJson F)).toList) =
      utf8 (String.ofList cs ++ F.toString (m.toJson F)).toList := by
    -- the line ends with a brace
    rw [stripReturn, if_neg]
    rw [String.toList_append, hds, ← List.append_assoc, utf8_append,
      List.getLast?_append_of_ne_nil _ (by decide)]
    decide
  rw [hline, readLines, readLinesFrom_append_newline, List.nil_append, hstrip]
  · rfl
  · rw [String.toList_append, String.toList_ofList, utf8_append, List.mem_append, not_or]
    exact ⟨hnl, newline_notMem_toJson hF m⟩

/-- A record after nothing but blanks loads as its message. -/
theorem recordsIn_blank_record (hF : F.Faithful) {cs : List Char}
    (h : ∀ c ∈ cs, Json.isBlank c = true) (hnl : newline ∉ utf8 cs) (m : Message) :
    recordsIn F (utf8 cs ++ recordOf F m) = [m] := by
  have hblank : (trim (String.ofList cs ++ F.toString (m.toJson F))).isEmpty = false := by
    obtain ⟨ds, hds⟩ := hF.braces (m.members F)
    rw [← Message.toJson] at hds
    rw [Bool.eq_false_iff, ne_eq, trim_isEmpty_iff]
    intro h
    have := h '{' (by simp [hds])
    exact absurd this (by decide)
  have hparse : Message.fromJsonl F (String.ofList cs ++ F.toString (m.toJson F)) = .ok m := by
    rw [Message.fromJsonl, hF.leadingBlank _ _ (by simpa using h)]
    exact Message.fromJsonl_toJsonl hF m
  rw [recordsIn, readLines_append_recordOf hF hnl, loadLines_utf8_cons, hblank, hparse]
  rfl

/-- Opening a file of valid UTF-8 loads its records. -/
theorem open_log_of_text {disk : Disk} {path : Path} (h : IsText (contentAt disk path)) :
    ∃ skipped, PartitionLog.open F none path disk =
      (.ok ⟨path, .attached, sortById (recordsIn F (contentAt disk path)), skipped⟩,
        touch disk path) := by
  obtain ⟨r, hr⟩ := exists_loadLines (F := F) fun l => h.of_mem_readLines
  exact ⟨r.2, by simp only [PartitionLog.open, recordsIn, hr]; rfl⟩

theorem sortById_eq {ms : List Message} (h : ms.Pairwise fun a b => a.id < b.id) :
    sortById ms = ms :=
  List.Pairwise.insertionSort_eq (h.imp fun hlt => le_of_lt hlt)

/-! ## Synced worlds -/

structure Synced (F : Formats) (stateDir : Path) (name : PartitionName) (w : World) : Prop where
  sameName : w.partition.name = name
  path : w.partition.log.path = logPath stateDir name
  attached : w.partition.log.file = .attached
  cursorFile : w.partition.cursorFile = cursorPath stateDir name
  fits : w.partition.log.messages.length ≤ usizeMax.toNat
  records : contentAt w.disk (logPath stateDir name) =
    w.partition.log.messages.flatMap (recordOf F)
  cursors : w.disk[cursorPath stateDir name]? = none ∧ w.partition.cursors = CursorStore.default ∨
    w.disk[cursorPath stateDir name]? =
      some (utf8 (F.toString (w.partition.cursors.toValue F)).toList)

variable {stateDir : Path} {name : PartitionName} {w w' : World}

theorem contentAt_insert_self (disk : Disk) (path : Path) (bytes : Bytes) :
    contentAt (disk.insert path bytes) path = bytes := by
  simp [contentAt]

theorem contentAt_insert_of_ne (disk : Disk) {path path' : Path} (h : path ≠ path')
    (bytes : Bytes) : contentAt (disk.insert path bytes) path' = contentAt disk path' := by
  simp [contentAt, Std.ExtTreeMap.getElem?_insert, h]

/-- What a log opens as when its file holds records. -/
theorem open_log_of_records (hF : F.Faithful) {disk : Disk} {path : Path} {ms : List Message}
    (h : contentAt disk path = ms.flatMap (recordOf F)) :
    PartitionLog.open F none path disk =
      (.ok ⟨path, .attached, sortById ms, 0⟩, touch disk path) := by
  rw [PartitionLog.open, h, loadLines_records hF]

theorem readCursors_of_synced (hF : F.Faithful) {disk : Disk} {path : Path} {cursors : CursorStore}
    (h : disk[path]? = none ∧ cursors = CursorStore.default ∨
      disk[path]? = some (utf8 (F.toString (cursors.toValue F)).toList)) (log : PartitionLog) :
    Partition.readCursors F none log path disk = .ok cursors := by
  rcases h with ⟨hnone, rfl⟩ | hsome
  · simp only [Partition.readCursors, hnone]
  · simp only [Partition.readCursors, hsome, decodeUtf8_utf8, String.ofList_toList,
      Partition.loadCursors, CursorStore.fromJsonOrReset, CursorStore.fromJson_toValue hF,
      CursorStore.legacyTriples_toValue hF]
    rfl

/-- **Opening a synced world's directory gives its messages and cursors back.** -/
theorem open_of_synced (hF : F.Faithful) (h : Synced F stateDir name w)
    (hs : w.partition.log.messages.Pairwise fun a b => a.id < b.id) :
    World.open F none stateDir name w.disk =
      .ok ⟨⟨name, ⟨logPath stateDir name, .attached, w.partition.log.messages, 0⟩,
        w.partition.cursors, cursorPath stateDir name, [], ∅, .new, 0⟩,
        touch w.disk (logPath stateDir name)⟩ := by
  have hcursors : (touch w.disk (logPath stateDir name))[cursorPath stateDir name]? =
      w.disk[cursorPath stateDir name]? := by
    simp [touch, Std.ExtTreeMap.getElem?_insert, logPath_ne_cursorPath]
  have hread := readCursors_of_synced hF (hcursors ▸ h.cursors)
  simp only [World.open, Partition.open, Option.bind_none, open_log_of_records hF h.records,
    sortById_eq hs, hread]

/-- A partition as it is opened from a log with these messages, and no cursor file. -/
def Partition.loaded (stateDir : Path) (name : PartitionName) (ms : List Message) : Partition where
  name := name
  log := ⟨logPath stateDir name, .attached, ms, 0⟩
  cursors := .default
  cursorFile := cursorPath stateDir name
  snapped := []
  labels := ∅
  tally := .new
  notify := 0

theorem open_of_records (hF : F.Faithful) {disk : Disk} {ms : List Message}
    (hcontent : contentAt disk (logPath stateDir name) = ms.flatMap (recordOf F))
    (hcursor : disk[cursorPath stateDir name]? = none)
    (hs : ms.Pairwise fun a b => a.id < b.id) : Partition.open F none stateDir name disk =
      (.ok (.loaded stateDir name ms), touch disk (logPath stateDir name)) := by
  have hnone : (touch disk (logPath stateDir name))[cursorPath stateDir name]? = none := by
    simp [touch, Std.ExtTreeMap.getElem?_insert, logPath_ne_cursorPath, hcursor]
  simp only [Partition.open, Option.bind_none, open_log_of_records hF hcontent, sortById_eq hs,
    readCursors_of_synced hF (.inl ⟨hnone, rfl⟩)]
  rfl

end AgentBus
