import AgentBus.Core.Reference
import AgentBus.Daemon.Torn

/-!
# Opening a log file of any bytes

Opening skips and counts the lines that hold no message. The line reader does
not hand out a line that is not UTF-8, though, and then the whole open fails:
`open_tolerates` says that opening tolerates exactly the texts.
-/

namespace AgentBus

open Lib PartitionLog

variable {F : Formats}

/-! ## What tolerating means -/

/-- The message a line decodes as. -/
def decodedLine (F : Formats) (line : Bytes) : Option Message :=
  (decodeUtf8 line).bind fun cs => (Message.fromJsonl F (String.ofList cs)).toOption

def isBlankLine (line : Bytes) : Bool :=
  (decodeUtf8 line).any fun cs => (trim (String.ofList cs)).isEmpty

/-- Neither a record nor blank. -/
def isCorrupt (F : Formats) (line : Bytes) : Bool :=
  (decodedLine F line).isNone && !isBlankLine line

/-- The file is opened with its records, sorted, and the number of its corrupt lines. -/
def Tolerated (F : Formats) (path : Path) (disk : Disk) (content : Bytes) : Prop :=
  ∃ log disk', PartitionLog.open F none path disk = (.ok log, disk') ∧
    log.messages = sortById ((readLines content).filterMap (decodedLine F)) ∧
    log.skippedRecords = ((readLines content).filter (isCorrupt F)).length

/-! ## Lines -/

theorem isText_of_loadLines {ls : List Bytes} {r : List Message × Nat}
    (h : loadLines F ls = some r) : ∀ l ∈ ls, IsText l := by
  induction ls generalizing r with
  | nil => exact fun l hl => absurd hl List.not_mem_nil
  | cons l ls ih =>
    intro l' hl'
    obtain ⟨cs, r', hcs, hr', -⟩ := loadLines_cons_cases h
    rcases List.mem_cons.mp hl' with rfl | hmem
    · exact ⟨cs, (utf8_of_decodeUtf8 hcs).symm⟩
    · exact ih hr' l' hmem

/-- A blank line decodes as nothing, so blank lines need not be left out. -/
theorem lineRecord_eq (hF : F.RejectsBlank) (line : Bytes) :
    lineRecord F line = decodedLine F line := by
  rw [lineRecord, decodedLine]
  cases decodeUtf8 line with
  | none => rw [Option.bind_none, Option.bind_none]
  | some cs =>
    simp only [Option.bind_some]
    split
    · next hblank =>
      rw [fromJsonl_of_fromStr (hF _ (trim_isEmpty_iff.mp hblank))]
      rfl
    · rfl

theorem skipped_of_loadLines {ls : List Bytes} {r : List Message × Nat}
    (h : loadLines F ls = some r) : r.2 = (ls.filter (isCorrupt F)).length := by
  induction ls generalizing r with
  | nil => cases h; rfl
  | cons l ls ih =>
    obtain ⟨cs, r', hcs, hr', hline⟩ := loadLines_cons_cases h
    have hcount := ih hr'
    rw [List.filter_cons]
    rcases hline with ⟨hblank, rfl⟩ | ⟨hblank, ⟨m, hm, rfl⟩ | ⟨e, he, rfl⟩⟩
    · have hskip : isCorrupt F l = false := by simp [isCorrupt, isBlankLine, hcs, hblank]
      rw [hskip, if_neg Bool.false_ne_true]
      exact hcount
    · have hrecord : isCorrupt F l =
        false := by simp [isCorrupt, decodedLine, hcs, hm, Except.toOption]
      rw [hrecord, if_neg Bool.false_ne_true]
      exact hcount
    · have hcorrupt : isCorrupt F l = true := by
        simp [isCorrupt, decodedLine, isBlankLine, hcs, he, hblank, Except.toOption]
      rw [hcorrupt, if_pos rfl, List.length_cons, ← hcount]

/-! ## Opening -/

/-- **A log file is tolerated exactly if it is a text.** -/
theorem open_tolerates (hF : F.RejectsBlank) {path : Path} {disk : Disk} {content : Bytes}
    (hcontent : disk[path]? = some content) : Tolerated F path disk content ↔ IsText content := by
  have hat : contentAt disk path = content := by simp [contentAt, hcontent]
  constructor
  · rintro ⟨log, disk', hopen, -, -⟩
    rw [PartitionLog.open, hat] at hopen
    cases hload : loadLines F (readLines content) with
    | none => rw [hload] at hopen; cases hopen
    | some r => exact isText_iff_lines.mpr (isText_of_loadLines hload)
  · intro htext
    obtain ⟨r, hr⟩ := exists_loadLines (F := F) (isText_iff_lines.mp htext)
    refine ⟨_, _, by rw [PartitionLog.open, hat, hr], ?_, skipped_of_loadLines hr⟩
    rw [loadLines_eq hr, List.filterMap_congr fun l _ => lineRecord_eq hF l]

/-- A file with a line that is no record and a blank one. -/
theorem open_tolerates_corrupt :
    Tolerated .reference "/state/iot_base.jsonl"
      (Std.ExtTreeMap.insert ∅ "/state/iot_base.jsonl" (utf8 "this is not json\n\n".toList))
      (utf8 "this is not json\n\n".toList) :=
  (open_tolerates Formats.reference_rejectsBlank Std.ExtTreeMap.getElem?_insert_self).mpr ⟨_, rfl⟩

/-- The first byte of a two-byte character, torn from the second. -/
theorem torn_character_not_tolerated : ¬ Tolerated .reference "/state/iot_base.jsonl"
    (Std.ExtTreeMap.insert ∅ "/state/iot_base.jsonl" [0xc3]) [0xc3] := by
  rintro ⟨log, disk', hopen, -, -⟩
  -- the line reader fails on the one line of the file
  have hload : loadLines .reference (readLines [0xc3]) = none := rfl
  rw [PartitionLog.open, contentAt_insert_self, hload] at hopen
  cases hopen

end AgentBus
