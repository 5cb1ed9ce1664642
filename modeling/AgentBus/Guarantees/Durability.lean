import AgentBus.Daemon.Replay
import AgentBus.Daemon.Torn

/-!
# Acknowledged appends after a restart

A record's newline is written after it, so an append that follows a torn one
continues the torn line, and neither loads again. `acknowledged_survive` says
that appends which start on a line of their own survive, whatever else fails;
`acknowledged_append_lost` is an append that does not.
-/

namespace AgentBus

open Lib PartitionLog

variable {F : Formats} {path : Path} {c₀ : Bytes} {promised : List Message}

/-! ## Runs of appends -/

structure OpenLog where
  log : PartitionLog
  disk : Disk

structure Appended where
  message : Message
  fault : Option AppendFault
  result : Except Failure Unit

/-- Appends to an opened log, each struck by its fault. -/
def appends (F : Formats) (s₀ : OpenLog) : System OpenLog Appended where
  init s := s = s₀
  step _ s e s' := s.log.append F e.fault s.disk e.message = (e.result, s'.log, s'.disk)

/-- Only blanks follow the last newline. -/
def AtLineStart (content : Bytes) : Prop :=
  ∃ cs, unterminated content = utf8 cs ∧ ∀ c ∈ cs, Json.isBlank c = true

/-- A successful append starts on a line of its own. A failing one that writes anything writes whole
characters, and not into a record that the content `c₀` of the start left without its newline. -/
def SafeAppend (F : Formats) (path : Path) (c₀ : Bytes) (s : OpenLog) (e : Appended) : Prop :=
  match e.fault with
  | none => AtLineStart (contentAt s.disk path)
  | some fault => written F e.message (some fault) ≠ [] →
      IsText (written F e.message (some fault)) ∧
        (contentAt s.disk path = c₀ → recordsIn F (unterminated c₀) = [])

def acknowledged (es : List Appended) : List Message :=
  es.filterMap fun e => if e.result.isOk then some e.message else none

theorem acknowledged_concat (es : List Appended) (e : Appended) :
    acknowledged (es ++ [e]) = acknowledged es ++ if e.result.isOk then [e.message] else [] := by
  obtain ⟨m, fault, result⟩ := e
  rw [acknowledged, List.filterMap_append]
  cases result <;> rfl

/-! ## Single appends -/

/-- What an append writes, and that only an append without a fault succeeds. -/
theorem append_spec {log log' : PartitionLog} {disk disk' : Disk} {fault : Option AppendFault}
    {m : Message} {r : Except Failure Unit} (hfile : log.file = .attached)
    (h : log.append F fault disk m = (r, log', disk')) :
    log'.path = log.path ∧ log'.file = .attached ∧
      contentAt disk' log.path = contentAt disk log.path ++ written F m fault ∧
      (r.isOk = true → fault = none) := by
  have hwrite : ∀ bs, log.write disk bs =
    (log, disk.insert log.path (contentAt disk log.path ++ bs)) :=
    fun bs => by simp only [write, hfile]
  cases append_effect h with
  | stored =>
    simp only [hwrite]
    exact ⟨trivial, hfile, contentAt_insert_self .., fun _ => trivial⟩
  | failed =>
    simp only [hwrite]
    exact ⟨trivial, hfile, contentAt_insert_self .., fun hok => absurd hok Bool.false_ne_true⟩

theorem isText_recordOf (m : Message) : IsText (recordOf F m) :=
  ⟨(F.toString (m.toJson F)).toList ++ ['\n'], by rw [utf8_append]; rfl⟩

theorem terminated_append_recordOf (xs : Bytes) (m : Message) : Terminated (xs ++ recordOf F m) :=
  .inr ⟨xs ++ utf8 (F.toString (m.toJson F)).toList, by rw [recordOf, record, List.append_assoc]⟩

theorem mem_recordsIn_append_recordOf (hF : F.Faithful) {content : Bytes} (htext : IsText content)
    (hstart : AtLineStart content) (m : Message) :
    m ∈ recordsIn F (content ++ recordOf F m) ∧
      ∀ m' ∈ recordsIn F content, m' ∈ recordsIn F (content ++ recordOf F m) := by
  obtain ⟨ls, cs, rfl, hls, hlstext, hnl, hlast⟩ := htext.exists_terminated
  obtain ⟨ds, hds, hblank⟩ := hstart
  obtain rfl : cs = ds := utf8_injective (hlast.symm.trans hds)
  have hrest : IsText (utf8 cs ++ recordOf F m) := .append ⟨cs, rfl⟩ (isText_recordOf m)
  rw [List.append_assoc, recordsIn_append hls hlstext hrest, recordsIn_blank_record hF hblank hnl,
    recordsIn_append hls hlstext ⟨cs, rfl⟩, recordsIn_blank hblank hnl, List.append_nil]
  exact ⟨by simp, fun m' hm' => List.mem_append_left _ hm'⟩

/-! ## What survives -/

/-- The promised messages load, and once something was written they load from whole lines. -/
structure Durable (F : Formats) (path : Path) (c₀ : Bytes) (promised : List Message) (s : OpenLog) :
    Prop where
  samePath : s.log.path = path
  attached : s.log.file = .attached
  text : IsText (contentAt s.disk path)
  kept : (contentAt s.disk path = c₀ ∧ ∀ m ∈ promised, m ∈ recordsIn F c₀) ∨
    ∃ ls rest, contentAt s.disk path = ls ++ rest ∧ Terminated ls ∧ IsText ls ∧ IsText rest ∧
      ∀ m ∈ promised, m ∈ recordsIn F ls

theorem Durable.loads {s : OpenLog} (h : Durable F path c₀ promised s) :
    ∀ m ∈ promised, m ∈ recordsIn F (contentAt s.disk path) := by
  rcases h.kept with ⟨heq, hall⟩ | ⟨ls, rest, heq, hls, hlstext, hrest, hall⟩
  · exact heq ▸ hall
  · rw [heq, recordsIn_append hls hlstext hrest]
    exact fun m hm => List.mem_append_left _ (hall m hm)

theorem Durable.mono {s : OpenLog} {fewer : List Message} (h : Durable F path c₀ promised s)
    (hsub : ∀ m ∈ fewer, m ∈ promised) : Durable F path c₀ fewer s := by
  refine ⟨h.samePath, h.attached, h.text, ?_⟩
  rcases h.kept with ⟨heq, hall⟩ | ⟨ls, rest, heq, hls, hlstext, hrest, hall⟩
  · exact .inl ⟨heq, fun m hm => hall m (hsub m hm)⟩
  · exact .inr ⟨ls, rest, heq, hls, hlstext, hrest, fun m hm => hall m (hsub m hm)⟩

theorem Durable.append {s s' : OpenLog} {m : Message} {r : Except Failure Unit} (hF : F.Faithful)
    (h : Durable F path c₀ promised s) (hstart : AtLineStart (contentAt s.disk path))
    (happ : s.log.append F none s.disk m = (r, s'.log, s'.disk)) :
    Durable F path c₀ (promised ++ [m]) s' := by
  obtain ⟨hpath, hfile, hcontent, -⟩ := append_spec h.attached happ
  rw [h.samePath] at hpath hcontent
  obtain ⟨hm, hold⟩ := mem_recordsIn_append_recordOf hF h.text hstart m
  have htext : IsText (contentAt s.disk path ++ recordOf F m) := h.text.append (isText_recordOf m)
  refine ⟨hpath, hfile, hcontent ▸ htext, .inr ⟨contentAt s.disk path ++ recordOf F m, [], ?_,
    terminated_append_recordOf _ m, htext, ⟨[], rfl⟩, ?_⟩⟩
  · rw [hcontent, List.append_nil]
    rfl
  · intro m' hm'
    rcases List.mem_append.mp hm' with hm' | hm'
    · exact hold m' (h.loads m' hm')
    · exact List.mem_singleton.mp hm' ▸ hm

/-- Whole characters that are written keep what was promised, unless they continue a record of the
start. -/
theorem Durable.write {s s' : OpenLog} {bs : Bytes} (h : Durable F path c₀ promised s)
    (hpath : s'.log.path = path) (hfile : s'.log.file = .attached)
    (hcontent : contentAt s'.disk path = contentAt s.disk path ++ bs) (hbs : IsText bs)
    (hlast : contentAt s.disk path = c₀ → recordsIn F (unterminated c₀) = []) :
    Durable F path c₀ promised s' := by
  refine ⟨hpath, hfile, hcontent ▸ h.text.append hbs, .inr ?_⟩
  rcases h.kept with ⟨heq, hall⟩ | ⟨ls, rest, heq, hls, hlstext, hrest, hall⟩
  · -- the first bytes written: what loaded before loads from the whole lines
    obtain ⟨ls, cs, hsplit, hls, hlstext, hnl, hcs⟩ := h.text.exists_terminated
    refine ⟨ls, utf8 cs ++ bs, ?_, hls, hlstext, .append ⟨cs, rfl⟩ hbs, fun m' hm' => ?_⟩
    · rw [hcontent, hsplit, List.append_assoc]
    · have hm' := hall m' hm'
      rw [← heq, hsplit, recordsIn_append hls hlstext ⟨cs, rfl⟩, ← hcs, heq, hlast heq,
        List.append_nil] at hm'
      exact hm'
  · exact ⟨ls, rest ++ bs, by rw [hcontent, heq, List.append_assoc], hls, hlstext,
      hrest.append hbs, hall⟩

theorem Durable.fail {s s' : OpenLog} {m : Message} {fault : AppendFault} {r : Except Failure Unit}
    (h : Durable F path c₀ promised s)
    (hsafe : written F m (some fault) ≠ [] → IsText (written F m (some fault)) ∧
      (contentAt s.disk path = c₀ → recordsIn F (unterminated c₀) = []))
    (happ : s.log.append F (some fault) s.disk m = (r, s'.log, s'.disk)) :
    Durable F path c₀ promised s' := by
  obtain ⟨hpath, hfile, hcontent, -⟩ := append_spec h.attached happ
  rw [h.samePath] at hpath hcontent
  by_cases hnil : written F m (some fault) = []
  · rw [hnil, List.append_nil] at hcontent
    exact ⟨hpath, hfile, hcontent ▸ h.text, hcontent ▸ h.kept⟩
  · obtain ⟨hwritten, hlast⟩ := hsafe hnil
    exact h.write hpath hfile hcontent hwritten hlast

/-- Safe appends keep what was promised, and add what they acknowledge. -/
theorem durable_of_exec (hF : F.Faithful) {s₀ s : OpenLog} {es : List Appended}
    (h₀ : Durable F path c₀ promised s₀)
    (h : Exec ((appends F s₀).restrict (SafeAppend F path c₀)) es s) :
    Durable F path c₀ (promised ++ acknowledged es) s := by
  refine h.invariant (I := fun es s => Durable F path c₀ (promised ++ acknowledged es) s)
    (fun s hs => ?_) fun es s e s' _ ih hstep => ?_
  · obtain rfl : s = s₀ := hs
    exact h₀.mono fun m hm => by simpa [acknowledged] using hm
  · obtain ⟨hsafe, happ⟩ := hstep
    obtain ⟨m, fault, result⟩ := e
    rw [acknowledged_concat, ← List.append_assoc]
    cases fault with
    | none =>
      refine (ih.append hF hsafe happ).mono fun m' hm' => ?_
      rcases List.mem_append.mp hm' with hm' | hm'
      · exact List.mem_append_left _ hm'
      · split at hm'
        · exact List.mem_append_right _ hm'
        · cases hm'
    | some fault =>
      have hfailed : result.isOk = false := by
        rw [Bool.eq_false_iff]
        intro hok
        cases (append_spec ih.attached happ).2.2.2 hok
      rw [hfailed, if_neg Bool.false_ne_true, List.append_nil]
      exact ih.fail hsafe happ

theorem Durable.open {s : OpenLog} (h : Durable F path c₀ promised s) :
    ∃ log' disk', PartitionLog.open F none path s.disk = (.ok log', disk') ∧
      ∀ m ∈ promised, m ∈ log'.messages := by
  obtain ⟨skipped, hopen⟩ := open_log_of_text (F := F) h.text
  exact ⟨_, _, hopen, fun m hm => (List.mem_insertionSort _).mpr (h.loads m hm)⟩

/-- **After safe appends a restart loads every message that was loaded or acknowledged before.** -/
theorem acknowledged_survive (hF : F.Faithful) {disk disk₀ : Disk} {log₀ : PartitionLog}
    {es : List Appended} {s : OpenLog} (htext : IsText (contentAt disk path))
    (hopen : PartitionLog.open F none path disk = (.ok log₀, disk₀))
    (h : Exec ((appends F ⟨log₀, disk₀⟩).restrict (SafeAppend F path (contentAt disk path))) es s) :
    ∃ log' disk', PartitionLog.open F none path s.disk = (.ok log', disk') ∧
      ∀ m ∈ log₀.messages ++ acknowledged es, m ∈ log'.messages := by
  obtain ⟨skipped, hload⟩ := open_log_of_text (F := F) htext
  rw [hopen] at hload
  obtain ⟨hlog, rfl⟩ := Prod.mk.inj hload
  obtain rfl := Except.ok.inj hlog
  refine (durable_of_exec hF ⟨rfl, rfl, ?_, .inl ⟨?_, fun m hm => ?_⟩⟩ h).open
  · rwa [touch, contentAt_insert_self]
  · rw [touch, contentAt_insert_self]
  · simpa [sortById] using hm

/-! ## Two appends to a new file -/

theorem take_one_recordOf (hF : F.Faithful) (m : Message) : (recordOf F m).take 1 = utf8 ['{'] := by
  obtain ⟨cs, hcs⟩ := hF.braces (m.members F)
  rw [recordOf, record, Message.toJson, hcs]
  rfl

def samplePath : Path := logPath "/state" sampleName

/-- A new file's log. -/
def newLog : OpenLog := ⟨⟨samplePath, .attached, [], 0⟩, touch ∅ samplePath⟩

theorem newLog_path : newLog.log.path = samplePath := rfl

theorem open_newLog :
    PartitionLog.open .reference none samplePath ∅ = (.ok newLog.log, newLog.disk) := by
  have hempty : contentAt ∅ samplePath = [].flatMap (recordOf .reference) := by simp [contentAt]
  exact open_log_of_records Formats.reference_faithful hempty

theorem contentAt_newLog : contentAt newLog.disk samplePath = [] := by
  simp [newLog, touch, contentAt]

theorem contentAt_first {m : Message} {fault : Option AppendFault} {r : Except Failure Unit}
    {s : OpenLog} (h : newLog.log.append .reference fault newLog.disk m = (r, s.log, s.disk)) :
    contentAt s.disk samplePath = written .reference m fault := by
  have hcontent := (append_spec rfl h).2.2.1
  rw [newLog_path, contentAt_newLog, List.nil_append] at hcontent
  exact hcontent

theorem exists_two_appends (m₁ m₂ : Message) (f₁ f₂ : Option AppendFault) : ∃ r₁ r₂ s₁ s₂,
    newLog.log.append .reference f₁ newLog.disk m₁ = (r₁, OpenLog.log s₁, OpenLog.disk s₁) ∧
    s₁.log.append .reference f₂ s₁.disk m₂ = (r₂, OpenLog.log s₂, OpenLog.disk s₂) :=
  ⟨_, _, ⟨_, _⟩, ⟨_, _⟩, rfl, rfl⟩

/-- The first append succeeds, the second is torn after a byte. -/
theorem acknowledged_survive_torn_later : ∃ es s log' disk',
    Exec ((appends .reference newLog).restrict (SafeAppend .reference samplePath [])) es s ∧
    es.map (fun e => (e.message, e.fault)) =
      [(sampleMessage 1 devTopic, none), (sampleMessage 2 devTopic, some (.write 1))] ∧
    PartitionLog.open .reference none samplePath s.disk = (.ok log', disk') ∧
    sampleMessage 1 devTopic ∈ log'.messages := by
  have hF := Formats.reference_faithful
  generalize sampleMessage 1 devTopic = m₁
  generalize sampleMessage 2 devTopic = m₂
  obtain ⟨r₁, r₂, s₁, s₂, happ₁, happ₂⟩ := exists_two_appends m₁ m₂ none (some (.write 1))
  have hok : r₁ = .ok () := congrArg Prod.fst (happ₁.symm.trans (append_of_room rfl m₁ (by decide)))
  have hcontent : contentAt s₁.disk samplePath = recordOf .reference m₁ := by
    rw [contentAt_first happ₁, written]
  have hfirst : SafeAppend .reference samplePath [] newLog ⟨m₁, none, r₁⟩ :=
    ⟨[], by rw [contentAt_newLog]; rfl, by simp⟩
  have hsecond : SafeAppend .reference samplePath [] s₁ ⟨m₂, some (.write 1), r₂⟩ := by
    refine fun _ => ⟨⟨['{'], take_one_recordOf hF m₂⟩, fun hnil => ?_⟩
    have := take_one_recordOf hF m₁
    rw [← hcontent, hnil] at this
    cases this
  have hrun : Exec ((appends .reference newLog).restrict (SafeAppend .reference samplePath []))
      ([] ++ [⟨m₁, none, r₁⟩] ++ [⟨m₂, some (.write 1), r₂⟩]) s₂ :=
    .step (.step (.init rfl) ⟨hfirst, happ₁⟩) ⟨hsecond, happ₂⟩
  have hempty : contentAt ∅ samplePath = [] := by simp [contentAt]
  rw [← hempty] at hrun
  obtain ⟨log', disk', hopen, hall⟩ := acknowledged_survive hF ⟨[], hempty⟩ open_newLog hrun
  refine ⟨_, s₂, log', disk', hempty ▸ hrun, rfl, hopen, hall m₁ ?_⟩
  simp [acknowledged, hok, Except.isOk, Except.toBool]

/-- The first append is torn after a byte, the second succeeds and goes on with its line. -/
theorem acknowledged_append_lost : ∃ es s log' disk',
    Exec (appends .reference newLog) es s ∧
    es.map (fun e => (e.message, e.fault)) =
      [(sampleMessage 1 devTopic, some (.write 1)), (sampleMessage 2 devTopic, none)] ∧
    acknowledged es = [sampleMessage 2 devTopic] ∧
    PartitionLog.open .reference none samplePath s.disk = (.ok log', disk') ∧
    log'.messages = [] := by
  have hF := Formats.reference_faithful
  generalize sampleMessage 1 devTopic = m₁
  generalize sampleMessage 2 devTopic = m₂
  obtain ⟨r₁, r₂, s₁, s₂, happ₁, happ₂⟩ := exists_two_appends m₁ m₂ (some (.write 1)) none
  obtain ⟨hpath₁, hfile₁, -, hfault₁⟩ := append_spec rfl happ₁
  obtain ⟨e, rfl⟩ : ∃ e, r₁ = .error e := by
    cases r₁ with
    | ok _ => cases hfault₁ rfl
    | error e => exact ⟨e, rfl⟩
  have hmessages : s₁.log.messages = [] := by
    have := congrArg (fun r => r.2.1.messages) happ₁
    simpa [append, Message.toJsonl, newLog] using this.symm
  have hok : r₂ = .ok () := by
    have hroom : s₁.log.messages.length < usizeMax.toNat := by rw [hmessages]; decide
    exact congrArg Prod.fst (happ₂.symm.trans (append_of_room hfile₁ m₂ hroom))
  have hcontent : contentAt s₂.disk samplePath = utf8 ['{'] ++ recordOf .reference m₂ := by
    have := (append_spec hfile₁ happ₂).2.2.1
    rw [hpath₁, newLog_path, contentAt_first happ₁] at this
    exact this.trans (congrArg (· ++ recordOf .reference m₂) (take_one_recordOf hF m₁))
  have htext : IsText (contentAt s₂.disk samplePath) :=
    hcontent ▸ .append ⟨['{'], rfl⟩ (isText_recordOf m₂)
  obtain ⟨skipped, hopen⟩ := open_log_of_text (F := .reference) htext
  have hrun : Exec (appends .reference newLog)
      ([] ++ [⟨m₁, some (.write 1), .error e⟩] ++ [⟨m₂, none, r₂⟩]) s₂ :=
    .step (.step (.init rfl) happ₁) happ₂
  refine ⟨_, s₂, _, _, hrun, rfl, ?_, hopen, ?_⟩
  · rw [hok]
    rfl
  · have hbegun : ∃ c ∈ ['{'], Json.isBlank c = false := ⟨'{', List.mem_singleton_self _, rfl⟩
    rw [hcontent, recordsIn_runOn hF Formats.reference_rejectsRunOn (by decide) hbegun]
    rfl

end AgentBus
