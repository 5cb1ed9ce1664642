import AgentBus.Cli.Commands
import AgentBus.Guarantees.Sessions

/-!
# What a command makes of its session

A command sends one line and reads what comes. Whatever else the daemon does, the
command understands every word of it: what it prints and how it ends are given by
the frames of its connection (`commands_conclude`).
-/

namespace AgentBus

open Lib

variable {F : Formats} {threshold : Nat} {stateDir socket : Path} {text : BusError → String}

/-! ## Sessions of one request -/

/-- The sessions in which nothing but `q` is read. -/
inductive Request.Course (socket : Path) : Request → List Frame → Prop where
  | unread {q : Request} : Course socket q []
  | unanswered {q : Request} {r : Readings} : Course socket q [.request q r]
  | answered {q : Request} {r : Readings} {response : Response} : q.Answered socket r response →
      Course socket q [.request q r, .answer (.response response)]
  | stopped {r : Readings} : Course socket .stop [.request .stop r, .answer (.response .ok)]
  | following {pattern label : String} {r : Readings} {batches : List (List Message)} :
      Streamed pattern batches → Course socket (.follow pattern label)
        (.request (.follow pattern label) r :: batches.map .batch)
  | broken {pattern label : String} {r : Readings} {batches : List (List Message)}
      {e : Option BusError} :
      Streamed pattern batches → Course socket (.follow pattern label)
        (.request (.follow pattern label) r :: batches.map .batch ++ [.answer (.followFailed e)])

theorem Streamed.take {pattern : String} {batches : List (List Message)}
    (h : Streamed pattern batches) (n : Nat) : Streamed pattern (batches.take n) :=
  fun batch hbatch => h batch (List.mem_of_mem_take hbatch)

theorem opens_of_exchange {x : List Frame}
    (h : (dialogue socket).exchange x ∨ (dialogue socket).closing x) :
    ∃ o tail, x = o :: tail ∧ o.inbound.isSome = true := by
  rcases h with h | h
  · cases h with
    | malformed => exact ⟨_, _, rfl, rfl⟩
    | answered _ => exact ⟨_, _, rfl, rfl⟩
  · cases h with
    | stopped => exact ⟨_, _, rfl, rfl⟩
    | followed _ => exact ⟨_, _, rfl, rfl⟩

/-- What is read of an exchange is the line that it begins with. -/
theorem request_of_inbound {q q' : Request} {r : Readings} {fs : List Frame}
    (h : (Frame.request q' r :: fs).filterMap Frame.inbound <+: [.request q]) : q' = q := by
  simp only [List.filterMap_cons, Frame.inbound, List.cons_prefix_cons] at h
  exact Protocol.Inbound.request.inj h.1

theorem prefix_pair {f g : Frame} {fs : List Frame} (h : fs <+: [f, g]) :
    fs = [] ∨ fs = [f] ∨ fs = [f, g] := by
  rcases List.prefix_cons_iff.mp h with rfl | ⟨gs, rfl, hgs⟩
  · exact .inl rfl
  rcases List.prefix_cons_iff.mp hgs with rfl | ⟨hs, rfl, hnil⟩
  · exact .inr (.inl rfl)
  · rw [List.prefix_nil.mp hnil]
    exact .inr (.inr rfl)

theorem course_of_session {q : Request} {fs : List Frame} (h : (dialogue socket).Session fs)
    (hread : fs.filterMap Frame.inbound <+: [.request q]) : q.Course socket fs := by
  have hone : fs.countP (fun f => f.inbound.isSome) ≤ 1 := by
    rw [← List.length_filterMap_eq_countP]
    exact hread.length_le
  rcases h.single (fun x hx => opens_of_exchange hx) hone with rfl | ⟨x, hx, hprefix⟩
  · exact .unread
  rcases hx with hx | hx
  · cases hx with
    | malformed =>
      rcases List.prefix_cons_iff.mp hprefix with rfl | ⟨fs, rfl, -⟩
      · exact .unread
      · simp [Frame.inbound] at hread
    | @answered q' r response hanswered =>
      rcases prefix_pair hprefix with rfl | rfl | rfl
      · exact .unread
      all_goals obtain rfl := request_of_inbound hread
      · exact .unanswered
      · exact .answered hanswered
  · cases hx with
    | @stopped r =>
      rcases prefix_pair hprefix with rfl | rfl | rfl
      · exact .unread
      all_goals obtain rfl := request_of_inbound hread
      · exact .unanswered
      · exact .stopped
    | @followed pattern label r batches e hstreamed =>
      rcases List.prefix_cons_iff.mp hprefix with rfl | ⟨fs, rfl, hfs⟩
      · exact .unread
      obtain rfl := request_of_inbound hread
      rcases List.prefix_concat_iff.mp hfs with rfl | hfs
      · exact .broken hstreamed
      · rw [List.prefix_iff_eq_take, ← List.map_take] at hfs
        rw [hfs]
        exact .following (hstreamed.take _)

/-! ## What is read and written -/

theorem inbound_line_request (hF : F.Faithful) (hN : F.FaithfulNumbers) {q : Request}
    (h : Protocol.request.Fits q) :
    Protocol.inbound F (readLines (Protocol.line F Protocol.request q)) = [.request q] := by
  have hok := Protocol.Piece.sent_ok (t := Protocol.requests) (by decide)
    (Protocol.decode F Protocol.request) h
  have hline : (Protocol.Piece.sent Protocol.requests q).bytes F =
    Protocol.line F Protocol.request q :=
    Protocol.Piece.bytes_sent F _ q
  have hpiece : Protocol.inbound F
    (readLines ((Protocol.Piece.sent Protocol.requests q).bytes F ++ [])) = _ :=
    Protocol.inbound_frame hF hN hok
  rwa [List.append_nil, hline] at hpiece

section Client

variable {hF : F.Faithful} {out : Cli.Output}

theorem readOptional_line_response (hN : F.FaithfulNumbers) {r : Protocol.Response}
    (h : (Protocol.response F hF).Fits r) (bs : Bytes) :
    Protocol.readOptional F hF (readLines (Protocol.line F (Protocol.response F hF) r ++ bs)) =
      (.ok (some r), readLines bs) := by
  have hdepth : ∀ v ∈ (Protocol.responses F hF).variants, v.fields.depth ≤ 126 :=
    fun v hv => (Protocol.responses_depth F hF v hv).trans (by decide)
  have hline : (Protocol.Piece.sent (Protocol.responses F hF) r).bytes F =
      Protocol.line F (Protocol.response F hF) r := Protocol.Piece.bytes_sent F _ r
  rw [← hline]
  exact Protocol.readOptional_frame hN (Protocol.Piece.sent_ok hdepth (fun _ => none) h)

end Client

/-! ## Outcomes -/

/-- A command and the request that it sends. -/
inductive Cli.Command.Sends : Cli.Command → Request → Prop where
  | daemon {pattern : String} : Sends (.daemon pattern) (.ensure pattern)
  | post {topic priority body : String} {message sender : Option String} {broadcast : Bool} :
      Sends (.post topic message priority sender broadcast)
        (.post topic body (if priority == "high" then .high else .normal) sender broadcast)
  | wait {pattern : String} {asId : Option String} {secs : Nat} :
      Sends (.wait pattern asId secs) (.wait pattern (Cli.subscriberId asId pattern) (some secs))
  | read {pattern : String} {asId : Option String} :
      Sends (.read pattern asId) (.read pattern (Cli.subscriberId asId pattern))
  | follow {pattern : String} {asId : Option String} :
      Sends (.follow pattern asId) (.follow pattern (Cli.subscriberId asId pattern))
  | history {pattern : String} {sinceSecs : Option Nat} :
      Sends (.history pattern sinceSecs) (.history pattern sinceSecs)
  | status : Sends .status .status
  | stop : Sends .stop .stop

theorem sends_of_request {cmd : Cli.Command} {stdin : Option String} {q : Request}
    (h : cmd.request stdin = .ok q) : cmd.Sends q := by
  cases cmd with
  | post topic message priority sender broadcast =>
    rw [Cli.Command.request] at h
    split at h
    · cases h
    · cases h
      exact .post
  | daemon => cases h; exact .daemon
  | wait => cases h; exact .wait
  | read => cases h; exact .read
  | follow => cases h; exact .follow
  | history => cases h; exact .history
  | status => cases h; exact .status
  | stop => cases h; exact .stop

variable (F) in
/-- What a response is worth on standard output. -/
def Cli.lines (out : Cli.Output) : Protocol.Response → List String
  | .ok => Cli.printStopped F out
  | .ensured partition alreadyRunning => Cli.printEnsured F out partition alreadyRunning
  | .posted id ts => Cli.printPosted F out id ts
  | .messages ms => Cli.printMessages F out ms
  | .timeout => Cli.printTimeout F out
  | .status status =>
    Cli.printStatus out status ++ if out.json then [] else ["  log:    " ++ out.daemonLogPath]
  | .metrics _ => []
  | .error _ => []

/-- How a command ends that gets this response. -/
def Cli.ending : Protocol.Response → Except Cli.Error Cli.ExitCode
  | .timeout => .ok .timeout
  | .error message => .error (.reported message)
  | _ => .ok .success

variable (F) in
/-- **What comes of a request**, given what passed over its connection. -/
inductive Concluded (out : Cli.Output) (text : BusError → String) (socket : Path) :
    Request → List Frame → Cli.Outcome → Prop where
  | unread {q : Request} : Concluded out text socket q [] (.failed .closed)
  | unanswered {q : Request} {r : Readings} :
      Concluded out text socket q [.request q r] (.failed .closed)
  | answered {q : Request} {r : Readings} {response : Response} : q.Answered socket r response →
      Concluded out text socket q [.request q r, .answer (.response response)]
        ⟨Cli.lines F out (response.wire F text), Cli.ending (response.wire F text)⟩
  | stopped {r : Readings} : Concluded out text socket .stop
      [.request .stop r, .answer (.response .ok)]
      ⟨Cli.printStopped F out, .ok .success⟩
  | following {pattern label : String} {r : Readings} {batches : List (List Message)} :
      Streamed pattern batches → batches ≠ [] → Concluded out text socket (.follow pattern label)
        (.request (.follow pattern label) r :: batches.map .batch)
        ⟨batches.flatMap (Cli.printMessages F out), .error .followClosed⟩
  | broken {pattern label reason : String} {r : Readings} {batches : List (List Message)}
      {e : Option BusError} :
      Streamed pattern batches → Concluded out text socket (.follow pattern label)
        (.request (.follow pattern label) r :: batches.map .batch ++ [.answer (.followFailed e)])
        ⟨batches.flatMap (Cli.printMessages F out),
          .error (.reported ("follow failed: " ++ reason))⟩

/-- The exit code tells what came of it: success only with an answer, the code of a timeout only to
a wait, and never the one of a daemon that is not there. -/
theorem Concluded.exits {out : Cli.Output} {text : BusError → String} {socket : Path} {q : Request}
    {fs : List Frame} {o : Cli.Outcome} (h : Concluded F out text socket q fs o) :
    (Cli.exitCode o.result = .success → ∃ r response,
      fs = [.request q r, .answer (.response response)]) ∧
      (Cli.exitCode o.result = .timeout → ∃ pattern label timeoutSecs,
        q = .wait pattern label timeoutSecs) ∧
      Cli.exitCode o.result ≠ .unavailable := by
  cases h with
  | unread | unanswered | following _ _ | broken _ => simp [Cli.exitCode, Cli.Outcome.failed]
  | @answered q r response hanswered =>
    refine ⟨fun _ => ⟨r, response, rfl⟩, ?_⟩
    cases hanswered <;> simp [Cli.exitCode, Response.wire, Cli.ending]
  | @stopped r => exact ⟨fun _ => ⟨r, .ok, rfl⟩, by simp [Cli.exitCode]⟩

/-- A response that fits the request is never unexpected. -/
theorem conclude_answered {out : Cli.Output} {cmd : Cli.Command} {q : Request} {r : Readings}
    {response : Response} (hq : cmd.Sends q) (h : q.Answered socket r response) :
    Cli.conclude F out cmd (response.wire F text) =
      ⟨Cli.lines F out (response.wire F text), Cli.ending (response.wire F text)⟩ := by
  cases h with
  | failed _ => cases hq <;> rfl
  | metrics _ => cases hq
  | _ => cases hq; rfl

section Client

variable {hF : F.Faithful} {out : Cli.Output}

theorem fits_messages (ms : List Message) : (Protocol.response F hF).Fits (.messages ms) :=
  ⟨fun _ _ => trivial, trivial⟩

theorem followFrom_batches (hN : F.FaithfulNumbers) (ms : List Message)
    (batches : List (List Message)) {bs : Bytes} {result : Except Cli.Error Cli.ExitCode}
    (h : ∀ ms, Cli.followFrom F hF out (.messages ms) (readLines bs) =
      ⟨Cli.printMessages F out ms, result⟩) :
    Cli.followFrom F hF out (.messages ms) (readLines
        ((batches.map .messages).flatMap (Protocol.line F (Protocol.response F hF)) ++ bs)) =
      ⟨(ms :: batches).flatMap (Cli.printMessages F out), result⟩ := by
  induction batches generalizing ms with
  | nil => simpa using h ms
  | cons b batches ih =>
    rw [List.map_cons, List.flatMap_cons, List.append_assoc,
      Cli.followFrom_next (readOptional_line_response hN (fits_messages b) _), ih]
    rfl

theorem run_batches (hN : F.FaithfulNumbers) {pattern : String} {asId : Option String}
    (ms : List Message) (batches : List (List Message)) {bs : Bytes}
    {result : Except Cli.Error Cli.ExitCode}
    (h : ∀ ms, Cli.followFrom F hF out (.messages ms) (readLines bs) =
      ⟨Cli.printMessages F out ms, result⟩) :
    Cli.run F hF out (.follow pattern asId) (readLines
        (((ms :: batches).map .messages).flatMap
          (Protocol.line F (Protocol.response F hF)) ++ bs)) =
      ⟨(ms :: batches).flatMap (Cli.printMessages F out), result⟩ := by
  rw [List.map_cons, List.flatMap_cons, List.append_assoc, Cli.run, Cli.response,
    readOptional_line_response hN (fits_messages ms)]
  exact followFrom_batches hN ms batches h

theorem run_followed (hN : F.FaithfulNumbers) {pattern : String} {asId : Option String}
    {batches : List (List Message)} (hne : batches ≠ []) :
    Cli.run F hF out (.follow pattern asId)
        (readLines ((batches.map .messages).flatMap (Protocol.line F (Protocol.response F hF)))) =
      ⟨batches.flatMap (Cli.printMessages F out), .error .followClosed⟩ := by
  cases batches with
  | nil => exact absurd rfl hne
  | cons b batches =>
    have hend : ∀ ms, Cli.followFrom F hF out (.messages ms) (readLines []) =
        ⟨Cli.printMessages F out ms, .error .followClosed⟩ := fun ms => Cli.followFrom_end rfl
    rw [← run_batches hN b batches hend, List.append_nil]

theorem run_broken (hN : F.FaithfulNumbers) {pattern message : String} {asId : Option String}
    (batches : List (List Message)) :
    Cli.run F hF out (.follow pattern asId) (readLines
        ((batches.map Protocol.Response.messages ++ [Protocol.Response.error message]).flatMap
          (Protocol.line F (Protocol.response F hF)))) =
      ⟨batches.flatMap (Cli.printMessages F out), .error (.reported message)⟩ := by
  have hfits : (Protocol.response F hF).Fits (.error message) := ⟨trivial, trivial⟩
  have herror := readOptional_line_response hN hfits []
  rw [List.append_nil] at herror
  rw [List.flatMap_append, List.flatMap_singleton]
  cases batches with
  | nil =>
    rw [List.map_nil, List.flatMap_nil, List.nil_append, Cli.run, Cli.response, herror]
    exact Cli.followFrom_error message
  | cons b batches =>
    have hend : ∀ ms, Cli.followFrom F hF out (.messages ms)
        (readLines (Protocol.line F (Protocol.response F hF) (.error message))) =
          ⟨Cli.printMessages F out ms, .error (.reported message)⟩ := by
      intro ms
      rw [Cli.followFrom_next herror, Cli.followFrom_error, Cli.Outcome.after, Cli.Outcome.failed,
        List.append_nil]
    exact run_batches hN b batches hend

theorem run_response (hN : F.FaithfulNumbers) {cmd : Cli.Command} {q : Request} {r : Readings}
    {response : Response} (hq : cmd.Sends q) (h : q.Answered socket r response)
    (hfits : (Protocol.response F hF).Fits (response.wire F text)) :
    Cli.run F hF out cmd
      (readLines (Protocol.line F (Protocol.response F hF) (response.wire F text))) =
        ⟨Cli.lines F out (response.wire F text), Cli.ending (response.wire F text)⟩ := by
  have hread := readOptional_line_response hN hfits []
  rw [List.append_nil] at hread
  rw [Cli.run, Cli.response, hread]
  cases hq with
  | follow =>
    -- a follow is answered with an error only
    cases h
    exact Cli.followFrom_error _
  | daemon => exact conclude_answered .daemon h
  | post => exact conclude_answered .post h
  | wait => exact conclude_answered .wait h
  | read => exact conclude_answered .read h
  | history => exact conclude_answered .history h
  | status => exact conclude_answered .status h
  | stop => exact conclude_answered .stop h

end Client

theorem transcribed_batches {batches : List (List Message)} {fs : List Frame}
    {rs : List Protocol.Response} (h : Transcribed F text (batches.map .batch ++ fs) rs) :
    ∃ rs', rs = batches.map .messages ++ rs' ∧ Transcribed F text fs rs' := by
  induction batches generalizing rs with
  | nil => exact ⟨rs, rfl, h⟩
  | cons b batches ih =>
    cases h with
    | batch h =>
      obtain ⟨rs', rfl, hrs'⟩ := ih h
      exact ⟨rs', rfl, hrs'⟩

theorem transcribed_response {response : Response} {rs : List Protocol.Response}
    (h : Transcribed F text [.answer (.response response)] rs) : rs = [response.wire F text] := by
  cases h with
  | answer hwritten hnil =>
    cases hwritten
    cases hnil
    rfl

theorem concluded_of_course (hF : F.Faithful) (hN : F.FaithfulNumbers) {out : Cli.Output}
    {cmd : Cli.Command} {q : Request} (hsends : cmd.Sends q) {fs : List Frame}
    (hcourse : q.Course socket fs) {rs : List Protocol.Response} (hrs : Transcribed F text fs rs)
    (hfits : ∀ r ∈ rs, (Protocol.response F hF).Fits r) :
    Concluded F out text socket q fs
      (Cli.run F hF out cmd
        (readLines (rs.flatMap (Protocol.line F (Protocol.response F hF))))) := by
  cases hcourse with
  | unread =>
    cases hrs
    exact .unread
  | unanswered =>
    cases hrs with
    | request hrs =>
      cases hrs
      exact .unanswered
  | answered hanswered =>
    cases hrs with
    | request hrs =>
      obtain rfl := transcribed_response hrs
      rw [List.flatMap_singleton, run_response hN hsends hanswered (hfits _ List.mem_cons_self)]
      exact .answered hanswered
  | stopped =>
    cases hrs with
    | request hrs =>
      obtain rfl := transcribed_response hrs
      cases hsends
      have hresponse := readOptional_line_response hN (hfits _ List.mem_cons_self) []
      rw [List.append_nil] at hresponse
      rw [List.flatMap_singleton, Cli.run, Cli.response, hresponse]
      exact .stopped
  | @following pattern label r batches hstreamed =>
    cases hsends
    cases hrs with
    | request hrs =>
      have hbatches : Transcribed F text (batches.map .batch ++ []) rs := by rwa [List.append_nil]
      obtain ⟨rs, rfl, hnil⟩ := transcribed_batches hbatches
      cases hnil
      rw [List.append_nil]
      cases batches with
      | nil => exact .unanswered
      | cons b batches =>
        have hne := List.cons_ne_nil b batches
        rw [run_followed hN hne]
        exact .following hstreamed hne
  | @broken pattern label r batches e hstreamed =>
    cases hsends
    cases hrs with
    | request hrs =>
      obtain ⟨rs, rfl, hanswer⟩ := transcribed_batches hrs
      cases hanswer with
      | answer hwritten hnil =>
        cases hwritten
        cases hnil
        rw [run_broken hN]
        exact .broken hstreamed

/-- The client sends the line of this request and nothing else. -/
theorem course_of_exec (hF : F.Faithful) (hN : F.FaithfulNumbers) {i : Nat}
    {es : List (ServiceEvent × List Frame)} {s : Service}
    (h : Exec (sessions F threshold stateDir i) es s) {q : Request}
    (hsent : Protocol.request.Fits q) (hread : (transcript es).filterMap Frame.inbound <+:
      Protocol.inbound F (readLines (Protocol.line F Protocol.request q))) :
    q.Course (socketPath stateDir) (transcript es) := by
  rw [inbound_line_request hF hN hsent] at hread
  exact course_of_session (conforms_of_exec h).session hread

/-! ## A client that reads -/

/-- One client posts, and another one reads. -/
def readAfterPost : List ServiceEvent :=
  [.accept 0, .accept 1,
    .connection 1 (.request (.post "iot_base/dev_01" "ready" .normal none false) noFaults
    (readingsAt 1)), .connection 1 .sent,
    .connection 0 (.request (.read "iot_base/*" "iot_base/*") noFaults
    (readingsAt 2)), .connection 0 .sent]

/-- What the second client sees. -/
def readerFrames : List (ServiceEvent × List Frame) :=
  watchReplay (Service.next .reference 5400) (fun s e _ => s.frames 0 e) freshService readAfterPost

theorem exec_readerFrames : ∃ s, Exec (sessions .reference 5400 "/state" 0) readerFrames s := by
  have hinit : Exec (sessions .reference 5400 "/state" 0) [] freshService := .init ⟨∅, 0, rfl⟩
  exact Exec.append_watchReplay (M := service .reference 5400 "/state") _ (fun _ _ _ _ hs => hs)
    readAfterPost hinit

/-- A request, and an answer with one message. -/
def isReadOfOne : List Frame → Bool
  | [.request (.read pattern label) _, .answer (.response (.messages [m]))] =>
    pattern == "iot_base/*" && label == "iot_base/*" && m.body == "ready"
  | _ => false

theorem transcript_readerFrames : ∃ r m, m.body = "ready" ∧ transcript readerFrames =
    [.request (.read "iot_base/*" "iot_base/*") r, .answer (.response (.messages [m]))] := by
  have h : isReadOfOne (transcript readerFrames) = true := by decide +kernel
  unfold isReadOfOne at h
  split at h
  · next pattern label r m heq =>
    simp only [Bool.and_eq_true, beq_iff_eq] at h
    obtain ⟨⟨rfl, rfl⟩, hbody⟩ := h
    exact ⟨r, m, hbody, heq⟩
  · cases h

theorem transcribed_readerFrames (text : BusError → String) : ∃ m, m.body = "ready" ∧
    Transcribed .reference text (transcript readerFrames) [.messages [m]] := by
  obtain ⟨r, m, hbody, hfs⟩ := transcript_readerFrames
  refine ⟨m, hbody, ?_⟩
  rw [hfs]
  exact .request (.answer (.response (.messages [m])) .nil)

theorem fits_read (pattern label : String) : Protocol.request.Fits (.read pattern label) :=
  ⟨trivial, trivial, trivial⟩

theorem inbound_readerFrames : (transcript readerFrames).filterMap Frame.inbound <+:
    Protocol.inbound .reference
      (readLines
        (Protocol.line .reference Protocol.request (.read "iot_base/*" "iot_base/*"))) := by
  obtain ⟨r, m, -, hfs⟩ := transcript_readerFrames
  rw [inbound_line_request Formats.reference_faithful Formats.reference_faithfulNumbers
    (fits_read ..), hfs]
  exact List.prefix_refl _

/-! ## Commands and their sessions -/

/-- **A command understands its session**: if the client sends the command's line and nothing else,
then whatever the daemon does, and between whichever lines it is cut off, what the command (one
attempt, if it waits) makes of the bytes is given by the frames. -/
theorem commands_conclude (hF : F.Faithful) (hN : F.FaithfulNumbers) {i : Nat} {out : Cli.Output}
    {es : List (ServiceEvent × List Frame)} {s : Service}
    (h : Exec (sessions F threshold stateDir i) es s) {cmd : Cli.Command} {stdin : Option String}
    {q : Request} (hq : cmd.request stdin = .ok q) (hsent : Protocol.request.Fits q)
    (hread : (transcript es).filterMap Frame.inbound <+:
      Protocol.inbound F (readLines (Protocol.line F Protocol.request q)))
    {rs : List Protocol.Response} (hrs : Transcribed F text (transcript es) rs)
    (hfits : ∀ r ∈ rs, (Protocol.response F hF).Fits r) :
    Concluded F out text (socketPath stateDir) q (transcript es)
      (Cli.run F hF out cmd (readLines (rs.flatMap (Protocol.line F (Protocol.response F hF))))) :=
  concluded_of_course hF hN (sends_of_request hq) (course_of_exec hF hN h hsent hread) hrs hfits

/-- A client reads what another one posted. -/
theorem commands_conclude_read : ∃ (es : List (ServiceEvent × List Frame)) (s : Service)
    (rs : List Protocol.Response), Exec (sessions .reference 5400 "/state" 0) es s ∧ es.length = 6 ∧
    rs.length = 1 ∧ Concluded .reference ⟨true, Formats.reference.toString,
      "/state/daemon.log"⟩ (fun _ => "")
      (socketPath "/state") (.read "iot_base/*" "iot_base/*") (transcript es)
      (Cli.run .reference Formats.reference_faithful ⟨true, Formats.reference.toString,
        "/state/daemon.log"⟩ (.read "iot_base/*" none)
        (readLines (rs.flatMap (Protocol.line .reference
          (Protocol.response .reference Formats.reference_faithful))))) := by
  obtain ⟨s, hs⟩ := exec_readerFrames
  obtain ⟨m, -, hrs⟩ := transcribed_readerFrames fun _ => ""
  have hq : Cli.Command.request none (.read "iot_base/*" none) =
    .ok (.read "iot_base/*" "iot_base/*") := rfl
  exact ⟨readerFrames, s, [.messages [m]], hs, by decide +kernel, rfl,
    commands_conclude Formats.reference_faithful Formats.reference_faithfulNumbers hs hq
      (fits_read ..) inbound_readerFrames hrs (List.forall_mem_singleton.mpr (fits_messages [m]))⟩

/-! ## Machine-readable output -/

variable (F) in
/-- The messages in lines of JSON. -/
def messagesIn (hF : F.Faithful) (stdout : Bytes) : List Message :=
  (readLines stdout).filterMap fun l =>
    (decodeUtf8 l).bind fun cs => Protocol.decode F (Protocol.message F hF) (String.ofList cs)

/-- Requests that messages are delivered to. -/
def Request.delivers : Request → Bool
  | wait .. => true
  | read .. => true
  | follow .. => true
  | history .. => true
  | _ => false

/-- The messages that are written with a frame. -/
def Frame.delivered : Frame → List Message
  | answer (.response (.messages ms)) => ms
  | batch ms => ms
  | _ => []

section Script

variable {hF : F.Faithful} {out : Cli.Output}

theorem messagesIn_line (hN : F.FaithfulNumbers) {j : Json} (h : j.Printable 127) (bs : Bytes) :
    messagesIn F hF ((utf8 (F.toString j).toList ++ [newline]) ++ bs) =
      ((Protocol.message F hF).decode j).toList ++ messagesIn F hF bs := by
  obtain ⟨hnewline, hreturn⟩ := hN.oneLine h
  rw [messagesIn, List.append_assoc, List.singleton_append,
    readLines_cons (newline_notMem_utf8 hnewline) (return_notMem_utf8 hreturn), List.filterMap_cons,
    decodeUtf8_utf8, Option.bind_some, String.ofList_toList, Protocol.decode, hN.fromStr_toString h,
    Option.bind_some]
  cases (Protocol.message F hF).decode j <;> rfl

theorem messagesIn_printMessages (hN : F.FaithfulNumbers) (hjson : out.json = true)
    (ms : List Message) :
    messagesIn F hF ((Cli.printMessages F out ms).flatMap fun l => utf8 l.toList ++ [newline]) =
      ms := by
  induction ms with
  | nil => rfl
  | cons m ms ih =>
    have hprint := ((Protocol.message F hF).printable (a := m) trivial).mono (by decide : 1 ≤ 127)
    have hdecode := (Protocol.message F hF).decode_encode (a := m) trivial
    have hcons : Cli.printMessages F out (m :: ms) = F.toString (m.toJson F) ::
        Cli.printMessages F out ms := by
      rw [Cli.printMessages, List.map_cons, if_pos hjson]
      rfl
    rw [hcons, List.flatMap_cons]
    refine (messagesIn_line hN hprint _).trans ?_
    rw [hdecode, ih]
    rfl

theorem printMessages_flatMap (batches : List (List Message)) :
    batches.flatMap (Cli.printMessages F out) = Cli.printMessages F out batches.flatten := by
  unfold Cli.printMessages
  rw [List.map_flatten, List.flatMap_def]

theorem delivered_batches (batches : List (List Message)) :
    (batches.map Frame.batch).flatMap Frame.delivered = batches.flatten := by
  rw [List.flatMap_map, ← List.flatMap_id]
  rfl

theorem messagesIn_of_printed (hN : F.FaithfulNumbers) (hjson : out.json = true) {o : Cli.Outcome}
    {ms : List Message} (h : o.printed = Cli.printMessages F out ms) :
    messagesIn F hF o.stdout = ms := by
  rw [Cli.Outcome.stdout, h]
  exact messagesIn_printMessages hN hjson ms

theorem recovered_messages (hN : F.FaithfulNumbers) (hjson : out.json = true) {q : Request}
    {r : Readings} {o : Cli.Outcome} {ms : List Message}
    (h : o.printed = Cli.printMessages F out ms) :
    messagesIn F hF o.stdout =
      [Frame.request q r, .answer (.response (.messages ms))].flatMap Frame.delivered := by
  rw [messagesIn_of_printed hN hjson h]
  exact (List.append_nil ms).symm

theorem messagesIn_printTimeout (hN : F.FaithfulNumbers) (hjson : out.json = true) {o : Cli.Outcome}
    (h : o.printed = Cli.printTimeout F out) : messagesIn F hF o.stdout = [] := by
  have hprint : (Json.object [("timeout", .bool true)]).Printable 127 :=
    .object (List.forall_mem_singleton.mpr (.bool true))
  have hprinted : o.printed = [F.toString (.object [("timeout", .bool true)])] :=
    h.trans (if_pos hjson)
  rw [Cli.Outcome.stdout, hprinted, List.flatMap_cons, messagesIn_line hN hprint]
  rfl

theorem Concluded.recovered (hN : F.FaithfulNumbers) (hjson : out.json = true) {q : Request}
    {fs : List Frame} {o : Cli.Outcome} (h : Concluded F out text socket q fs o)
    (hq : q.delivers = true) : messagesIn F hF o.stdout = fs.flatMap Frame.delivered := by
  cases h with
  | unread => rfl
  | unanswered => rfl
  | answered hanswered =>
    cases hanswered with
    | waited => exact recovered_messages hN hjson rfl
    | read => exact recovered_messages hN hjson rfl
    | history => exact recovered_messages hN hjson rfl
    | timeout => exact messagesIn_printTimeout hN hjson rfl
    | failed => rfl
    | _ => cases hq
  | stopped => cases hq
  | @following pattern label r batches _ _ =>
    rw [messagesIn_of_printed hN hjson (printMessages_flatMap batches)]
    exact (delivered_batches batches).symm
  | @broken pattern label reason r batches e _ =>
    rw [messagesIn_of_printed hN hjson (printMessages_flatMap batches), List.cons_append,
      List.flatMap_cons, List.flatMap_append, delivered_batches]
    exact (List.append_nil _).symm

theorem fits_of_delivers {q : Request} {fs : List Frame} (hcourse : q.Course socket fs)
    (hq : q.delivers = true) {rs : List Protocol.Response} (hrs : Transcribed F text fs rs) :
    ∀ r ∈ rs, (Protocol.response F hF).Fits r := by
  have herror : ∀ message, (Protocol.response F hF).Fits (.error message) :=
    fun _ => ⟨trivial, trivial⟩
  cases hcourse with
  | unread =>
    cases hrs
    exact nofun
  | unanswered =>
    cases hrs with
    | request hrs =>
      cases hrs
      exact nofun
  | answered hanswered =>
    cases hrs with
    | request hrs =>
      obtain rfl := transcribed_response hrs
      rw [List.forall_mem_singleton]
      cases hanswered with
      | waited => exact fits_messages _
      | read => exact fits_messages _
      | history => exact fits_messages _
      | timeout => trivial
      | failed => exact herror _
      | _ => cases hq
  | stopped => cases hq
  | @following pattern label r batches =>
    cases hrs with
    | request hrs =>
      rw [← List.append_nil (batches.map Frame.batch)] at hrs
      obtain ⟨rs, rfl, hnil⟩ := transcribed_batches hrs
      cases hnil
      rw [List.append_nil]
      exact List.forall_mem_map.mpr fun b _ => fits_messages b
  | broken =>
    cases hrs with
    | request hrs =>
      obtain ⟨rs, rfl, hanswer⟩ := transcribed_batches hrs
      cases hanswer with
      | answer hwritten hnil =>
        cases hwritten
        cases hnil
        rw [List.forall_mem_append, List.forall_mem_singleton]
        exact ⟨List.forall_mem_map.mpr fun b _ => fits_messages b, herror _⟩

/-- **A script gets the messages.** What a command prints as JSON, read line by line, is what the
daemon wrote on the command's connection, message for message. -/
theorem json_recovers_messages (hF : F.Faithful) (hN : F.FaithfulNumbers)
    (hjson : out.json = true) {i : Nat} {es : List (ServiceEvent × List Frame)} {s : Service}
    (h : Exec (sessions F threshold stateDir i) es s) {cmd : Cli.Command} {stdin : Option String}
    {q : Request} (hq : cmd.request stdin = .ok q) (hdelivers : q.delivers = true)
    (hsent : Protocol.request.Fits q) (hread : (transcript es).filterMap Frame.inbound <+:
      Protocol.inbound F (readLines (Protocol.line F Protocol.request q)))
    {rs : List Protocol.Response} (hrs : Transcribed F text (transcript es) rs) :
    messagesIn F hF
        (Cli.run F hF out cmd
          (readLines (rs.flatMap (Protocol.line F (Protocol.response F hF))))).stdout =
      (transcript es).flatMap Frame.delivered := by
  have hcourse := course_of_exec hF hN h hsent hread
  have hfits : ∀ r ∈ rs, (Protocol.response F hF).Fits r := fits_of_delivers hcourse hdelivers hrs
  exact (concluded_of_course hF hN (sends_of_request hq) hcourse hrs hfits).recovered hN
    hjson hdelivers

/-- The message that another client posted. -/
theorem json_recovers_messages_read : ∃ (es : List (ServiceEvent × List Frame)) (s : Service)
    (m : Message), Exec (sessions .reference 5400 "/state" 0) es s ∧ m.body = "ready" ∧
    messagesIn .reference Formats.reference_faithful (Cli.run .reference Formats.reference_faithful
      ⟨true, Formats.reference.toString, "/state/daemon.log"⟩ (.read "iot_base/*" none)
      (readLines ([.messages [m]].flatMap (Protocol.line .reference
        (Protocol.response .reference Formats.reference_faithful))))).stdout =
      (transcript es).flatMap Frame.delivered := by
  obtain ⟨s, hs⟩ := exec_readerFrames
  obtain ⟨m, hbody, hrs⟩ := transcribed_readerFrames fun _ => ""
  have hq : Cli.Command.request none (.read "iot_base/*" none) =
    .ok (.read "iot_base/*" "iot_base/*") := rfl
  exact ⟨readerFrames, s, m, hs, hbody, json_recovers_messages Formats.reference_faithful
    Formats.reference_faithfulNumbers rfl hs hq rfl (fits_read ..) inbound_readerFrames hrs⟩

end Script

end AgentBus
