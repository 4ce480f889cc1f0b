import StudioWorker.Host.Model

/-!
# Session.Offer — one studio offer, from its checks to its last frame

`handle_offer`, `spawn_reject_offer`, `run_offered_job` and `deliver_result` of
`src/ws/session.rs`.  An offer is turned away, or its task holds the worker's slot: it sends the
accept, runs the engine, hands the result over and only then lets the slot go.  Every send, run and
upload may fail.

* `turnedAway`, `refused`: the checks before the slot is taken.
* `Job.step`: what the task of an offer does at each of its awaits.
* `Job.Sound`: what has been sent at each place of the task; `Job.step_sound` keeps it.
* `Job.Reports`: what the studio is told of an offer, and what it is never told.
-/

namespace StudioWorker.Session

/-! ## The checks -/

inductive RejectCode where
  | busy
  | paused
  | insufficientMemory
deriving DecidableEq

inductive UserPresence where
  | idle
  | active
deriving DecidableEq

/-- The person asked to be left alone while at the computer, and is not known to be away. -/
def holdsBack (onlyWhenIdle : Bool) (presence : Option UserPresence) : Bool :=
  onlyWhenIdle && decide (presence ≠ some .idle)

/-- An offer as `handle_offer` reads it; `prompt` is what `prompt_for` makes of its task. -/
structure JobOfferClaim where
  jobId : String
  model : String
  vramGbEstimate : ℚ
  prompt : String
  modelSource : ModelSource
deriving DecidableEq

/-- The flags the first checks of an offer read. -/
structure OfferFlags where
  paused : Bool
  onlyWhenIdle : Bool
  presence : Option UserPresence
deriving DecidableEq

/-- The checks up to presence, in order: the reason and class of the reject. -/
def turnedAway (flags : OfferFlags) (updatePending : Bool) : Option (String × RejectCode) :=
  if flags.paused then some ("worker paused by operator", .paused)
  else if updatePending then some ("worker is installing an update", .busy)
  else if holdsBack flags.onlyWhenIdle flags.presence then
    some ("only when idle: the person is using this computer", .paused)
  else none

/-- The model host as an offer meets it: its state, its catalogue and what the probe reads. -/
structure HostView where
  host : ModelHost
  catalog : List CatalogModel
  probe : Probe

/-- Without a host no model is loaded, and the job runs unmeasured. -/
def admitOffer (host : Option HostView) (need : MemoryNeed) : Except Refused Unit :=
  match host with
  | some view => view.host.admitTransient view.catalog view.probe need
  | none => .ok ()

/-- The memory check: the reason and class of the reject. -/
def refused (claim : JobOfferClaim) (host : Option HostView) : Option (String × RejectCode) :=
  match admitOffer host (.of claim.vramGbEstimate claim.modelSource) with
  | .error refused => some (refused.message, .insufficientMemory)
  | .ok () => none

/-! ## Results and their delivery -/

/-- What the engine answers; a JSON value stands as its text. -/
inductive TaskResult where
  | image (bytes : List UInt8) (ext : String)
  | llm (json : String)
  | audioStt (json : String)
  | audioTts (bytes : List UInt8) (ext : String)
  | video (bytes : List UInt8) (ext : String)
  | mesh (bytes : List UInt8) (ext : String)
  | modelConvert (bytes : List UInt8) (ext : String) (report : String)
deriving DecidableEq

structure JobOutput where
  ext : String
  prompt : String
  bytes : List UInt8
  generationMeta : Option String := none
deriving DecidableEq

inductive Delivery where
  | upload (output : JobOutput)
  | json (value : String)
deriving DecidableEq

def deliveryOf (result : TaskResult) (prompt : String) : Delivery :=
  match result with
  | .image bytes ext | .audioTts bytes ext | .video bytes ext | .mesh bytes ext =>
    .upload { ext, prompt, bytes }
  | .modelConvert bytes ext report => .upload { ext, prompt, bytes, generationMeta := some report }
  | .llm json | .audioStt json => .json json

/-- An engine's error; `typedPermanent`: a cause in its chain is of a kind that no worker can serve. -/
structure EngineError where
  message : String
  typedPermanent : Bool
deriving DecidableEq

def isPermanentFailure (e : EngineError) : Bool :=
  e.typedPermanent || decide ("cannot serve".toList <:+: e.message.toList)

/-- How the blocking engine task failed. -/
inductive DispatchError where
  | engine (e : EngineError)
  | panic (message : String)
deriving DecidableEq

/-- How the blocking upload task failed, its retries included. -/
inductive UploadError where
  | failed (message : String)
  | panic (message : String)
deriving DecidableEq

def UploadError.message : UploadError → String
  | .failed message => message
  | .panic message => s!"upload task panic: {message}"

/-- The frames a worker sends about an offer. -/
inductive WorkerInbound where
  | accept (jobId : String)
  | reject (jobId reason : String) (code : Option RejectCode)
  | completeJson (jobId result : String) (prompt : Option String)
  | fail (jobId error : String) (retryable : Bool)
deriving DecidableEq

inductive JobOutcome where
  | completed
  | failed (reason : String)
deriving DecidableEq

/-! ## The task -/

/-- Where an offer's task is.  `leaving` has its outcome and still holds the slot. -/
inductive JobPhase where
  | rejecting (reason : String) (code : RejectCode)
  | accepting
  | dispatching
  | uploading (output : JobOutput)
  | sendingJson (value : String)
  | failing (error : String) (retryable : Bool)
  | leaving (outcome : Option JobOutcome)
  | ended (outcome : Option JobOutcome)
deriving DecidableEq

/-- Something the task tried to get to the studio, and whether it was reported as delivered. -/
inductive Attempted where
  | frame (frame : WorkerInbound) (delivered : Bool)
  | upload (jobId : String) (output : JobOutput) (delivered : Bool)
deriving DecidableEq

structure Job where
  claim : JobOfferClaim
  phase : JobPhase
  attempts : List Attempted := []
deriving DecidableEq

/-- What an await of the task ends with. -/
inductive JobEvent where
  /-- The accept or the reject was sent. -/
  | answered (sent : Except String Unit)
  | dispatched (result : Except DispatchError TaskResult)
  | uploaded (result : Except UploadError Unit)
  /-- The completion or the failure was sent. -/
  | reported (sent : Except String Unit)
  /-- The task ends and its reservation drops. -/
  | left
deriving DecidableEq

namespace JobPhase

/-- The task's reservation is alive. -/
def holds : JobPhase → Bool
  | rejecting _ _ | ended _ => false
  | accepting | dispatching | uploading _ | sendingJson _ | failing _ _ | leaving _ => true

/-- The offer was answered. -/
def answered : JobPhase → Bool
  | rejecting _ _ | accepting => false
  | dispatching | uploading _ | sendingJson _ | failing _ _ | leaving _ | ended _ => true

/-- The task has nothing more to send. -/
def spent : JobPhase → Bool
  | leaving _ | ended _ => true
  | rejecting _ _ | accepting | dispatching | uploading _ | sendingJson _ | failing _ _ => false

/-- How many awaits may lie ahead of the task. -/
def rank : JobPhase → ℕ
  | ended _ => 0
  | rejecting _ _ | leaving _ => 1
  | sendingJson _ | failing _ _ => 2
  | uploading _ => 3
  | dispatching => 4
  | accepting => 5

end JobPhase

namespace Attempted

def jobId : Attempted → String
  | frame (.accept jobId) _ => jobId
  | frame (.reject jobId _ _) _ => jobId
  | frame (.completeJson jobId _ _) _ => jobId
  | frame (.fail jobId _ _) _ => jobId
  | upload jobId _ _ => jobId

/-- An attempt to accept or reject. -/
def isAnswer : Attempted → Bool
  | frame (.accept _) _ | frame (.reject _ _ _) _ => true
  | frame (.completeJson _ _ _) _ | frame (.fail _ _ _) _ | upload _ _ _ => false

/-- A terminal report: a completed upload, or an attempt at either frame. -/
def isReport : Attempted → Bool
  | frame (.completeJson _ _ _) _ | frame (.fail _ _ _) _ => true
  | upload _ _ delivered => delivered
  | frame (.accept _) _ | frame (.reject _ _ _) _ => false

def isFail : Attempted → Bool
  | frame (.fail _ _ _) _ => true
  | frame (.accept _) _ | frame (.reject _ _ _) _ | frame (.completeJson _ _ _) _
  | upload _ _ _ => false

/-- A result that was reported as delivered. -/
def isDelivery : Attempted → Bool
  | frame (.completeJson _ _ _) delivered | upload _ _ delivered => delivered
  | frame (.accept _) _ | frame (.reject _ _ _) _ | frame (.fail _ _ _) _ => false

end Attempted

namespace Job

/-- Note an attempt and go on. -/
def tried (j : Job) (a : Attempted) (phase : JobPhase) : Job :=
  { j with phase, attempts := j.attempts ++ [a] }

def step : Job → JobEvent → Option Job
  | j, .answered sent =>
    match j.phase with
    | .rejecting reason code =>
      some (j.tried (.frame (.reject j.claim.jobId reason (some code)) sent.isOk) (.ended none))
    | .accepting =>
      some (j.tried (.frame (.accept j.claim.jobId) sent.isOk)
        (if sent.isOk then .dispatching else .leaving none))
    | _ => none
  | j, .dispatched result =>
    match j.phase with
    | .dispatching =>
      some { j with phase :=
        match result with
        | .ok result =>
          match deliveryOf result j.claim.prompt with
          | .upload output => .uploading output
          | .json value => .sendingJson value
        | .error (.engine e) => .failing e.message (!isPermanentFailure e)
        | .error (.panic message) => .failing message true }
    | _ => none
  | j, .uploaded result =>
    match j.phase with
    | .uploading output =>
      some (j.tried (.upload j.claim.jobId output result.isOk)
        (match result with
        | .ok () => .leaving (some .completed)
        | .error e => .failing e.message true))
    | _ => none
  | j, .reported sent =>
    match j.phase with
    | .sendingJson value =>
      some (j.tried (.frame (.completeJson j.claim.jobId value (some j.claim.prompt)) sent.isOk)
        (.leaving (some (match sent with
          | .ok () => .completed
          | .error e => .failed s!"failed to send result: {e}"))))
    | .failing error retryable =>
      some (j.tried (.frame (.fail j.claim.jobId error retryable) sent.isOk)
        (.leaving (some (.failed error))))
    | _ => none
  | j, .left =>
    match j.phase with
    | .leaving outcome => some { j with phase := .ended outcome }
    | _ => none

/-- The accept reached the studio. -/
def accepted (j : Job) : Bool := decide (.frame (.accept j.claim.jobId) true ∈ j.attempts)

def answers (j : Job) : List Attempted := j.attempts.filter Attempted.isAnswer

def reports (j : Job) : List Attempted := j.attempts.filter Attempted.isReport

variable {j j' : Job} {e : JobEvent}

/-! ## What a step can do -/

/-- Every step of the task: the place it is at, what it tries and where it goes. -/
inductive Trans (j : Job) : JobEvent → Job → Prop
  | rejected (reason : String) (code : RejectCode) (sent : Except String Unit)
      (h : j.phase = .rejecting reason code) :
      Trans j (.answered sent)
        (j.tried (.frame (.reject j.claim.jobId reason (some code)) sent.isOk) (.ended none))
  | accepted (h : j.phase = .accepting) :
      Trans j (.answered (.ok ())) (j.tried (.frame (.accept j.claim.jobId) true) .dispatching)
  | unaccepted (error : String) (h : j.phase = .accepting) :
      Trans j (.answered (.error error))
        (j.tried (.frame (.accept j.claim.jobId) false) (.leaving none))
  | uploads (result : TaskResult) (output : JobOutput) (h : j.phase = .dispatching) :
      Trans j (.dispatched (.ok result)) { j with phase := .uploading output }
  | sends (result : TaskResult) (value : String) (h : j.phase = .dispatching) :
      Trans j (.dispatched (.ok result)) { j with phase := .sendingJson value }
  | fails (e : DispatchError) (error : String) (retryable : Bool) (h : j.phase = .dispatching) :
      Trans j (.dispatched (.error e)) { j with phase := .failing error retryable }
  | uploaded (output : JobOutput) (h : j.phase = .uploading output) :
      Trans j (.uploaded (.ok ()))
        (j.tried (.upload j.claim.jobId output true) (.leaving (some .completed)))
  | uploadFailed (e : UploadError) (output : JobOutput) (h : j.phase = .uploading output) :
      Trans j (.uploaded (.error e))
        (j.tried (.upload j.claim.jobId output false) (.failing e.message true))
  | reportedJson (value : String) (sent : Except String Unit) (outcome : JobOutcome)
      (h : j.phase = .sendingJson value) :
      Trans j (.reported sent)
        (j.tried (.frame (.completeJson j.claim.jobId value (some j.claim.prompt)) sent.isOk)
          (.leaving (some outcome)))
  | reportedFail (error : String) (retryable : Bool) (sent : Except String Unit)
      (h : j.phase = .failing error retryable) :
      Trans j (.reported sent)
        (j.tried (.frame (.fail j.claim.jobId error retryable) sent.isOk)
          (.leaving (some (.failed error))))
  | left (outcome : Option JobOutcome) (h : j.phase = .leaving outcome) :
      Trans j .left { j with phase := .ended outcome }

theorem step_trans (hs : j.step e = some j') : Trans j e j' := by
  cases e with
  | answered sent =>
    simp only [step] at hs
    split at hs
    · next reason code h =>
      cases hs
      exact .rejected reason code sent h
    · next h =>
      cases hs
      cases sent with
      | ok u => exact .accepted h
      | error error => exact .unaccepted error h
    · cases hs
  | dispatched result =>
    simp only [step] at hs
    split at hs
    · next h =>
      cases hs
      rcases result with (e | message) | result
      · exact .fails _ _ _ h
      · exact .fails _ _ _ h
      · dsimp only
        split
        · exact .uploads result _ h
        · exact .sends result _ h
    · cases hs
  | uploaded result =>
    simp only [step] at hs
    split at hs
    · next output h =>
      cases hs
      cases result with
      | ok u => exact .uploaded output h
      | error e => exact .uploadFailed e output h
    · cases hs
  | reported sent =>
    simp only [step] at hs
    split at hs
    · next value h =>
      cases hs
      exact .reportedJson value sent _ h
    · next error retryable h =>
      cases hs
      exact .reportedFail error retryable sent h
    · cases hs
  | left =>
    simp only [step] at hs
    split at hs
    · next outcome h =>
      cases hs
      exact .left outcome h
    · cases hs

/-- The claim is never changed. -/
theorem step_claim (hs : j.step e = some j') : j'.claim = j.claim := by
  cases step_trans hs <;> rfl

/-! ## What was sent, place by place -/

/-- What the task of offer `id` has tried at each of its places. -/
inductive Sent (id : String) : JobPhase → List Attempted → Prop
  | rejecting (reason : String) (code : RejectCode) : Sent id (.rejecting reason code) []
  | accepting : Sent id .accepting []
  | dispatching : Sent id .dispatching [.frame (.accept id) true]
  | uploading (output : JobOutput) : Sent id (.uploading output) [.frame (.accept id) true]
  | sendingJson (value : String) : Sent id (.sendingJson value) [.frame (.accept id) true]
  | failing (error : String) (retryable : Bool) :
      Sent id (.failing error retryable) [.frame (.accept id) true]
  | uploadFailed (error : String) (retryable : Bool) (output : JobOutput) :
      Sent id (.failing error retryable) [.frame (.accept id) true, .upload id output false]
  | unaccepted : Sent id (.leaving none) [.frame (.accept id) false]
  | uploaded (output : JobOutput) :
      Sent id (.leaving (some .completed)) [.frame (.accept id) true, .upload id output true]
  | jsonSent (outcome : JobOutcome) (value : String) (prompt : Option String) (delivered : Bool) :
      Sent id (.leaving (some outcome))
        [.frame (.accept id) true, .frame (.completeJson id value prompt) delivered]
  | failed (outcome : JobOutcome) (error : String) (retryable delivered : Bool) :
      Sent id (.leaving (some outcome))
        [.frame (.accept id) true, .frame (.fail id error retryable) delivered]
  | failedAfterUpload (outcome : JobOutcome) (output : JobOutput) (error : String)
      (retryable delivered : Bool) :
      Sent id (.leaving (some outcome)) [.frame (.accept id) true, .upload id output false,
        .frame (.fail id error retryable) delivered]
  | rejected (reason : String) (code : RejectCode) (delivered : Bool) :
      Sent id (.ended none) [.frame (.reject id reason (some code)) delivered]
  | ended (outcome : Option JobOutcome) (as : List Attempted) (h : Sent id (.leaving outcome) as) :
      Sent id (.ended outcome) as

def Sound (j : Job) : Prop := Sent j.claim.jobId j.phase j.attempts

theorem step_sound (h : j.Sound) (hs : j.step e = some j') : j'.Sound := by
  obtain ⟨claim, phase, attempts⟩ := j
  have hsent : Sent claim.jobId phase attempts := h
  cases step_trans hs with
  | rejected reason code sent hp =>
    cases hp
    cases hsent
    exact .rejected reason code sent.isOk
  | accepted hp =>
    cases hp
    cases hsent
    exact .dispatching
  | unaccepted error hp =>
    cases hp
    cases hsent
    exact .unaccepted
  | uploads result output hp =>
    cases hp
    cases hsent
    exact .uploading output
  | sends result value hp =>
    cases hp
    cases hsent
    exact .sendingJson value
  | fails e error retryable hp =>
    cases hp
    cases hsent
    exact .failing error retryable
  | uploaded output hp =>
    cases hp
    cases hsent
    exact .uploaded output
  | uploadFailed e output hp =>
    cases hp
    cases hsent
    exact .uploadFailed e.message true output
  | reportedJson value sent outcome hp =>
    cases hp
    cases hsent
    exact .jsonSent outcome value (some claim.prompt) sent.isOk
  | reportedFail error retryable sent hp =>
    cases hp
    -- the failure is the first report, or comes after an upload that did not complete
    cases hsent with
    | failing => exact .failed _ error retryable sent.isOk
    | uploadFailed _ _ output => exact .failedAfterUpload _ output error retryable sent.isOk
  | left outcome hp =>
    cases hp
    exact .ended outcome attempts hsent

/-! ## What the studio is told -/

/-- One answer; after an accept that was sent, one terminal report; the slot held until then. -/
structure Reports (j : Job) : Prop where
  answers_le : j.answers.length ≤ 1
  answered : j.phase.answered = true → j.answers.length = 1
  unanswered : j.phase.answered = false → j.attempts = []
  reports_le : j.reports.length ≤ 1
  unaccepted : j.accepted = false → j.reports = []
  reported : j.accepted = true → j.phase.spent = true → j.reports.length = 1
  /-- No failure beside a result that was reported as delivered. -/
  delivered : (∃ a ∈ j.attempts, a.isDelivery) → ∀ a ∈ j.attempts, a.isFail = false
  named : ∀ a ∈ j.attempts, a.jobId = j.claim.jobId
  /-- From before the accept until the report is made. -/
  held : j.phase = .accepting ∨ j.accepted = true ∧ j.phase.spent = false → j.phase.holds = true

attribute [local simp] JobPhase.holds JobPhase.answered JobPhase.spent Attempted.jobId
  Attempted.isAnswer Attempted.isReport Attempted.isFail Attempted.isDelivery
  answers reports accepted List.filter_cons

theorem sent_reports {claim : JobOfferClaim} {phase : JobPhase} {as : List Attempted}
    (h : Sent claim.jobId phase as) : Reports ⟨claim, phase, as⟩ := by
  induction h with
  | rejecting reason code => constructor <;> simp
  | accepting => constructor <;> simp
  | dispatching => constructor <;> simp
  | uploading output => constructor <;> simp
  | sendingJson value => constructor <;> simp
  | failing error retryable => constructor <;> simp
  | uploadFailed error retryable output => constructor <;> simp
  | unaccepted => constructor <;> simp
  | uploaded output => constructor <;> simp
  | jsonSent outcome value prompt delivered => constructor <;> simp
  | failed outcome error retryable delivered => constructor <;> simp
  | failedAfterUpload outcome output error retryable delivered => constructor <;> simp
  | rejected reason code delivered => constructor <;> simp
  | ended outcome as h ih =>
    obtain ⟨h1, h2, -, h4, h5, h6, h7, h8, -⟩ := ih
    exact ⟨h1, fun _ => h2 rfl, nofun, h4, h5, fun ha _ => h6 ha rfl, h7, h8, by simp⟩

theorem Sound.reports (h : j.Sound) : j.Reports := sent_reports h

/-! ## The task goes forward -/

/-- Only its end makes the task let its slot go. -/
theorem step_holds (hs : j.step e = some j') (he : e ≠ .left) : j'.phase.holds = j.phase.holds := by
  cases step_trans hs with
  | left outcome h => exact absurd rfl he
  | rejected reason code sent h => rw [h]; rfl
  | accepted h => rw [h]; rfl
  | unaccepted error h => rw [h]; rfl
  | uploads result output h => rw [h]; rfl
  | sends result value h => rw [h]; rfl
  | fails e error retryable h => rw [h]; rfl
  | uploaded output h => rw [h]; rfl
  | uploadFailed e output h => rw [h]; rfl
  | reportedJson value sent outcome h => rw [h]; rfl
  | reportedFail error retryable sent h => rw [h]; rfl

theorem step_left (hs : j.step .left = some j') :
    j.phase.holds = true ∧ j'.phase.holds = false := by
  cases step_trans hs with
  | left outcome h => exact ⟨by rw [h]; rfl, rfl⟩

theorem step_rank (hs : j.step e = some j') : j'.phase.rank < j.phase.rank := by
  cases step_trans hs with
  | rejected reason code sent h =>
    rw [h]
    show 0 < 1
    omega
  | accepted h =>
    rw [h]
    show 4 < 5
    omega
  | unaccepted error h =>
    rw [h]
    show 1 < 5
    omega
  | uploads result output h =>
    rw [h]
    show 3 < 4
    omega
  | sends result value h =>
    rw [h]
    show 2 < 4
    omega
  | fails e error retryable h =>
    rw [h]
    show 2 < 4
    omega
  | uploaded output h =>
    rw [h]
    show 1 < 3
    omega
  | uploadFailed e output h =>
    rw [h]
    show 2 < 3
    omega
  | reportedJson value sent outcome h =>
    rw [h]
    show 1 < 2
    omega
  | reportedFail error retryable sent h =>
    rw [h]
    show 1 < 2
    omega
  | left outcome h =>
    rw [h]
    show 0 < 1
    omega

/-- Whatever its next await ends with, the task goes on from there. -/
theorem exists_step (h : j.phase.rank ≠ 0) : ∃ e j', j.step e = some j' := by
  obtain ⟨claim, phase, attempts⟩ := j
  cases phase with
  | rejecting reason code => exact ⟨.answered (.ok ()), _, rfl⟩
  | accepting => exact ⟨.answered (.ok ()), _, rfl⟩
  | dispatching => exact ⟨.dispatched (.error (.panic "")), _, rfl⟩
  | uploading output => exact ⟨.uploaded (.ok ()), _, rfl⟩
  | sendingJson value => exact ⟨.reported (.ok ()), _, rfl⟩
  | failing error retryable => exact ⟨.reported (.ok ()), _, rfl⟩
  | leaving outcome => exact ⟨.left, _, rfl⟩
  | ended outcome => exact absurd rfl h

end Job

end StudioWorker.Session
