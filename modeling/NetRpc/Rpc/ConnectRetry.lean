import NetRpc.Rpc.Channel
import NetRpc.Tcp.Client

/-! # The retry loop of CallMethod -/

namespace NetRpc

namespace ConnectAttempt

def succeeds : ConnectAttempt → Bool
  | .connected => true
  | .inProgress .connected _ => true
  | _ => false

/-- `::connect` does not leave its answer for later. -/
def answersAtOnce : ConnectAttempt → Bool
  | .inProgress _ _ => false
  | _ => true

end ConnectAttempt

namespace RpcChannel

variable {Response : Type}

/-- A call that is being connected. -/
structure Connecting (Response : Type) where
  call : ActiveCall Response
  /-- The messages passed to `writeMessage`, each with the call as it was then. -/
  queued : List (TinyPBProtocol × ActiveCall Response)

/-- The `done` callback that `CallMethod` passes to `connect`. -/
def onConnect (closure : Option (Closure Response)) (reqProtocol : TinyPBProtocol) :
    TcpClient.Done (Connecting Response) := fun client connecting =>
  if client.getConnectErrorCode ≠ 0 then
    (client, { connecting with
      call := onConnectError closure connecting.call client.getConnectErrorCode
        client.getConnectErrorInfo })
  else
    (client.writeMessage, { connecting with
      queued := connecting.queued ++ [(reqProtocol, connecting.call)] })

/-- The retry loop, with what each of its `maxRetry` turns would meet. The attempts
that it has made come back with the client. -/
def retryConnect {World : Type} (done : TcpClient.Done World) :
    List ConnectAttempt → TcpClient → World → List ConnectAttempt × TcpClient × World
  | [], client, world => ([], client, world)
  | attempt :: later, client, world =>
      if client.state = .connected then
        ([], client, world)
      else
        let (next, world) := client.connect done world attempt
        if client.returns attempt then
          let (made, last) := retryConnect done later next world
          (attempt :: made, last)
        else
          ([attempt], next, world)

/-- `CallMethod` from the retry loop on, until the thread has nothing left to do
for the connection attempts, with the attempts that it has made. -/
def callMethod (closure : Option (Closure Response)) (reqProtocol : TinyPBProtocol)
    (eventLoop : EventLoopState) (call : ActiveCall Response)
    (attempts : List ConnectAttempt) : List ConnectAttempt × Connecting Response :=
  let done := onConnect closure reqProtocol
  let (made, client, connecting) :=
    retryConnect done attempts { eventLoop } { call, queued := [] }
  (made, (client.settle done connecting).2)

/-- Retrying does what it is for, with the attempts that were made and the call
behind them. -/
structure RetryEffective (reqProtocol : TinyPBProtocol) (maxRetry : Nat)
    (called : List ConnectAttempt × Connecting Response) : Prop where
  queuedOnce : (∃ attempt ∈ called.1, attempt.succeeds = true) →
    ∃ call, called.2.queued = [(reqProtocol, call)] ∧ call.completions = [] ∧
      ¬call.controller.HoldsConnectError
  failsTogether :
    (∃ controller ∈ called.2.call.completions, controller.HoldsConnectError) ↔
      called.1.length = maxRetry ∧ ∀ attempt ∈ called.1, attempt.succeeds = false

/-! ## How far the loop gets

The loop ends with the first success that it hears of. On a thread that is not
looping yet it waits for ever with an attempt that does not stop the loop.
-/

def attemptsMade : EventLoopState → List ConnectAttempt → List ConnectAttempt
  | _, [] => []
  | _, .connected :: _ => [.connected]
  | eventLoop, .failed sysError :: later => .failed sysError :: attemptsMade eventLoop later
  | eventLoop, .inProgress result stops :: later =>
      .inProgress result stops ::
        if eventLoop.isLooping then
          attemptsMade eventLoop later
        else if stops && result ≠ .connected then
          attemptsMade .stopped later
        else
          []

/-- Some outcome reaches `done`. Once the loop has been stopped, nothing that was
left for later does. -/
def ReachesDone : EventLoopState → List ConnectAttempt → Prop
  | .idle, attempts => attempts ≠ []
  | .looping, attempts => attempts ≠ []
  | .stopped, attempts => ∃ attempt ∈ attempts, attempt.answersAtOnce = true

/-- The first outcome to reach `done` is a success. Inside of the loop, what was
left for later comes behind all that is answered at once, and only the last of
these attempts is still registered. -/
def SucceedsFirst : EventLoopState → List ConnectAttempt → Prop
  | .idle, attempts => ∃ first ∈ attempts.head?, first.succeeds = true
  | .looping, attempts =>
      attempts.find? ConnectAttempt.answersAtOnce = some .connected ∨
        (attempts.find? ConnectAttempt.answersAtOnce = none ∧
          ∃ last ∈ attempts.getLast?, last.succeeds = true)
  | .stopped, attempts => attempts.find? ConnectAttempt.answersAtOnce = some .connected

/-! ## The outcomes that reach the callback -/

/-- What the loop further up the stack has left to report. -/
def awaitedOutcome : EventLoopState → Option ConnectResult → List ConnectOutcome
  | .looping, some result => [result.outcome]
  | _, _ => []

/-- The outcomes that `done` is called for, in this order, where `failed` says that
the client holds an error. On a thread that is already looping a later attempt takes
the place of one in progress, and so does the message that is queued. -/
def reported : EventLoopState → (failed : Bool) → Option ConnectResult →
    List ConnectAttempt → List ConnectOutcome
  | eventLoop, _, awaited, [] => awaitedOutcome eventLoop awaited
  | eventLoop, failed, awaited, .connected :: _ =>
      .connected :: if failed then awaitedOutcome eventLoop awaited else []
  | eventLoop, _, awaited, .failed sysError :: later =>
      .failed (.failedConnect (ascii "connect error, sys error = " ++ sysError)) ::
        reported eventLoop true awaited later
  | eventLoop, failed, _, .inProgress result stops :: later =>
      if eventLoop.isLooping then
        reported eventLoop failed (some result) later
      else if stops && result ≠ .connected then
        result.outcome :: reported .stopped true none later
      else
        [result.outcome]

/-- What `done` does to the call, with the error that the client holds. -/
def report (closure : Option (Closure Response)) (reqProtocol : TinyPBProtocol)
    (connecting : Connecting Response) : Option ConnectError → Connecting Response
  | none => { connecting with queued := connecting.queued ++ [(reqProtocol, connecting.call)] }
  | some error =>
      { connecting with call := onConnectError closure connecting.call error.code error.info }

/-- What is done for each outcome, with the error that the client holds then. -/
def reportAll (closure : Option (Closure Response)) (reqProtocol : TinyPBProtocol) :
    List ConnectOutcome → Option ConnectError → Connecting Response → Connecting Response
  | [], _, connecting => connecting
  | .connected :: later, connectError, connecting =>
      reportAll closure reqProtocol later connectError
        (report closure reqProtocol connecting connectError)
  | .failed error :: later, _, connecting =>
      reportAll closure reqProtocol later (some error)
        (report closure reqProtocol connecting (some error))

section Reports

variable (closure : Option (Closure Response)) (reqProtocol : TinyPBProtocol)

theorem onConnect_unfailed (client : TcpClient) (connecting : Connecting Response)
    (unfailed : client.connectError = none) :
    onConnect closure reqProtocol client connecting =
      (client.writeMessage, report closure reqProtocol connecting none) := by
  have code : client.getConnectErrorCode = 0 := by
    rw [TcpClient.getConnectErrorCode, unfailed]
    rfl
  rw [onConnect, if_neg (not_not.mpr code), report]

theorem onConnect_failed (client : TcpClient) (connecting : Connecting Response)
    {error : ConnectError} (failed : client.connectError = some error) :
    onConnect closure reqProtocol client connecting =
      (client, report closure reqProtocol connecting (some error)) := by
  have code : client.getConnectErrorCode = error.code := by
    rw [TcpClient.getConnectErrorCode, failed]
    rfl
  have info : client.getConnectErrorInfo = error.info := by
    rw [TcpClient.getConnectErrorInfo, failed]
    rfl
  rw [onConnect, code, info, if_pos error.code_ne_zero, report]

theorem onConnect_reports (client : TcpClient) (connecting : Connecting Response) :
    (onConnect closure reqProtocol client connecting).2 =
      report closure reqProtocol connecting client.connectError := by
  cases held : client.connectError with
  | none => rw [onConnect_unfailed closure reqProtocol client connecting held]
  | some error => rw [onConnect_failed closure reqProtocol client connecting held]

theorem reportAll_cons (outcome : ConnectOutcome) (later : List ConnectOutcome)
    (client : TcpClient) (connecting : Connecting Response) :
    reportAll closure reqProtocol (outcome :: later) client.connectError connecting =
      reportAll closure reqProtocol later (client.record outcome).connectError
        (report closure reqProtocol connecting (client.record outcome).connectError) := by
  cases outcome with
  | connected => rfl
  | failed error => rfl

theorem settle_reports (client : TcpClient) (connecting : Connecting Response) :
    (client.settle (onConnect closure reqProtocol) connecting).2 =
      reportAll closure reqProtocol (awaitedOutcome client.eventLoop client.awaited)
        client.connectError connecting := by
  rcases client with ⟨eventLoop, state, connectError, awaited⟩
  cases eventLoop with
  | idle => rfl
  | stopped => rfl
  | looping =>
      cases awaited with
      | none => rfl
      | some result =>
          rw [awaitedOutcome, reportAll_cons]
          exact onConnect_reports closure reqProtocol _ connecting

theorem awaitedOutcome_none (eventLoop : EventLoopState) :
    awaitedOutcome eventLoop none = [] := by
  cases eventLoop <;> rfl

/-- On a thread that is not looping yet, `connect` sees an attempt to its end. -/
theorem connect_idle (client : TcpClient) (connecting : Connecting Response)
    (result : ConnectResult) (stops : Bool) (idle : client.eventLoop = .idle) :
    client.connect (onConnect closure reqProtocol) connecting (.inProgress result stops) =
      ({ client.record result.outcome with
          eventLoop := if stops then .stopped else .looping, awaited := none },
        report closure reqProtocol connecting (client.record result.outcome).connectError) := by
  rcases client with ⟨eventLoop, state, connectError, awaited⟩
  cases idle
  simp only [TcpClient.connect, EventLoopState.isLooping_idle, Bool.false_eq_true, if_false,
    TcpClient.onWritable]
  cases result with
  | refused sysError => rw [onConnect_failed closure reqProtocol _ connecting rfl]; rfl
  | unknown sysError => rw [onConnect_failed closure reqProtocol _ connecting rfl]; rfl
  | connected =>
      cases connectError with
      | none => rw [onConnect_unfailed closure reqProtocol _ connecting rfl]; rfl
      | some error => rw [onConnect_failed closure reqProtocol _ connecting rfl]; rfl

/-- The loop has made these attempts, and has left the call like this in the end. -/
structure EndsWith (retried : List ConnectAttempt × TcpClient × Connecting Response)
    (made : List ConnectAttempt) (final : Connecting Response) : Prop where
  made : retried.1 = made
  final : (retried.2.1.settle (onConnect closure reqProtocol) retried.2.2).2 = final

variable {closure reqProtocol} {client : TcpClient} {connecting final : Connecting Response}
  {next : TcpClient × Connecting Response}

theorem EndsWith.connected (attempts : List ConnectAttempt) {outcomes : List ConnectOutcome}
    (connected : client.state = .connected)
    (left : awaitedOutcome client.eventLoop client.awaited = outcomes) :
    EndsWith closure reqProtocol
      (retryConnect (onConnect closure reqProtocol) attempts client connecting) []
      (reportAll closure reqProtocol outcomes client.connectError connecting) := by
  have stays : retryConnect (onConnect closure reqProtocol) attempts client connecting =
      ([], client, connecting) := by
    cases attempts with
    | nil => rfl
    | cons attempt later => rw [retryConnect, if_pos connected]
  rw [stays, ← left]
  exact ⟨rfl, settle_reports closure reqProtocol client connecting⟩

theorem EndsWith.returns {attempt : ConnectAttempt} {later made : List ConnectAttempt}
    (unconnected : client.state ≠ .connected) (returned : client.returns attempt = true)
    (connects : client.connect (onConnect closure reqProtocol) connecting attempt = next)
    (rest : EndsWith closure reqProtocol
      (retryConnect (onConnect closure reqProtocol) later next.1 next.2) made final) :
    EndsWith closure reqProtocol
      (retryConnect (onConnect closure reqProtocol) (attempt :: later) client connecting)
      (attempt :: made) final := by
  rw [retryConnect, if_neg unconnected, connects]
  simp only [returned, if_true]
  exact ⟨congrArg (attempt :: ·) rest.made, rest.final⟩

theorem EndsWith.waits {attempt : ConnectAttempt} {later : List ConnectAttempt}
    (unconnected : client.state ≠ .connected) (waits : client.returns attempt = false)
    (connects : client.connect (onConnect closure reqProtocol) connecting attempt = next)
    (unregistered : next.1.awaited = none) :
    EndsWith closure reqProtocol
      (retryConnect (onConnect closure reqProtocol) (attempt :: later) client connecting)
      [attempt] next.2 := by
  have settled := settle_reports closure reqProtocol next.1 next.2
  rw [unregistered, awaitedOutcome_none] at settled
  rw [retryConnect, if_neg unconnected, connects]
  simp only [waits, Bool.false_eq_true, if_false]
  exact ⟨rfl, settled⟩

/-- The retry loop makes these attempts, and with what follows it comes down to
these reports. -/
theorem retryConnect_endsWith (attempts : List ConnectAttempt) (client : TcpClient)
    (connecting : Connecting Response) (unconnected : client.state ≠ .connected) :
    EndsWith closure reqProtocol
      (retryConnect (onConnect closure reqProtocol) attempts client connecting)
      (attemptsMade client.eventLoop attempts)
      (reportAll closure reqProtocol
        (reported client.eventLoop client.connectError.isSome client.awaited attempts)
        client.connectError connecting) := by
  induction attempts generalizing client connecting with
  | nil => exact ⟨rfl, settle_reports closure reqProtocol client connecting⟩
  | cons attempt later induction =>
      rcases client with ⟨eventLoop, state, connectError, awaited⟩
      cases attempt with
      | connected =>
          cases connectError with
          | none =>
              exact .returns unconnected rfl
                (onConnect_unfailed closure reqProtocol _ connecting rfl)
                (.connected later rfl (awaitedOutcome_none eventLoop))
          | some error =>
              exact .returns unconnected rfl
                (onConnect_failed closure reqProtocol _ connecting rfl)
                (.connected later rfl rfl)
      | failed sysError =>
          exact .returns unconnected rfl
            (onConnect_failed closure reqProtocol _ connecting rfl) (induction _ _ unconnected)
      | inProgress result stops =>
          cases eventLoop with
          | looping => exact .returns unconnected rfl rfl (induction _ _ unconnected)
          | stopped => exact .returns unconnected rfl rfl (induction _ _ unconnected)
          | idle =>
              have connects := connect_idle closure reqProtocol
                ({ eventLoop := .idle, state, connectError, awaited } : TcpClient)
                connecting result stops rfl
              cases stops with
              | false =>
                  cases result <;> exact .waits unconnected rfl connects rfl
              | true =>
                  cases result with
                  | connected =>
                      exact .returns unconnected rfl connects (.connected later rfl rfl)
                  | refused sysError =>
                      exact .returns unconnected rfl connects (induction _ _ unconnected)
                  | unknown sysError =>
                      exact .returns unconnected rfl connects (induction _ _ unconnected)

end Reports

/-! ## Which outcomes can be reported -/

theorem reported_ne_nil_iff (eventLoop : EventLoopState) (attempts : List ConnectAttempt) :
    reported eventLoop false none attempts ≠ [] ↔ ReachesDone eventLoop attempts := by
  have whileLooping : ∀ (attempts : List ConnectAttempt) (awaited : ConnectResult),
      reported .looping false (some awaited) attempts ≠ [] := by
    intro attempts
    induction attempts with
    | nil => exact fun _ => List.cons_ne_nil _ _
    | cons attempt later induction =>
        intro awaited
        cases attempt with
        | connected => exact List.cons_ne_nil _ _
        | failed sysError => exact List.cons_ne_nil _ _
        | inProgress result stops => exact induction result
  have whenStopped : ∀ awaited : Option ConnectResult,
      reported .stopped false awaited attempts ≠ [] ↔ ReachesDone .stopped attempts := by
    induction attempts with
    | nil => simp [reported, awaitedOutcome, ReachesDone]
    | cons attempt later induction =>
        intro awaited
        cases attempt with
        | connected => simp [reported, ReachesDone, ConnectAttempt.answersAtOnce]
        | failed sysError => simp [reported, ReachesDone, ConnectAttempt.answersAtOnce]
        | inProgress result stops =>
            rw [reported, if_pos (by rfl), induction]
            simp [ReachesDone, ConnectAttempt.answersAtOnce]
  cases eventLoop with
  | stopped => exact whenStopped none
  | looping =>
      cases attempts with
      | nil => simp [reported, awaitedOutcome, ReachesDone]
      | cons attempt later =>
          cases attempt with
          | connected => simp [reported, ReachesDone]
          | failed sysError => simp [reported, ReachesDone]
          | inProgress result stops =>
              exact iff_of_true (whileLooping later result) (List.cons_ne_nil _ _)
  | idle =>
      cases attempts with
      | nil => simp [reported, awaitedOutcome, ReachesDone]
      | cons attempt later =>
          cases attempt with
          | connected => simp [reported, ReachesDone]
          | failed sysError => simp [reported, ReachesDone]
          | inProgress result stops =>
              rw [reported, EventLoopState.isLooping_idle, if_neg Bool.false_ne_true]
              split <;> simp [ReachesDone]

/-- Where nothing reaches `done`, nothing keeps the loop from making all its attempts. -/
theorem attemptsMade_of_unheard (eventLoop : EventLoopState) (attempts : List ConnectAttempt)
    (unheard : ¬ReachesDone eventLoop attempts) :
    attemptsMade eventLoop attempts = attempts := by
  induction attempts with
  | nil => rfl
  | cons attempt later induction =>
      cases eventLoop with
      | idle => exact absurd (List.cons_ne_nil _ _) unheard
      | looping => exact absurd (List.cons_ne_nil _ _) unheard
      | stopped =>
          cases attempt with
          | connected => exact absurd ⟨_, List.mem_cons_self, rfl⟩ unheard
          | failed sysError => exact absurd ⟨_, List.mem_cons_self, rfl⟩ unheard
          | inProgress result stops =>
              have unheardLater : ¬ReachesDone .stopped later := by
                intro heard
                rcases heard with ⟨attempt, member, atOnce⟩
                exact unheard ⟨attempt, List.mem_cons_of_mem _ member, atOnce⟩
              exact congrArg _ (induction unheardLater)

/-- As long as the attempts made fail, no success is reported. -/
theorem reported_of_failing (eventLoop : EventLoopState) (failed : Bool)
    (awaited : Option ConnectResult) (attempts : List ConnectAttempt)
    (unconnected : awaited ≠ some .connected)
    (failing : ∀ attempt ∈ attemptsMade eventLoop attempts, attempt.succeeds = false) :
    .connected ∉ reported eventLoop failed awaited attempts := by
  induction attempts generalizing eventLoop failed awaited with
  | nil =>
      cases eventLoop with
      | idle => simp [reported, awaitedOutcome]
      | stopped => simp [reported, awaitedOutcome]
      | looping =>
          cases awaited with
          | none => simp [reported, awaitedOutcome]
          | some result =>
              have refused : result ≠ .connected := fun same => unconnected (by rw [same])
              exact fun member => refused ((ConnectResult.outcome_eq_connected result).mp
                (List.mem_singleton.mp member).symm)
  | cons attempt rest induction =>
      cases attempt with
      | connected => simp [attemptsMade, ConnectAttempt.succeeds] at failing
      | failed sysError =>
          rw [attemptsMade, List.forall_mem_cons] at failing
          rw [reported]
          simp only [List.mem_cons, reduceCtorEq, false_or]
          exact induction eventLoop true awaited unconnected failing.2
      | inProgress result stops =>
          rw [attemptsMade, List.forall_mem_cons] at failing
          have refused : result ≠ .connected := by
            intro same
            subst same
            exact absurd failing.1 (by simp [ConnectAttempt.succeeds])
          have outcome : result.outcome ≠ .connected :=
            mt (ConnectResult.outcome_eq_connected result).mp refused
          rw [reported]
          split
          case isTrue looping =>
            rw [if_pos looping] at failing
            exact induction eventLoop failed (some result) (by simpa using refused) failing.2
          case isFalse notLooping =>
            rw [if_neg notLooping] at failing
            split
            case isTrue goesOn =>
              rw [if_pos goesOn] at failing
              simp only [List.mem_cons, not_or]
              exact ⟨outcome.symm, induction .stopped true none (by simp) failing.2⟩
            case isFalse => simpa using outcome.symm

/-- Where a success is reported first, nothing is reported behind it. -/
theorem reported_after_connected (eventLoop : EventLoopState) (awaited : Option ConnectResult)
    (attempts : List ConnectAttempt) (later : List ConnectOutcome)
    (equal : reported eventLoop false awaited attempts = .connected :: later) : later = [] := by
  induction attempts generalizing awaited with
  | nil =>
      cases eventLoop <;> cases awaited <;> simp_all [reported, awaitedOutcome]
  | cons attempt rest induction =>
      cases attempt with
      | connected => exact (List.cons.inj equal).2.symm
      | failed sysError => cases (List.cons.inj equal).1
      | inProgress result stops =>
          rw [reported] at equal
          split at equal
          · exact induction (some result) equal
          · split at equal
            case isTrue goesOn =>
              have refused : result ≠ .connected := by simp_all
              exact absurd ((ConnectResult.outcome_eq_connected result).mp
                (List.cons.inj equal).1) refused
            case isFalse => exact (List.cons.inj equal).2.symm

/-- Behind an attempt in progress, the loop hears the first of the others that is
answered at once, or else what came of the last. -/
theorem reported_looping_head_iff (result : ConnectResult) (stops : Bool)
    (later : List ConnectAttempt) :
    (reported .looping false (some result) later).head? = some .connected ↔
      SucceedsFirst .looping (.inProgress result stops :: later) := by
  induction later generalizing result stops with
  | nil => cases result <;> simp [reported, awaitedOutcome, SucceedsFirst, ConnectResult.outcome,
      ConnectAttempt.answersAtOnce, ConnectAttempt.succeeds]
  | cons attempt later induction =>
      cases attempt with
      | connected => simp [reported, SucceedsFirst, ConnectAttempt.answersAtOnce]
      | failed sysError => simp [reported, SucceedsFirst, ConnectAttempt.answersAtOnce]
      | inProgress next stopsNext =>
          rw [reported, if_pos (by rfl), induction next stopsNext]
          simp [SucceedsFirst, ConnectAttempt.answersAtOnce]

theorem reported_stopped_head_iff (awaited : Option ConnectResult)
    (attempts : List ConnectAttempt) :
    (reported .stopped false awaited attempts).head? = some .connected ↔
      SucceedsFirst .stopped attempts := by
  induction attempts generalizing awaited with
  | nil => simp [reported, awaitedOutcome, SucceedsFirst]
  | cons attempt later induction =>
      cases attempt with
      | connected => simp [reported, SucceedsFirst, ConnectAttempt.answersAtOnce]
      | failed sysError => simp [reported, SucceedsFirst, ConnectAttempt.answersAtOnce]
      | inProgress result stops =>
          rw [reported, if_pos (by rfl), induction]
          simp [SucceedsFirst, ConnectAttempt.answersAtOnce]

theorem reported_idle_head_iff (attempts : List ConnectAttempt) :
    (reported .idle false none attempts).head? = some .connected ↔
      SucceedsFirst .idle attempts := by
  cases attempts with
  | nil => simp [reported, awaitedOutcome, SucceedsFirst]
  | cons attempt later =>
      cases attempt with
      | connected => simp [reported, SucceedsFirst, ConnectAttempt.succeeds]
      | failed sysError => simp [reported, SucceedsFirst, ConnectAttempt.succeeds]
      | inProgress result stops =>
          rw [reported, EventLoopState.isLooping_idle, if_neg Bool.false_ne_true]
          cases result <;> cases stops <;>
            simp [SucceedsFirst, ConnectAttempt.succeeds, ConnectResult.outcome]

theorem reported_head_iff (eventLoop : EventLoopState) (attempts : List ConnectAttempt) :
    (reported eventLoop false none attempts).head? = some .connected ↔
      SucceedsFirst eventLoop attempts := by
  cases eventLoop with
  | idle => exact reported_idle_head_iff attempts
  | stopped => exact reported_stopped_head_iff none attempts
  | looping =>
      cases attempts with
      | nil => simp [reported, awaitedOutcome, SucceedsFirst]
      | cons attempt later =>
          cases attempt with
          | connected => simp [reported, SucceedsFirst, ConnectAttempt.answersAtOnce]
          | failed sysError => simp [reported, SucceedsFirst, ConnectAttempt.answersAtOnce]
          | inProgress result stops => exact reported_looping_head_iff result stops later

/-! ## What the reports do -/

section Effects

variable (run : Closure Response) (reqProtocol : TinyPBProtocol)

theorem holdsConnectError_of_code (controller : RpcController) (error : ConnectError) :
    (controller.setError error.code error.info).HoldsConnectError := by
  cases error with
  | peerClosed info => exact .inl rfl
  | failedConnect info => exact .inr rfl

/-- The first failure runs the closure, unless the call was already finished. -/
theorem onConnectError_completions (call : ActiveCall Response) (error : ConnectError) :
    (onConnectError (some run) call error.code error.info).controller.isFinished = true ∧
      (onConnectError (some run) call error.code error.info).completions =
        if call.controller.isFinished then
          call.completions
        else
          call.completions ++ [call.controller.setError error.code error.info] := by
  rw [onConnectError]
  cases finished : call.controller.isFinished with
  | false => exact callBack_unfinished run (call.setError error.code error.info) finished
  | true =>
      rw [callBack_finished (some run) (call.setError error.code error.info) finished]
      exact ⟨finished, rfl⟩

/-- After a failure the error stays in the client: whatever is reported then, no
message is queued and the finished call is not completed again. -/
theorem reportAll_of_finished (outcomes : List ConnectOutcome) (error : ConnectError)
    (connecting : Connecting Response)
    (finished : connecting.call.controller.isFinished = true) :
    (reportAll (some run) reqProtocol outcomes (some error) connecting).queued =
        connecting.queued ∧
      (reportAll (some run) reqProtocol outcomes (some error) connecting).call.completions =
        connecting.call.completions := by
  induction outcomes generalizing error connecting with
  | nil => exact ⟨rfl, rfl⟩
  | cons outcome later induction =>
      have again (latest : ConnectError) :
          (reportAll (some run) reqProtocol later (some latest)
              (report (some run) reqProtocol connecting (some latest))).queued =
                connecting.queued ∧
            (reportAll (some run) reqProtocol later (some latest)
              (report (some run) reqProtocol connecting (some latest))).call.completions =
                connecting.call.completions := by
        have effect := onConnectError_completions run connecting.call latest
        rw [if_pos finished] at effect
        have rest := induction latest (report (some run) reqProtocol connecting (some latest))
          effect.1
        exact ⟨rest.1, rest.2.trans effect.2⟩
      cases outcome with
      | connected => exact again error
      | failed latest => exact again latest

theorem reportAll_failed (outcomes : List ConnectOutcome) (error : ConnectError)
    (earlier : Option ConnectError) (connecting : Connecting Response) :
    (reportAll (some run) reqProtocol (.failed error :: outcomes) earlier connecting).queued =
        connecting.queued ∧
      (reportAll (some run) reqProtocol (.failed error :: outcomes) earlier
        connecting).call.completions =
          if connecting.call.controller.isFinished then
            connecting.call.completions
          else
            connecting.call.completions ++
              [connecting.call.controller.setError error.code error.info] := by
  have effect := onConnectError_completions run connecting.call error
  have rest := reportAll_of_finished run reqProtocol outcomes error
    (report (some run) reqProtocol connecting (some error)) effect.1
  exact ⟨rest.1, rest.2.trans effect.2⟩

end Effects

/-! ## Retrying is effective exactly when nothing has to be retried -/

section Verdict

variable {reqProtocol : TinyPBProtocol} {maxRetry : Nat} {made : List ConnectAttempt}
  {connecting : Connecting Response}

theorem not_effective_unheard (unqueued : connecting.queued = [])
    (uncompleted : connecting.call.completions = []) (allMade : made.length = maxRetry) :
    ¬RetryEffective reqProtocol maxRetry (made, connecting) := by
  intro effective
  by_cases succeeding : ∃ attempt ∈ made, attempt.succeeds = true
  · rcases effective.queuedOnce succeeding with ⟨call, queued, _⟩
    simp [unqueued] at queued
  · have failing : ∀ attempt ∈ made, attempt.succeeds = false := by simpa using succeeding
    rcases effective.failsTogether.mpr ⟨allMade, failing⟩ with ⟨controller, member, _⟩
    simp [uncompleted] at member

/-- With nothing queued, all attempts made have to fail. Then the closure has to
have been run exactly if they were all that there are. -/
theorem effective_unqueued_iff (unqueued : connecting.queued = []) :
    RetryEffective reqProtocol maxRetry (made, connecting) ↔
      (∀ attempt ∈ made, attempt.succeeds = false) ∧
        ((∃ controller ∈ connecting.call.completions, controller.HoldsConnectError) ↔
          made.length = maxRetry) := by
  constructor
  · intro effective
    have failing : ∀ attempt ∈ made, attempt.succeeds = false := by
      intro attempt member
      rw [← Bool.not_eq_true]
      intro succeeds
      rcases effective.queuedOnce ⟨attempt, member, succeeds⟩ with ⟨call, queued, _⟩
      simp [unqueued] at queued
    exact ⟨failing, effective.failsTogether.trans (and_iff_left failing)⟩
  · intro expected
    apply RetryEffective.mk
    · intro succeeding
      rcases succeeding with ⟨attempt, member, succeeds⟩
      simp [expected.1 attempt member] at succeeds
    · exact expected.2.trans (and_iff_left expected.1).symm

theorem effective_queued_iff (call : ActiveCall Response)
    (succeeding : ∃ attempt ∈ made, attempt.succeeds = true)
    (queued : connecting.queued = [(reqProtocol, call)]) (uncompleted : call.completions = [])
    (unfailed : connecting.call.completions = []) :
    RetryEffective reqProtocol maxRetry (made, connecting) ↔
      ¬call.controller.HoldsConnectError := by
  have notFailing : ¬∀ attempt ∈ made, attempt.succeeds = false := by simpa using succeeding
  constructor
  · intro effective
    rcases effective.queuedOnce succeeding with ⟨found, same, _, noError⟩
    rw [queued] at same
    simp only [List.cons.injEq, Prod.mk.injEq, true_and, and_true] at same
    rw [same]
    exact noError
  · intro noError
    apply RetryEffective.mk
    · exact fun _ => ⟨call, queued, uncompleted, noError⟩
    · rw [unfailed]
      exact iff_of_false (by simp) (fun both => notFailing both.2)

end Verdict

section Reports

variable (run : Closure Response) (reqProtocol : TinyPBProtocol)
  (controller : RpcController) (response : Response) (maxRetry : Nat)
  (made : List ConnectAttempt)

/-- The call completes with the first failure, however many attempts are still to come. -/
theorem effective_after_failure (error : ConnectError) (later : List ConnectOutcome) :
    RetryEffective reqProtocol maxRetry
        (made, reportAll (some run) reqProtocol (.failed error :: later) none
          { call := .start controller response, queued := [] }) ↔
      (∀ attempt ∈ made, attempt.succeeds = false) ∧
        (controller.isFinished = false ↔ made.length = maxRetry) := by
  have effect := reportAll_failed run reqProtocol later error none
    { call := .start controller response, queued := [] }
  rw [effective_unqueued_iff effect.1, effect.2]
  cases finished : controller.isFinished with
  | true => simp [ActiveCall.start, finished]
  | false =>
      have failed := holdsConnectError_of_code controller error
      simp [ActiveCall.start, finished, failed]

theorem effective_after_success (succeeding : ∃ attempt ∈ made, attempt.succeeds = true) :
    RetryEffective reqProtocol maxRetry
        (made, reportAll (some run) reqProtocol [.connected] none
          { call := .start controller response, queued := [] }) ↔
      ¬controller.HoldsConnectError :=
  effective_queued_iff (.start controller response) succeeding rfl rfl rfl

end Reports

theorem callMethod_eq (closure : Option (Closure Response)) (reqProtocol : TinyPBProtocol)
    (eventLoop : EventLoopState) (call : ActiveCall Response)
    (attempts : List ConnectAttempt) :
    callMethod closure reqProtocol eventLoop call attempts =
      (attemptsMade eventLoop attempts,
        reportAll closure reqProtocol (reported eventLoop false none attempts) none
          { call, queued := [] }) := by
  have ended : EndsWith closure reqProtocol _ _ _ :=
    retryConnect_endsWith attempts { eventLoop } { call, queued := [] } (by simp)
  exact Prod.ext ended.made ended.final

theorem attemptsMade_isPrefix (eventLoop : EventLoopState) (attempts : List ConnectAttempt) :
    attemptsMade eventLoop attempts <+: attempts := by
  induction attempts generalizing eventLoop with
  | nil => exact List.prefix_refl []
  | cons attempt later induction =>
      cases attempt with
      | connected => exact List.prefix_append [.connected] later
      | failed sysError => exact (List.prefix_cons_inj _).mpr (induction eventLoop)
      | inProgress result stops =>
          rw [attemptsMade, List.prefix_cons_inj]
          split
          · exact induction eventLoop
          · split
            · exact induction .stopped
            · exact List.nil_prefix

end RpcChannel

end NetRpc
