import BpmnLite.Store.State

/-!
# Committing a transition

`commitTransition` of the memory store. It first takes and inserts pending invocations, then checks
the claim and the transition against the store, then writes one kind of row after another. Some of
these writes can still refuse the transition. A commit that stops keeps the store it had reached, so
the commit is a computation of `EStateM`.
-/

namespace BpmnLite

abbrev Commit := EStateM CommitStop Store

def Commit.fail {α : Type} (error : CommitError) : Commit α := throw (.failed error)

namespace Store

section Pending

variable (H : StoreHost) (claim : Claim)

/-- The callout whose row carries the execution. Among several such rows the source takes the one
its hash map yields first; here it is the one with the least callout id. -/
def calloutOf (s : Store) (tenantId : String) (executionId : Uuid) : Option Uuid :=
  (s.pendingStore.toList.find? (fun entry =>
    entry.2.tenantId = tenantId && entry.2.executionId = some executionId)).map Prod.fst

def lookupPending (executionId : Uuid) : Commit Unit := do
  let s ← get
  if (s.calloutOf claim.tenantId executionId).isNone then Commit.fail .conflict

def pendingRow (write : PendingInvocationWrite) : PendingInvocation :=
  { tenantId := claim.tenantId
    calloutId := write.calloutId
    processInstanceId := write.processInstanceId
    nodeId := write.nodeId
    targetDomain := write.targetDomain
    verbId := write.verbId
    idempotencyKey := write.idempotencyKey
    executionId := write.executionId
    submittedAt := write.submittedAt
    ackReceivedAt := write.ackReceivedAt
    timeoutAt := write.timeoutAt }

/-- A row under the same callout id or with the same idempotency key is kept as it is. -/
def insertPendingRow (row : PendingInvocation) (s : Store) : Store :=
  if row.calloutId ∈ s.pendingStore ||
      s.pendingStore.values.any (fun existing => existing.idempotencyKey = row.idempotencyKey) then s
  else { s with pendingStore := s.pendingStore.insert row.calloutId row }

def insertPending (write : PendingInvocationWrite) : Commit Unit := do
  if ¬ H.isTimestampMillis write.submittedAt then
    Commit.fail (.integrity "invalid submitted_at")
  if ¬ write.ackReceivedAt.all H.isTimestampMillis then
    Commit.fail (.integrity "invalid ack_received_at")
  if ¬ write.timeoutAt.all H.isTimestampMillis then
    Commit.fail (.integrity "invalid timeout_at")
  modify (insertPendingRow (pendingRow claim write))

def takePending (executionId : Uuid) : Commit Unit := do
  let s ← get
  match s.calloutOf claim.tenantId executionId with
  | some calloutId => set { s with pendingStore := s.pendingStore.erase calloutId }
  | none => Commit.fail .conflict

end Pending

section Checks

variable (s : Store) (claim : Claim) (t : Transition)

def isStart : Bool :=
  claim.instanceId ∉ s.instances && claim.expectedRevision = 0 && claim.fence = 0

def fence (instanceId : Uuid) : ℕ := (s.transitionLeases[instanceId]?.map (·.fence)).getD 0

def revision (instanceId : Uuid) : ℕ := s.revisions.getD instanceId 0

def checkClaim : Except CommitStop Unit :=
  match s.instances[claim.instanceId]? with
  | none => throw (.failed (.integrity "instance not found"))
  | some current => do
    if current.tenantId ≠ claim.tenantId then
      throw (.failed (.integrity "claim tenant does not own instance"))
    if s.fence claim.instanceId ≠ claim.fence then throw (.failed .staleFence)
    if s.revision claim.instanceId ≠ claim.expectedRevision then throw (.failed .conflict)

def checkStart (start : StartCommand) : Except CommitStop Unit := do
  if start.tenantId ≠ claim.tenantId ∨ start.instanceId ≠ claim.instanceId ∨
      start.artifactHash ≠ t.nextSnapshot.bytecodeVersion ∨
      start.initialPayloadHash ≠ t.nextSnapshot.domainPayloadHash then
    throw (.failed (.integrity "start command lineage does not match initial snapshot"))
  if (claim.tenantId, start.idempotencyKey) ∈ s.starts then throw .idempotentNoOp

def checkMessage : BufferedMessageMutation → Except CommitStop Unit
  | .insert message | .deliver message => do
    if message.key ∈ s.messageBuffer ∨ message.key ∈ s.messageBufferConsumed then
      throw .idempotentNoOp
  | .consume claimed => do
    if (s.messageBufferClaims[claimed.message.key]?.map Prod.fst) ≠ some claimed.claimToken then
      throw (.failed .conflict)
  | .release _ => return ()

def checkTimerClaim (timerId : EffectId) (claimToken : Uuid) : Except CommitStop Unit :=
  match s.timers[timerId]? with
  | none => throw .idempotentNoOp
  | some timer => do
    if timer.state ≠ .armed ∨ timer.tenantId ≠ claim.tenantId ∨
        timer.instanceId ≠ claim.instanceId ∨ timer.claim.map (·.token) ≠ some claimToken then
      throw .idempotentNoOp

def checkTimer : TimerMutation → Except CommitStop Unit
  | .consume timerId claimToken | .rearm timerId claimToken _ _ =>
    checkTimerClaim s claim timerId claimToken
  | .cancelRace .. | .v2CancelRace .. => return ()

/-- The checks the commit makes on the rows it is about to change. -/
def check : Except CommitStop Unit := do
  if ¬ s.isStart claim then s.checkClaim claim
  if t.nextSnapshot.tenantId ≠ claim.tenantId ∨ t.nextSnapshot.instanceId ≠ claim.instanceId then
    throw (.failed (.integrity "claim and transition aggregate identity differ"))
  ((s.concurrencyTables.getD claim.instanceId ∅).validateMutations t.concurrencyMutations).mapError
    (fun error => .failed (.integrity error.message))
  t.startDedupe.forM (s.checkStart claim t)
  t.dedupe.forM (fun write => if write.key ∈ s.dedupe then throw .idempotentNoOp else return ())
  t.bufferedMessages.forM s.checkMessage
  t.timerMutations.forM (s.checkTimer claim)

def runCheck : Commit Unit := fun s =>
  match s.check claim t with
  | .ok _ => .ok () s
  | .error stop => .error stop s

end Checks

section Writes

variable (H : StoreHost) (claim : Claim) (t : Transition)

/-- The instance row the commit writes. The integrity hash is computed anew and the quarantine state
of the stored row is kept. -/
def committedInstance (s : Store) : ProcessInstance :=
  let snapshot := match t.stateOverride with
    | some state => { t.nextSnapshot with state }
    | none => t.nextSnapshot
  let snapshot := { snapshot with integrityHash := some (H.integrityHash snapshot) }
  match s.instances[claim.instanceId]? with
  | some existing => { snapshot with quarantineState := existing.quarantineState }
  | none => snapshot

def writeInstance (snapshot : ProcessInstance) (s : Store) : Store :=
  { s with
    instances := s.instances.insert claim.instanceId snapshot
    starts := match t.startDedupe with
      | some start => s.starts.insert (claim.tenantId, start.idempotencyKey) claim.instanceId
      | none => s.starts
    payloadHistory := s.payloadHistory.insert (claim.instanceId, snapshot.domainPayloadHash)
      snapshot.domainPayload }

def upsertFiberRows (instanceId : Uuid) (fibers : BTreeMap (Uuid × Uuid) Fiber)
    (upserts : List Fiber) : BTreeMap (Uuid × Uuid) Fiber :=
  upserts.foldl (fun rows fiber => rows.insert (instanceId, fiber.fiberId) fiber) fibers

def deleteFiberRows (instanceId : Uuid) (fibers : BTreeMap (Uuid × Uuid) Fiber)
    (deletes : List Uuid) : BTreeMap (Uuid × Uuid) Fiber :=
  deletes.foldl (fun rows fiberId => rows.erase (instanceId, fiberId)) fibers

/-- A counter is 16 bits wide and wraps around. -/
def writeJoin (instanceId : Uuid) (joins : BTreeMap (Uuid × JoinId) ℕ) :
    JoinMutation → BTreeMap (Uuid × JoinId) ℕ
  | .arrive joinId =>
    joins.insert (instanceId, joinId) ((joins.getD (instanceId, joinId) 0 + 1) % 2 ^ 16)
  | .reset joinId => joins.insert (instanceId, joinId) 0

def writeFrame (s : Store) : Store :=
  { s with
    fibers := deleteFiberRows claim.instanceId
      (upsertFiberRows claim.instanceId s.fibers t.fibersUpsert) t.fibersDelete
    joinCounters := t.joinMutations.foldl (writeJoin claim.instanceId) s.joinCounters }

def enqueueJob (s : Store) (job : JobActivation) : Store :=
  if s.jobQueue.any (fun existing => existing.jobKey = job.jobKey) || job.jobKey ∈ s.inflightJobs
  then s
  else { s with jobQueue := s.jobQueue ++ [job] }

def dequeue (jobKey : JobKey) (queue : List JobActivation) : List JobActivation :=
  queue.filter (fun job => job.jobKey ≠ jobKey)

def dropJob (s : Store) (jobKey : JobKey) : Store :=
  { s with
    inflightJobs := s.inflightJobs.erase jobKey
    jobQueue := dequeue jobKey s.jobQueue }

/-- Removes a job in flight for its holder; for anyone else the job goes back and the commit stops. -/
def takeClaimedJob (jobKey : JobKey) (workerId claimToken : String) : Commit JobActivation := do
  let s ← get
  match s.inflightJobs[jobKey]? with
  | none => Commit.fail .conflict
  | some job =>
    if job.workerId ≠ workerId ∨ job.claimToken ≠ claimToken then
      set { s with inflightJobs := (s.inflightJobs.erase jobKey).insert job.jobKey job }
      Commit.fail .conflict
    else
      set { s with inflightJobs := s.inflightJobs.erase jobKey }
      return job

def retriedJob (job : JobActivation) (errorClass : String) (notBeforeMs : ℤ) : JobActivation :=
  { job with
    workerId := ""
    claimToken := ""
    claimExpiresAt := none
    notBefore := some notBeforeMs
    failureCount := satAdd32 job.failureCount 1
    retriesRemaining := job.retriesRemaining - 1
    orchFlags := job.orchFlags.insert "last_error_class" (.str (errorClass.utf8ByteSize % 2 ^ 32)) }

def writeJobMutation : JobMutation → Commit Unit
  | .ackClaimed jobKey workerId claimToken => do
    let _ ← takeClaimedJob jobKey workerId claimToken
    modify (fun s => { s with jobQueue := dequeue jobKey s.jobQueue })
  | .retryClaimed jobKey workerId claimToken errorClass _ notBeforeMs => do
    let job ← takeClaimedJob jobKey workerId claimToken
    modify (fun s => { s with jobQueue := s.jobQueue ++ [retriedJob job errorClass notBeforeMs] })
  | .deadLetterClaimed jobKey workerId claimToken _ _ _ => do
    let _ ← takeClaimedJob jobKey workerId claimToken
    return ()
  | .cancel jobKey => modify (dropJob · jobKey)

def MemoryTimer.cancel (timer : MemoryTimer) : MemoryTimer :=
  { timer with state := .cancelled, claim := none }

def cancelTimers (p : EffectId → MemoryTimer → Bool) (timers : BTreeMap EffectId MemoryTimer) :
    BTreeMap EffectId MemoryTimer :=
  timers.map (fun timerId timer =>
    if p timerId timer && timer.state = .armed then MemoryTimer.cancel timer else timer)

def cleanUp (s : Store) : Store :=
  let s := if t.terminalCleanup.deleteAllFibers then
      { s with
        fibers := s.fibers.filter (fun row _ => row.1 ≠ claim.instanceId)
        timers := cancelTimers (fun _ timer => timer.instanceId = claim.instanceId) s.timers }
    else s
  let s := if t.terminalCleanup.deleteAllJoins then
      { s with joinCounters := s.joinCounters.filter (fun row _ => row.1 ≠ claim.instanceId) }
    else s
  if t.terminalCleanup.cancelJobs then
    { s with
      jobQueue := s.jobQueue.filter (fun job => job.processInstanceId ≠ claim.instanceId)
      inflightJobs := s.inflightJobs.filter
        (fun _ job => job.processInstanceId ≠ claim.instanceId) }
  else s

def upsertIncident (incident : Incident) : List Incident → List Incident
  | [] => [incident]
  | existing :: rest =>
    if existing.incidentId = incident.incidentId then incident :: rest
    else existing :: upsertIncident incident rest

def writeIncident (instanceId : Uuid) (incidents : BTreeMap Uuid (List Incident))
    (incident : Incident) : BTreeMap Uuid (List Incident) :=
  incidents.insert instanceId (upsertIncident incident (incidents.getD instanceId []))

def writeMessage (s : Store) : BufferedMessageMutation → Store
  | .insert message => { s with messageBuffer := s.messageBuffer.insert message.key message }
  | .deliver message =>
    { s with messageBufferConsumed := s.messageBufferConsumed.insert message.key }
  | .release claimed =>
    { s with messageBufferClaims := s.messageBufferClaims.erase claimed.message.key }
  | .consume claimed =>
    { s with
      messageBuffer := s.messageBuffer.erase claimed.message.key
      messageBufferClaims := s.messageBufferClaims.erase claimed.message.key
      messageBufferConsumed := s.messageBufferConsumed.insert claimed.message.key }

/-- The cached completions, the incidents, the messages and the outbox. -/
def writeRecords (s : Store) : Store :=
  let s := { s with
    dedupe := t.dedupe.foldl (fun rows write => rows.insert write.key write.completion) s.dedupe
    incidents := t.incidents.foldl (writeIncident claim.instanceId) s.incidents }
  let s := t.bufferedMessages.foldl writeMessage s
  { s with outbox := t.outbox.foldl (fun rows row => rows.insertIfNew row.id row) s.outbox }

def armedTimer (fiberId : Uuid) (dueAt : ℕ) (kind : TimerKind)
    (repeatSpec : Option TimerRepeatSpec) : MemoryTimer :=
  { tenantId := claim.tenantId, instanceId := claim.instanceId, fiberId, dueAt, kind, repeatSpec }

def pendingEffect (effect : DurableEffect) : MemoryEffect :=
  { tenantId := claim.tenantId, instanceId := claim.instanceId, effect }

def settledEffect (effect : MemoryEffect) : MemoryEffect :=
  { effect with state := .terminal, claim := none, response := none }

/-- A timer or effect under an id in use must be the same one; it then stays as it is. -/
def writeEffect (effect : DurableEffect) : Commit Unit := do
  let s ← get
  match effect with
  | .scheduleTimer timerId fiberId dueAt kind repeatSpec =>
    match s.timers[timerId]? with
    | some existing =>
      if existing.tenantId ≠ claim.tenantId ∨ existing.instanceId ≠ claim.instanceId ∨
          existing.fiberId ≠ fiberId ∨ existing.kind ≠ kind then
        Commit.fail (.integrity "deterministic timer identity collision")
    | none =>
      set { s with
        timers := s.timers.insert timerId (armedTimer claim fiberId dueAt kind repeatSpec) }
  | .invoke effectId .. =>
    match s.durableEffects[effectId]? with
    | some existing =>
      if existing.tenantId ≠ claim.tenantId ∨ existing.instanceId ≠ claim.instanceId ∨
          existing.effect ≠ effect then
        Commit.fail (.integrity "deterministic effect identity collision")
    | none =>
      set { s with
        durableEffects := s.durableEffects.insert effectId (pendingEffect claim effect) }

def writeEffectMutation (mutation : EffectMutation) : Commit Unit := do
  let s ← get
  match s.durableEffects[mutation.effectId]? with
  | none => Commit.fail .conflict
  | some effect =>
    if effect.tenantId ≠ claim.tenantId ∨ effect.instanceId ≠ claim.instanceId then
      Commit.fail .conflict
    else
      set { s with
        durableEffects := s.durableEffects.insert mutation.effectId (settledEffect effect) }

def TimerKind.isRace (raceId : ℕ) : TimerKind → Bool
  | .race current .. => current = raceId
  | _ => false

def TimerKind.isV2Race (recordId : RecordId) : TimerKind → Bool
  | .v2Race current _ => current = recordId
  | _ => false

def raceTimer (fiberId : Uuid) (sameRace : TimerKind → Bool) (except timerId : EffectId)
    (timer : MemoryTimer) : Bool :=
  timerId ≠ except && timer.instanceId = claim.instanceId && timer.fiberId = fiberId &&
    sameRace timer.kind

def writeTimerMutation (timers : BTreeMap EffectId MemoryTimer) :
    TimerMutation → BTreeMap EffectId MemoryTimer
  | .consume timerId _ =>
    match timers[timerId]? with
    | some timer => timers.insert timerId { timer with state := .consumed, claim := none }
    | none => timers
  | .rearm timerId _ dueAt repeatSpec =>
    match timers[timerId]? with
    | some timer => timers.insert timerId
        { timer with dueAt, repeatSpec := some repeatSpec, state := .armed, claim := none }
    | none => timers
  | .cancelRace fiberId raceId except =>
    cancelTimers (raceTimer claim fiberId (TimerKind.isRace raceId) except) timers
  | .v2CancelRace fiberId recordId except =>
    cancelTimers (raceTimer claim fiberId (TimerKind.isV2Race recordId) except) timers

def writeTimers (s : Store) : Store :=
  { s with timers := t.timerMutations.foldl (writeTimerMutation claim) s.timers }

def appendEvent (instanceId : Uuid) (s : Store) (event : RuntimeEvent) : Store :=
  let seq := s.eventSeq.getD instanceId 0 + 1
  { s with
    eventSeq := s.eventSeq.insert instanceId seq
    events := s.events.insert instanceId (s.events.getD instanceId [] ++ [(seq, event)]) }

def appendJournal (instanceId : Uuid) (envelope : SnapshotEnvelope) (record : JournalRecord)
    (s : Store) : Store :=
  { s with
    snapshots := s.snapshots.insert instanceId envelope
    journals := s.journals.insert instanceId (s.journals.getD instanceId [] ++ [record]) }

/-- The digest of an envelope, or the end of the commit. -/
def hashEnvelope (envelope : SnapshotEnvelope) : Commit Digest :=
  match H.stateHash envelope with
  | .ok digest => return digest
  | .error message => Commit.fail (.integrity message)

def childEnvelope (child : ChildStart) : SnapshotEnvelope :=
  { artifactAbi := currentArtifactAbi
    artifactHash := child.inst.bytecodeVersion
    revision := 0
    state := PersistedSnapshotState.new child.inst [child.rootFiber] ∅ [] ∅ [] }

def writeChildRows (child : ChildStart) (s : Store) : Store :=
  let childId := child.inst.instanceId
  appendEvent childId
    { s with
      instances := s.instances.insert childId child.inst
      revisions := s.revisions.insertIfNew childId 0
      fibers := s.fibers.insert (childId, child.rootFiber.fiberId) child.rootFiber }
    child.startEvent

def writeChild (child : ChildStart) : Commit Unit := do
  let childId := child.inst.instanceId
  modify (writeChildRows child)
  let childStateHash ← hashEnvelope H (childEnvelope child)
  modify (appendJournal childId (childEnvelope child)
    { command := ⟨H.forTransition childId 0 u32Max, child.inst.createdAt,
        .administrative "child_start"⟩
      priorRevision := -1
      newRevision := 0
      artifactHash := child.inst.bytecodeVersion
      priorStateHash := 0
      stateHash := childStateHash
      events := [child.startEvent]
      effectIds := [] })

def newRevision (start : Bool) : ℕ :=
  if start then 0 else (claim.expectedRevision + 1) % 2 ^ 64

def writeRevision (start : Bool) (s : Store) : Store :=
  let s := t.events.foldl (appendEvent claim.instanceId) s
  { s with
    revisions := s.revisions.insert claim.instanceId (newRevision claim start)
    concurrencyTables := s.concurrencyTables.insert claim.instanceId
      ((s.concurrencyTables.getD claim.instanceId ∅).applyMutations t.concurrencyMutations) }

def instanceFibers (s : Store) (instanceId : Uuid) : List Fiber :=
  (s.fibers.filter (fun row _ => row.1 = instanceId)).values

def instanceJoins (s : Store) (instanceId : Uuid) : BTreeMap JoinId ℕ :=
  (s.joinCounters.filter (fun row _ => row.1 = instanceId)).toList.foldl
    (fun joins row => joins.insert row.1.2 row.2) ∅

def envelope (s : Store) (claim : Claim) (snapshot : ProcessInstance) (revision : ℕ) :
    SnapshotEnvelope :=
  { artifactAbi := currentArtifactAbi
    artifactHash := snapshot.bytecodeVersion
    revision
    state := PersistedSnapshotState.new snapshot (s.instanceFibers claim.instanceId)
      (s.instanceJoins claim.instanceId) (s.incidents.getD claim.instanceId [])
      (s.concurrencyTables.getD claim.instanceId ∅) [] }

def commandEnvelope (snapshot : ProcessInstance) (revision : ℕ) : CommandEnvelope :=
  match t.commandEnvelope, t.startDedupe with
  | some command, _ => command
  | none, some start => ⟨start.idempotencyKey, start.logicalTime, .start start⟩
  | none, none => ⟨H.forTransition claim.instanceId revision u32Max, snapshot.createdAt,
      .administrative "fixture_or_admin_commit"⟩

def priorStateHash (s : Store) (instanceId : Uuid) : Digest :=
  (s.snapshots[instanceId]?.bind (fun envelope => (H.stateHash envelope).toOption)).getD 0

/-- A command id is queued once for a tenant. -/
def enqueueActivation (now : Timestamp) (activationId : Uuid) (tenantId : String)
    (instanceId commandId : Uuid) (commandKind : String) (command : Command)
    (availableAtMs : Option Timestamp) (s : Store) : Store :=
  if (tenantId, commandId) ∈ s.activationDedupe then s
  else
    { s with
      activations := s.activations.insert activationId
        { tenantId, instanceId, commandId, commandKind, command
          availableAtMs := availableAtMs.getD now
          seq := s.activationSeqCounter }
      activationDedupe := s.activationDedupe.insert (tenantId, commandId) activationId
      activationSeqCounter := s.activationSeqCounter + 1 }

def hasRunningFiber (s : Store) (instanceId : Uuid) : Bool :=
  (s.instanceFibers instanceId).any (fun fiber => fiber.wait = .running)

/-- The lease ends unless a fibre can go on at once; then the next tick is queued. -/
def settleLease (now : Timestamp) (activationId : Uuid) (snapshot : ProcessInstance)
    (revision : ℕ) (s : Store) : Store :=
  if snapshot.state ≠ .running ∨ ¬ s.hasRunningFiber claim.instanceId then
    { s with transitionLeases := s.transitionLeases.erase claim.instanceId }
  else
    enqueueActivation now activationId claim.tenantId claim.instanceId
      (H.uuidOfSeed (.runnable claim.instanceId revision)) "tick" (.tick none) none s

/-- The end of a commit: the snapshot of the new revision and its journal record. -/
def finish (now : Timestamp) (activationId : Uuid) (start : Bool) (snapshot : ProcessInstance) :
    Commit ℕ := do
  modify (writeRevision claim t start)
  let s ← get
  let revision := newRevision claim start
  let envelope := s.envelope claim snapshot revision
  let stateHash ← hashEnvelope H envelope
  if ¬ start ∧ 2 ^ 63 ≤ claim.expectedRevision then
    Commit.fail (.integrity "revision exceeds signed journal range")
  modify (appendJournal claim.instanceId envelope
    { command := commandEnvelope H claim t snapshot revision
      priorRevision := if start then -1 else claim.expectedRevision
      newRevision := revision
      artifactHash := snapshot.bytecodeVersion
      priorStateHash := s.priorStateHash H claim.instanceId
      stateHash
      events := t.events
      effectIds := t.effects.map DurableEffect.effectId })
  modify (settleLease H claim now activationId snapshot revision)
  return revision

end Writes

section Commit

variable (H : StoreHost) (now : Timestamp) (activationId : Uuid) (claim : Claim) (t : Transition)

def writeTransition : Commit ℕ := do
  let s ← get
  let start := s.isStart claim
  let snapshot := committedInstance H claim t s
  modify (writeInstance claim t snapshot)
  modify (writeFrame claim t)
  modify (fun s => t.jobsAck.foldl dropJob (t.jobsEnqueue.foldl enqueueJob s))
  t.jobMutations.forM writeJobMutation
  modify (cleanUp claim t)
  modify (writeRecords claim t)
  t.effects.forM (writeEffect claim)
  t.effectMutations.forM (writeEffectMutation claim)
  modify (writeTimers claim t)
  t.childStarts.forM (writeChild H)
  finish H claim t now activationId start snapshot

/-- `commit_transition`: the new revision, or the reason the commit stopped; `now` and
`activationId` are the clock and the fresh id the source draws for the next activation. -/
def commitTransition : Commit ℕ := do
  t.pendingTake.forM (lookupPending claim)
  t.pendingInvocations.forM (insertPending H claim)
  t.pendingTake.forM (takePending claim)
  runCheck claim t
  writeTransition H now activationId claim t

end Commit

end Store

end BpmnLite
