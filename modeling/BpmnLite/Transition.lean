import BpmnLite.Concurrency

/-!
# Commands, snapshots and transitions

A command is what the engine asks the kernel to do; a snapshot is what the kernel reads; a
transition is what it returns: the next instance, the changed fibres, the records to insert or
retire, and the jobs, timers, effects, messages and events to publish.
-/

namespace BpmnLite

inductive ErrorClass where
  | transient
  | contractViolation
  | businessRejection (rejectionCode : String)
  deriving DecidableEq

structure Incident where
  incidentId : Uuid
  processInstanceId : Uuid
  fiberId : Uuid
  serviceTaskId : String
  bytecodeAddr : Addr
  errorClass : ErrorClass
  message : String
  retryCount : ℕ
  createdAt : Timestamp
  resolvedAt : Option Timestamp
  resolution : Option String
  deriving DecidableEq

structure JobActivation where
  jobKey : JobKey
  tenantId : String
  processInstanceId : Uuid
  taskType : String
  serviceTaskId : String
  domainPayload : String
  domainPayloadHash : Digest
  sessionStack : SessionStackState
  orchFlags : BTreeMap String Value
  retriesRemaining : ℕ
  entryId : Uuid
  runbookId : Uuid
  workerId : String
  claimToken : String
  claimExpiresAt : Option Timestamp
  attemptCount : ℕ
  failureCount : ℕ
  notBefore : Option Timestamp

structure JobCompletion where
  jobKey : JobKey
  domainPayload : String
  expectedInstancePayloadHash : Digest
  orchFlags : BTreeMap String Value
  workerId : Option String
  claimToken : Option String
  deriving DecidableEq

structure BufferedMessage where
  tenantId : String
  messageName : String
  correlationKey : String
  msgId : String
  payload : Bytes
  payloadHash : Option Digest
  processInstanceId : Option Uuid
  receivedAt : Timestamp
  expiresAt : Timestamp
  deriving DecidableEq

structure ClaimedBufferedMessage where
  message : BufferedMessage
  claimToken : String
  claimUntil : Timestamp
  deriving DecidableEq

inductive TimerKind where
  | wait
  | race (raceId armIndex : ℕ) (resumeAt : Addr) (interrupting : Bool) (jobKey : Option JobKey)
      (boundaryElementId : Option String) (armCount : ℕ)
  | v2Race (recordId : RecordId) (resumeAt : Addr)
  | v2GuardTimer (recordId : RecordId)
  deriving DecidableEq

structure TimerRepeatSpec where
  intervalMs : ℕ
  remaining : ℕ
  firedCount : ℕ
  deriving DecidableEq

inductive DurableEffect where
  | scheduleTimer (timerId : EffectId) (fiberId : Uuid) (dueAt : ℕ) (kind : TimerKind)
      (repeatSpec : Option TimerRepeatSpec)
  | invoke (effectId : EffectId) (fiberId : Uuid) (pc : Addr) (operation : String)
      (templateId : Digest) (input : Bytes) (idempotencyKey : String)
  deriving DecidableEq

def DurableEffect.effectId : DurableEffect → EffectId
  | .scheduleTimer timerId .. => timerId
  | .invoke effectId .. => effectId

inductive EffectTerminalState where
  | completed
  | failed
  deriving DecidableEq

structure EffectMutation where
  effectId : EffectId
  terminalState : EffectTerminalState
  deriving DecidableEq

structure ClaimedTimer where
  tenantId : String
  timerId : EffectId
  instanceId : Uuid
  fiberId : Uuid
  dueAt : ℕ
  kind : TimerKind
  repeatSpec : Option TimerRepeatSpec
  claimToken : Uuid
  deriving DecidableEq

inductive TimerMutation where
  | consume (timerId : EffectId) (claimToken : Uuid)
  | rearm (timerId : EffectId) (claimToken : Uuid) (dueAt : ℕ) (repeatSpec : TimerRepeatSpec)
  | cancelRace (fiberId : Uuid) (raceId : ℕ) (except : EffectId)
  | v2CancelRace (fiberId : Uuid) (recordId : RecordId) (except : EffectId)
  deriving DecidableEq

inductive EffectOutput where
  | job (completion : JobCompletion)
  | ffi (fiberId : Uuid) (pc : Addr) (outputPayload : Bytes) (newDomainPayload : Option String)
      (noMatch : Bool)
  | json (value : Json)

structure JobRetry where
  workerId : String
  claimToken : String
  notBeforeMs : ℤ
  deriving DecidableEq

/-- What comes back for an invoked effect. -/
inductive EffectResponse where
  | ffiSuccess (outputPayload : Bytes) (newDomainPayload : Option String)
  | ffiNoMatch
  | failed (errorClass : ErrorClass) (message : String) (attempt : ℕ)

inductive Command where
  | tick (fiberId : Option Uuid)
  | effectCompleted (effectId : EffectId) (output : EffectOutput)
  | effectFailed (effectId : EffectId) (jobKey : JobKey) (errorClass : ErrorClass)
      (message : String) (retry : Option JobRetry) (attempt : ℕ)
  | timerFired (timer : ClaimedTimer) (firedAt : ℕ)
  | messageDelivered (messageId name correlationKey : String) (payload : Bytes)
      (payloadHash : Option Digest) (expiresAt : Timestamp)
  | cancel (reason : String)
  | terminate
  | resolveIncident (incidentId : Uuid) (resolution : String)
  | startChildResult (idempotencyKey : String) (childInstanceId : Uuid) (accepted : Bool)
  | jobClaimed (jobKey : JobKey) (workerId : String) (claimExpiresAt : Timestamp)
  | v2TriggerGuard (recordId : RecordId)

inductive RuntimeEvent where
  | instanceStarted (instanceId : Uuid) (bytecodeVersion : Digest)
  | fiberSpawned (fiberId : Uuid) (pc : Addr) (parent : Option Uuid)
  | jobActivated (jobKey : JobKey) (taskType serviceTaskId : String) (pc : Addr)
  | jobClaimed (jobKey : JobKey) (workerId : String) (claimExpiresAt : Timestamp)
  | jobCompleted (jobKey : JobKey) (payloadHashBefore payloadHashAfter : Digest)
      (orchFlagsOut : BTreeMap String Value) (pcNext : Addr)
  | jobRetryScheduled (jobKey : JobKey) (retryAt : ℤ) (retriesRemaining : ℕ)
  | jobDeadLettered (jobKey : JobKey) (incidentId : Uuid)
  | flagSet (key : FlagKey) (value : Value)
  | waitTimerSet (fiberId : Uuid) (deadlineMs : ℕ)
  | timerFired (timerId : EffectId) (fiberId : Uuid) (firedAt : ℕ)
  | waitMsgSubscribed (fiberId : Uuid) (name : ℕ) (corrKey : String)
  | msgReceived (name : ℕ) (corrKey : String) (msgRef : Option Uuid)
  | messageBuffered (messageName correlationKey msgId : String) (expiresAt : ℤ)
  | bufferedMessageConsumed (messageName correlationKey msgId : String) (fiberId : Uuid)
  | incidentCreated (incidentId : Uuid) (serviceTaskId : String) (jobKey : Option JobKey)
  | incidentResolved (incidentId : Uuid) (resolution : String)
  | childStartAccepted (idempotencyKey : String) (childInstanceId : Uuid)
  | childStartRejected (idempotencyKey : String) (childInstanceId incidentId : Uuid)
  | waitCancelled (fiberId : Uuid) (waitDesc reason : String)
  | signalIgnored (signalDesc : String)
  | cancelled (reason : String)
  | completed (atTime : Timestamp)
  | terminated (atTime : Timestamp) (fiberId : Uuid)
  | errorRouted (jobKey : JobKey) (errorCode boundaryId : String) (resumeAt : Addr)
  | counterIncremented (counterId newValue loopEpoch : ℕ)
  | ffiInvocationPending (invocationId : Uuid) (templateId : Digest) (callerTaskId : String)
      (callerPc : Addr) (ownerType : String)
  | ffiInvocationCompleted (invocationId : Uuid) (outcomeKind : String)
      (errorMessage : Option String)
  | v2GuardOpened (recordId : RecordId) (fiberId : Uuid) (handler : Addr)
  | v2GuardRetired (recordId : RecordId) (fiberId : Uuid)
  | v2GuardROpened (recordId : RecordId) (fiberId : Uuid)
  | v2Forked (recordId : RecordId) (forkFiberId : Uuid) (childFibers : List Uuid)
      (targets : List Addr)
  | v2JoinArrived (recordId : RecordId) (fiberId : Uuid)
  | v2JoinReleased (recordId : RecordId) (survivorFiberId : Uuid) (nextPc : Addr)
      (cancelledFibers : List Uuid)
  | v2RaceOpened (recordId : RecordId) (fiberId : Uuid) (armCount : ℕ)
  | v2RaceClosed (recordId : RecordId) (fiberId : Uuid) (armCount : ℕ)
  | v2RaceWon (recordId : RecordId) (fiberId : Uuid)
  | v2GuardTriggered (recordId : RecordId) (handlerFiberId : Uuid)
      (cancelledRecords : List RecordId) (cancelledFibers : List Uuid)
  | v2GuardNTriggered (recordId : RecordId) (handlerFiberId : Uuid)
  | v2ScopeCancelled (recordId : RecordId) (fiberId : Uuid) (cancelledRecords : List RecordId)
      (cancelledFibers : List Uuid)
  deriving DecidableEq

end BpmnLite
