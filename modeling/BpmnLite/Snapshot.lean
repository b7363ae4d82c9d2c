import BpmnLite.Transition

/-!
# Snapshots, transitions and persistence envelopes

`Snapshot` is what the kernel reads, `Transition` what it returns. `PersistedSnapshotState` is the
part of a snapshot that survives a commit: the dedupe cache and the claimed buffered messages are
not persisted.
-/

namespace BpmnLite

structure Snapshot where
  inst : ProcessInstance
  fibers : BTreeMap Uuid Fiber
  joinCounts : BTreeMap JoinId ℕ := ∅
  dedupe : JobKey → Option JobCompletion := fun _ => none
  bufferedMessages : List ClaimedBufferedMessage := []
  incidents : BTreeMap Uuid Incident := ∅
  concurrencyTable : ConcurrencyTable := ∅
  pendingEffects : BTreeSet EffectId := ∅

inductive JoinMutation where
  | arrive (joinId : JoinId)
  | reset (joinId : JoinId)
  deriving DecidableEq

inductive BufferedMessageMutation where
  | insert (message : BufferedMessage)
  | deliver (message : BufferedMessage)
  | release (claimed : ClaimedBufferedMessage)
  | consume (claimed : ClaimedBufferedMessage)
  deriving DecidableEq

inductive JobMutation where
  | ackClaimed (jobKey : JobKey) (workerId claimToken : String)
  | retryClaimed (jobKey : JobKey) (workerId claimToken errorClass errorMessage : String)
      (notBeforeMs : ℤ)
  | deadLetterClaimed (jobKey : JobKey) (workerId claimToken errorClass errorMessage : String)
      (incidentId : Uuid)
  | cancel (jobKey : JobKey)
  deriving DecidableEq

structure DedupeWrite where
  key : JobKey
  completion : JobCompletion
  deriving DecidableEq

structure PendingInvocationWrite where
  calloutId : Uuid
  processInstanceId : Uuid
  nodeId : String
  targetDomain : String
  verbId : String
  idempotencyKey : Uuid
  executionId : Option Uuid
  submittedAt : Timestamp
  ackReceivedAt : Option Timestamp
  timeoutAt : Option Timestamp
  deriving DecidableEq

structure OutboxWrite where
  id : Uuid
  targetDomain : String
  targetEndpoint : String
  payload : Bytes
  idempotencyKey : Uuid
  calloutId : Uuid
  deriving DecidableEq

structure TerminalCleanup where
  deleteAllFibers : Bool := false
  deleteAllJoins : Bool := false
  cancelJobs : Bool := false
  deriving DecidableEq

structure StartCommand where
  tenantId : String
  instanceId : Uuid
  artifactHash : Digest
  processKey : String
  entryId : Uuid
  runbookId : Uuid
  correlationId : String
  idempotencyKey : Uuid
  initialPayload : String
  initialPayloadHash : Digest
  sessionStack : SessionStackState
  logicalTime : Timestamp

inductive JournalCommand where
  | kernel (command : Command)
  | start (command : StartCommand)
  | administrative (kind : String)

structure CommandEnvelope where
  commandId : Uuid
  logicalTime : Timestamp
  command : JournalCommand

structure ChildStart where
  inst : ProcessInstance
  rootFiber : Fiber
  startEvent : RuntimeEvent
  idempotencyKey : String

structure Transition where
  nextSnapshot : ProcessInstance
  fibersUpsert : List Fiber := []
  fibersDelete : List Uuid := []
  events : List RuntimeEvent := []
  effects : List DurableEffect := []
  effectMutations : List EffectMutation := []
  timerMutations : List TimerMutation := []
  jobsEnqueue : List JobActivation := []
  jobsAck : List JobKey := []
  jobMutations : List JobMutation := []
  dedupe : List DedupeWrite := []
  incidents : List Incident := []
  joinMutations : List JoinMutation := []
  bufferedMessages : List BufferedMessageMutation := []
  pendingInvocations : List PendingInvocationWrite := []
  pendingTake : List Uuid := []
  outbox : List OutboxWrite := []
  stateOverride : Option ProcessState := none
  childStarts : List ChildStart := []
  terminalCleanup : TerminalCleanup := {}
  startDedupe : Option StartCommand := none
  commandEnvelope : Option CommandEnvelope := none
  concurrencyMutations : List ConcurrencyMutation := []
  controlStackDeltas : List ControlStackDelta := []

structure PersistedSnapshotState where
  inst : ProcessInstance
  fibers : BTreeMap Uuid Fiber
  joinCounts : BTreeMap JoinId ℕ
  incidents : BTreeMap Uuid Incident
  concurrencyTable : ConcurrencyTable
  pendingEffects : BTreeSet EffectId

namespace PersistedSnapshotState

/-- The maps are rebuilt from the values under the ids the values carry. -/
def new (inst : ProcessInstance) (fibers : List Fiber) (joinCounts : BTreeMap JoinId ℕ)
    (incidents : List Incident) (concurrencyTable : ConcurrencyTable)
    (pendingEffects : List EffectId) : PersistedSnapshotState where
  inst := { inst with integrityHash := none }
  fibers := fibers.foldl (fun m fiber => m.insert fiber.fiberId fiber) ∅
  joinCounts := joinCounts
  incidents := incidents.foldl (fun m incident => m.insert incident.incidentId incident) ∅
  concurrencyTable := concurrencyTable
  pendingEffects := pendingEffects.foldl (fun s id => s.insert id) ∅

def toRuntimeSnapshot (state : PersistedSnapshotState) : Snapshot where
  inst := state.inst
  fibers := state.fibers.values.foldl (fun m fiber => m.insert fiber.fiberId fiber) ∅
  joinCounts := state.joinCounts
  incidents :=
    state.incidents.values.foldl (fun m incident => m.insert incident.incidentId incident) ∅
  concurrencyTable := state.concurrencyTable
  pendingEffects := state.pendingEffects.toList.foldl (fun s id => s.insert id) ∅

end PersistedSnapshotState

structure SnapshotEnvelope where
  artifactAbi : ℕ
  artifactHash : Digest
  revision : ℕ
  state : PersistedSnapshotState

structure JournalRecord where
  command : CommandEnvelope
  priorRevision : ℤ
  newRevision : ℕ
  artifactHash : Digest
  priorStateHash : Digest
  stateHash : Digest
  events : List RuntimeEvent
  effectIds : List EffectId

end BpmnLite
