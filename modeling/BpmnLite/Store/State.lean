import BpmnLite.Kernel.Apply

/-!
# The memory store

The reference store keeps everything in ordered maps under one lock. Maps that the source indexes by
a pair are indexed by the pair here too. The instants at which a completion was cached or a job was
handed out are left out: no operation returns them.
-/

namespace BpmnLite

instance pairOrd {α β : Type} [Ord α] [Ord β] : Ord (α × β) := lexOrd

def JobKey.parts : JobKey → ℕ × Uuid × String × Addr × ℕ
  | .activation instanceId serviceTaskId pc loopEpoch =>
    (0, instanceId, serviceTaskId, pc, loopEpoch)
  | .text s => (1, 0, s, 0, 0)

theorem JobKey.parts_injective : Function.Injective JobKey.parts := by
  intro a b h
  cases a <;> cases b <;> simp_all [JobKey.parts]

instance : Ord JobKey := ⟨compareOn JobKey.parts⟩

instance : Std.TransCmp (α := JobKey) compare :=
  inferInstanceAs (Std.TransCmp (compareOn JobKey.parts))

theorem JobKey.compare_eq (a b : JobKey) : compare a b = compare a.parts b.parts := rfl

instance : Std.LawfulEqCmp (α := JobKey) compare where
  compare_self := by simp
  eq_of_compare h := by
    rw [JobKey.compare_eq, Std.LawfulEqCmp.compare_eq_iff_eq] at h
    exact JobKey.parts_injective h

/-- Tenant, name, correlation key and id of a buffered message. -/
abbrev MessageKey := String × String × String × String

instance messageKeyTransCmp : Std.TransCmp (α := MessageKey) compare := inferInstance

def BufferedMessage.key (message : BufferedMessage) : MessageKey :=
  (message.tenantId, message.messageName, message.correlationKey, message.msgId)

/-- The right to commit one revision of an instance. -/
structure Claim where
  tenantId : String
  instanceId : Uuid
  expectedRevision : ℕ
  fence : ℕ
  leaseToken : String
  deriving DecidableEq

structure TransitionLease where
  owner : String
  expiresAt : ℕ
  fence : ℕ
  leaseToken : String
  deriving DecidableEq

/-- The holder of a timer or of an effect, with its token and the end of its lease. -/
structure Lease where
  owner : String
  token : Uuid
  expiresAt : ℕ
  deriving DecidableEq

inductive MemoryTimerState where
  | armed
  | consumed
  | cancelled
  deriving DecidableEq

structure MemoryTimer where
  tenantId : String
  instanceId : Uuid
  fiberId : Uuid
  dueAt : ℕ
  kind : TimerKind
  repeatSpec : Option TimerRepeatSpec
  state : MemoryTimerState := .armed
  claim : Option Lease := none
  deriving DecidableEq

inductive MemoryEffectState where
  | pending
  | dispatching
  | accepted
  | terminal
  deriving DecidableEq

structure MemoryEffect where
  tenantId : String
  instanceId : Uuid
  effect : DurableEffect
  state : MemoryEffectState := .pending
  claim : Option Lease := none
  response : Option EffectResponse := none
  attempt : ℕ := 0
  policyVersion : ℕ := 1

inductive MemoryActivationStatus where
  | ready
  | claimed
  | deadLettered
  deriving DecidableEq

structure ActivationClaim where
  owner : String
  token : String
  expiresAt : Timestamp
  deriving DecidableEq

structure MemoryActivation where
  tenantId : String
  instanceId : Uuid
  commandId : Uuid
  commandKind : String
  command : Command
  status : MemoryActivationStatus := .ready
  availableAtMs : Timestamp
  priority : ℤ := 0
  seq : ℕ
  claim : Option ActivationClaim := none
  attemptCount : ℕ := 0

structure PendingInvocation where
  tenantId : String
  calloutId : Uuid
  processInstanceId : Uuid
  nodeId : String
  targetDomain : String
  verbId : String
  idempotencyKey : Uuid
  executionId : Option Uuid
  submittedAt : Timestamp
  ackReceivedAt : Option Timestamp
  timeoutAt : Option Timestamp
  deriving DecidableEq

structure Store where
  instances : BTreeMap Uuid ProcessInstance := ∅
  fibers : BTreeMap (Uuid × Uuid) Fiber := ∅
  joinCounters : BTreeMap (Uuid × JoinId) ℕ := ∅
  dedupe : BTreeMap JobKey JobCompletion := ∅
  messageBuffer : BTreeMap MessageKey BufferedMessage := ∅
  messageBufferClaims : BTreeMap MessageKey (String × Timestamp) := ∅
  messageBufferConsumed : BTreeSet MessageKey := ∅
  jobQueue : List JobActivation := []
  inflightJobs : BTreeMap JobKey JobActivation := ∅
  events : BTreeMap Uuid (List (ℕ × RuntimeEvent)) := ∅
  eventSeq : BTreeMap Uuid ℕ := ∅
  payloadHistory : BTreeMap (Uuid × Digest) String := ∅
  incidents : BTreeMap Uuid (List Incident) := ∅
  concurrencyTables : BTreeMap Uuid ConcurrencyTable := ∅
  transitionLeases : BTreeMap Uuid TransitionLease := ∅
  revisions : BTreeMap Uuid ℕ := ∅
  durableEffects : BTreeMap EffectId MemoryEffect := ∅
  timers : BTreeMap EffectId MemoryTimer := ∅
  outbox : BTreeMap Uuid OutboxWrite := ∅
  starts : BTreeMap (String × Uuid) Uuid := ∅
  snapshots : BTreeMap Uuid SnapshotEnvelope := ∅
  journals : BTreeMap Uuid (List JournalRecord) := ∅
  activations : BTreeMap Uuid MemoryActivation := ∅
  activationDedupe : BTreeMap (String × Uuid) Uuid := ∅
  activationSeqCounter : ℕ := 0
  pendingStore : BTreeMap Uuid PendingInvocation := ∅

/-- The third-party functions the store rests on beside the kernel's: the digest of a snapshot
envelope, the digest of an instance's immutable fields, and whether a number of milliseconds is a
date the calendar library represents. -/
structure StoreHost extends Host where
  stateHash : SnapshotEnvelope → Except String Digest
  integrityHash : ProcessInstance → Digest
  isTimestampMillis : Timestamp → Bool

inductive CommitError where
  | conflict
  | staleFence
  | integrity (message : String)
  | unavailable (message : String)
  deriving DecidableEq

/-- How a commit ends without committing: an error, or the outcome `IdempotentNoOp`. -/
inductive CommitStop where
  | failed (error : CommitError)
  | idempotentNoOp
  deriving DecidableEq

def RecordKind.debug : RecordKind → String
  | .guard true => "Guard \x7b interrupting: true \x7d"
  | .guard false => "Guard \x7b interrupting: false \x7d"
  | .race => "Race"
  | .barrier => "Barrier"
  | .compensation => "Compensation"

def ConcurrencyValidationError.message : ConcurrencyValidationError → String
  | .countersOutOfBounds id kind count arity =>
    s!"record {uuidText id}: {kind.debug} counters out of bounds (count={count} > arity={arity})"
  | .unexpectedCounters id kind arity count =>
    s!"record {uuidText id}: kind {kind.debug} must not carry non-default counters " ++
      s!"(arity={arity}, count={count})"
  | .unexpectedOpenedAt id kind =>
    s!"record {uuidText id}: kind {kind.debug} must not carry opened_at (Guard-only field)"
  | .rollbackFieldsOnNonGuard id kind =>
    s!"record {uuidText id}: kind {kind.debug} must not carry rollback_* fields (Guard-only, A18)"
  | .partialRollbackSnapshot id =>
    s!"record {uuidText id}: rollback_* fields must be populated all-together or not at all"
  | .rollbackFieldsOnGuardN id =>
    s!"record {uuidText id}: rollback_* fields set on a non-interrupting Guard " ++
      "(V2GuardN is never rollback-eligible, A18)"
  | .guardMissingOpenedAt id =>
    s!"record {uuidText id}: Guard-kind record missing opened_at"
  | .compensationUninhabited id =>
    s!"record {uuidText id}: RecordKind::Compensation is uninhabited in v2 -- no v2 word " ++
      "constructs it, rejecting insert"
  | .retireMissing id =>
    s!"cannot retire record {uuidText id}: not present in the concurrency table"
  | .removeMissing id =>
    s!"cannot remove record {uuidText id}: not present in the concurrency table"

end BpmnLite
