import BpmnLite.Kernel.Frame

/-!
# Scopes: membership, cancellation, rollback and guard triggers

The changes a command accumulates, and the operations on scopes the instruction and command
handlers share: reading a record through the changes made so far, reconciling the membership of
enclosing records, cancelling everything nested in a scope, rolling a scope back, and starting a
guard's handler.
-/

namespace BpmnLite

structure Changes where
  fibersUpsert : List Fiber := []
  fibersDelete : List Uuid := []
  events : List RuntimeEvent := []
  effects : List DurableEffect := []
  effectMutations : List EffectMutation := []
  timerMutations : List TimerMutation := []
  jobsEnqueue : List JobActivation := []
  jobsAck : List JobKey := []
  jobMutations : List JobMutation := []
  dedupe : List DedupeWrite := []
  incidents : List Incident := []
  joinMutations : List JoinMutation := []
  bufferedMessages : List BufferedMessageMutation := []
  cleanup : Option TerminalCleanup := none
  concurrencyMutations : List ConcurrencyMutation := []
  controlStackDeltas : List ControlStackDelta := []

namespace Changes

variable (changes : Changes)

def finish (inst : ProcessInstance) : Transition where
  nextSnapshot := inst
  fibersUpsert := changes.fibersUpsert
  fibersDelete := changes.fibersDelete
  events := changes.events
  effects := changes.effects
  effectMutations := changes.effectMutations
  timerMutations := changes.timerMutations
  jobsEnqueue := changes.jobsEnqueue
  jobsAck := changes.jobsAck
  jobMutations := changes.jobMutations
  dedupe := changes.dedupe
  incidents := changes.incidents
  joinMutations := changes.joinMutations
  bufferedMessages := changes.bufferedMessages
  terminalCleanup := changes.cleanup.getD {}
  concurrencyMutations := changes.concurrencyMutations
  controlStackDeltas := changes.controlStackDeltas

def event (event : RuntimeEvent) : Changes :=
  { changes with events := changes.events ++ [event] }

def mutate (mutation : ConcurrencyMutation) : Changes :=
  { changes with concurrencyMutations := changes.concurrencyMutations ++ [mutation] }

def mutateAll (mutations : List ConcurrencyMutation) : Changes :=
  { changes with concurrencyMutations := changes.concurrencyMutations ++ mutations }

def delta (delta : ControlStackDelta) : Changes :=
  { changes with controlStackDeltas := changes.controlStackDeltas ++ [delta] }

def upsert (fiber : Fiber) : Changes :=
  { changes with fibersUpsert := changes.fibersUpsert ++ [fiber] }

def delete (fiberIds : List Uuid) : Changes :=
  { changes with fibersDelete := changes.fibersDelete ++ fiberIds }

def effect (effect : DurableEffect) : Changes :=
  { changes with effects := changes.effects ++ [effect] }

end Changes

inductive MembershipOp where
  | add (fiberId : Uuid)
  | remove (fiberId : Uuid)
  deriving DecidableEq

def MembershipOp.apply (record : ConcurrencyRecord) : MembershipOp → ConcurrencyRecord
  | .add fiberId => { record with members := record.members.insert fiberId }
  | .remove fiberId => { record with members := record.members.erase fiberId }

/-- Searches mutations from the last one back: a record retired or removed reads as absent. -/
def fetchRecord (table : ConcurrencyTable) (handle : RecordId) :
    List ConcurrencyMutation → Option ConcurrencyRecord
  | [] => table[handle]?
  | .insert record :: earlier =>
    if record.id = handle then some record else fetchRecord table handle earlier
  | .retire id :: earlier | .remove id :: earlier =>
    if id = handle then none else fetchRecord table handle earlier

section
variable (snapshot : Snapshot)

def fetchRecordInTransition (changes : Changes) (handle : RecordId) : Option ConcurrencyRecord :=
  fetchRecord snapshot.concurrencyTable handle changes.concurrencyMutations.reverse

def armedRecordIdsInTransition (changes : Changes) : List RecordId :=
  ((ConcurrencyTable.applyMutations snapshot.concurrencyTable
      changes.concurrencyMutations).toList.filter (fun entry => entry.2.state = .armed)).map
    Prod.fst

/-- One membership operation on the records touched so far. -/
def touchRecord (exclude : List RecordId) (changes : Changes)
    (touched : BTreeMap RecordId ConcurrencyRecord) (op : RecordId × MembershipOp) :
    BTreeMap RecordId ConcurrencyRecord :=
  if op.1 ∈ exclude then touched
  else
    match (touched[op.1]?).or (fetchRecordInTransition snapshot changes op.1) with
    | some record => touched.insert op.1 (op.2.apply record)
    | none => touched

def v2ReconcileAncestorMembership (ops : List (RecordId × MembershipOp))
    (exclude : List RecordId) (changes : Changes) : Changes :=
  changes.mutateAll
    ((ops.foldl (touchRecord snapshot exclude changes) ∅).values.map .insert)

/-- `none` when `parent` is not on the chain, otherwise what stands right above it. -/
def scopeAbove (parent : RecordId) : List RecordId → Option (Option RecordId)
  | [] => none
  | handle :: rest => if handle = parent then some rest.head? else scopeAbove parent rest

/-- The scopes opened directly inside `parent`, in order. -/
def childScopes (parent : RecordId) : List RecordId :=
  (snapshot.fibers.values.foldl (fun (children : BTreeSet RecordId) fiber =>
    match scopeAbove parent (effectiveControlStack fiber) with
    | some (some child) => children.insert child
    | _ => children) ∅).toList

def directLeaves (parent : RecordId) : List Uuid :=
  (snapshot.fibers.values.filter (fun fiber =>
    scopeAbove parent (effectiveControlStack fiber) = some none)).map (·.fiberId)

/-- The records to retire and the fibres to cancel, innermost scopes first. The source recurses
without a bound; `fuel` bounds the nesting. -/
def v2CancelGuardScopeFuel : ℕ → RecordId → List RecordId × List Uuid
  | 0, _ => ([], [])
  | fuel + 1, parent =>
    let nested := (childScopes snapshot parent).map (v2CancelGuardScopeFuel fuel)
    (nested.flatMap Prod.fst ++ [parent], nested.flatMap Prod.snd ++ directLeaves snapshot parent)

/-- One more than the deepest control stack of the snapshot. -/
def scopeFuel : ℕ :=
  (snapshot.fibers.values.map (fun fiber => (effectiveControlStack fiber).length)).foldl max 0 + 1

def v2CancelGuardScope (parent : RecordId) : List RecordId × List Uuid :=
  v2CancelGuardScopeFuel snapshot (scopeFuel snapshot) parent

/-- Takes the cancelled fibres out of the records of their control stacks. -/
def removalOps (cancelled : List Uuid) : List (RecordId × MembershipOp) :=
  cancelled.flatMap (fun fiberId =>
    match snapshot.fibers[fiberId]? with
    | some dead => dead.controlStack.map (fun ancestor => (ancestor, .remove fiberId))
    | none => [])

def cancelledJobs (cancelled : List Uuid) : List JobMutation :=
  cancelled.filterMap (fun fiberId =>
    match snapshot.fibers[fiberId]? with
    | some dead =>
      match dead.wait with
      | .job jobKey => some (.cancel jobKey)
      | _ => none
    | none => none)

end

inductive RollbackCaller where
  | continues (fiberId : Uuid)
  | dies (fiberId : Uuid)
  deriving DecidableEq

structure RollbackSnapshot where
  domainPayload : String
  domainPayloadHash : Digest
  flags : BTreeMap FlagKey Value
  joinExpected : BTreeMap JoinId ℕ
  sessionStack : SessionStackState

def RollbackSnapshot.restore (restored : RollbackSnapshot) (inst : ProcessInstance) :
    ProcessInstance :=
  { inst with
    domainPayload := restored.domainPayload
    domainPayloadHash := restored.domainPayloadHash
    flags := restored.flags
    joinExpected := restored.joinExpected
    sessionStack := restored.sessionStack }

section
variable (H : Host) (snapshot : Snapshot)

def rollbackSnapshotOf (record : ConcurrencyRecord) : Except TransitionError RollbackSnapshot :=
  match record.rollbackDomainPayload, record.rollbackDomainPayloadHash, record.rollbackFlags,
    record.rollbackJoinExpected, record.rollbackSessionStack with
  | some payload, some hash, some flags, some joinExpected, some session =>
    match H.fromRollbackSnapshot session with
    | .ok sessionStack => .ok ⟨payload, hash, flags, joinExpected, sessionStack⟩
    | .error _ => .error (.invalidCommand "rollback: malformed session-stack snapshot")
  | _, _, _, _, _ => .error (.invalidCommand
      "rollback: handle carries no rollback snapshot (not a GUARD-R> scope)")

/-- The fibre the scope-cancelled event names, and the fibres the rollback deletes. -/
def RollbackCaller.resolve (cancelled : List Uuid) : RollbackCaller → Uuid × List Uuid
  | .continues fiberId => (fiberId, cancelled.filter (· ≠ fiberId))
  | .dies fiberId => (fiberId, cancelled)

def v2RollbackGuardScope (guardHandle : RecordId) (caller : RollbackCaller) (changes : Changes) :
    Except TransitionError (RollbackSnapshot × Changes) :=
  match fetchRecordInTransition snapshot changes guardHandle with
  | none => .error (.invalidCommand "rollback: unknown scope handle")
  | some record => do
    let restored ← rollbackSnapshotOf H record
    let (retireOrder, leaves) := v2CancelGuardScope snapshot guardHandle
    let (fiberId, cancelled) := caller.resolve leaves
    let changes := (changes.mutateAll (retireOrder.map .retire)).delete cancelled
    let changes := v2ReconcileAncestorMembership snapshot (removalOps snapshot cancelled)
      retireOrder changes
    return (restored,
      changes.event (.v2ScopeCancelled guardHandle fiberId retireOrder cancelled))

/-- The scopes a handler starts in: those below the guard, and the guard itself when it does not
interrupt. They are read off the first fibre that holds the guard. -/
def handlerStack (recordId : RecordId) (interrupting : Bool) : List Handle :=
  (snapshot.fibers.values.findSome? (fun fiber =>
    if recordId ∈ fiber.controlStack then
      some (fiber.controlStack.takeWhile (· ≠ recordId) ++
        if interrupting then [] else [recordId])
    else none)).getD []

def v2TriggerGuardChangesWithTarget (recordId : RecordId) (context : DeterministicContext)
    (handlerTarget : Addr) : Except TransitionError Changes :=
  match snapshot.concurrencyTable[recordId]? with
  | none => .error (.invalidCommand "V2TriggerGuard: unknown guard handle")
  | some record =>
    match record.kind with
    | .guard interrupting =>
      if record.state ≠ .armed then
        .error (.invalidCommand "V2TriggerGuard: guard is not armed")
      else
        let stack := handlerStack snapshot recordId interrupting
        let handlerFiberId := context.derivedId H 0
        let handlerFiber := { Fiber.new handlerFiberId handlerTarget with controlStack := stack }
        let changes := (({} : Changes).upsert handlerFiber).event
          (.fiberSpawned handlerFiberId handlerTarget none)
        let changes := v2ReconcileAncestorMembership snapshot
          (stack.map (fun ancestor => (ancestor, .add handlerFiberId))) [] changes
        if interrupting then
          let (retireOrder, cancelled) := v2CancelGuardScope snapshot recordId
          let changes := (changes.mutateAll (retireOrder.map .retire)).delete cancelled
          let changes := { changes with
            jobMutations := changes.jobMutations ++ cancelledJobs snapshot cancelled }
          let changes := v2ReconcileAncestorMembership snapshot (removalOps snapshot cancelled)
            retireOrder changes
          .ok (changes.event (.v2GuardTriggered recordId handlerFiberId retireOrder cancelled))
        else .ok (changes.event (.v2GuardNTriggered recordId handlerFiberId))
    | _ => .error (.invalidCommand "V2TriggerGuard: handle is not a guard")

def v2TriggerGuardChanges (recordId : RecordId) (context : DeterministicContext) :
    Except TransitionError Changes :=
  match snapshot.concurrencyTable[recordId]? with
  | none => .error (.invalidCommand "V2TriggerGuard: unknown guard handle")
  | some record =>
    match record.kind with
    | .guard _ =>
      if record.state ≠ .armed then
        .error (.invalidCommand "V2TriggerGuard: guard is not armed")
      else
        match record.handler with
        | some handlerTarget =>
          v2TriggerGuardChangesWithTarget H snapshot recordId context handlerTarget
        | none => .error (.invalidCommand "V2TriggerGuard: guard has no handler address")
    | _ => .error (.invalidCommand "V2TriggerGuard: handle is not a guard")

end

end BpmnLite
