import BpmnLite.ControlVerifier
import BpmnLite.Snapshot

/-!
# Frames, the K-invariants and the Ring 3 shadow check

A frame is the map of live fibres with the concurrency table. `ring3ShadowCheck` re-derives the
frame a transition leads to and rejects the transition when the frame is malformed.
-/

namespace BpmnLite

structure DeterministicContext where
  logicalTime : ℕ
  commandId : Uuid
  nextRevision : ℕ
  deriving DecidableEq

def DeterministicContext.derivedId (H : Host) (context : DeterministicContext) (ordinal : ℕ) :
    Uuid :=
  H.forCommand context.commandId context.nextRevision ordinal

/-- What Ring 3 found wrong, with the data its message prints. -/
inductive Ring3Violation where
  | zeroLiveFibres (instanceId : Uuid) (state : ProcessState)
  | pcOutOfBounds (fiberId : Uuid) (pc programLen : ℕ)
  | operandStackTooHigh (fiberId : Uuid) (height limit : ℕ)
  | controlStackTooDeep (fiberId : Uuid) (depth limit : ℕ)
  | k1DeadMember (recordId : RecordId) (member : Uuid)
  | k3BarrierCount (recordId : RecordId) (count arity : ℕ)
  | k2NotMember (fiberId : Uuid) (handle : RecordId)
  | k2NotArmed (fiberId : Uuid) (handle : RecordId) (state : RecordState)
  | k2NoRecord (fiberId : Uuid) (handle : RecordId)
  | k2NotOnStack (member : Uuid) (recordId : RecordId)
  | barrierUnsatisfiable (recordId : RecordId) (count notYetArrived members : ℕ)
  | effectSharedOwner (effectId : EffectId) (other fiberId : Uuid)
  deriving DecidableEq

inductive TransitionError where
  | unsupportedCommand (command : String)
  | invalidCommand (reason : String)
  | missingFiber (fiberId : Uuid)
  | programCounterOutOfBounds (pc : Addr)
  | stackUnderflow (instruction : String)
  | missingMetadata (metadata : String)
  | resourceLimitExceeded (resource : String) (actual limit : ℕ)
  | stepLimitExceeded (limit : ℕ)
  | numericOverflow (value : String)
  | optimisticConflict
  | integrity (violation : Ring3Violation)
  | routeNotMatched (node : String)
  | multiInstanceElementUnavailable (flag : FlagKey) (index : ℕ)
  deriving DecidableEq

/-- A fibre's open scopes: its control stack, with the record of the barrier or race it is parked
on. -/
def effectiveControlStack (fiber : Fiber) : List RecordId :=
  match fiber.wait with
  | .v2Barrier recordId | .v2Race recordId _ => fiber.controlStack ++ [recordId]
  | _ => fiber.controlStack

section
variable (fibers : BTreeMap Uuid Fiber) (table : ConcurrencyTable)

/-- K-1 and K-3 of one record. -/
def checkRecord (recordId : RecordId) (record : ConcurrencyRecord) : Option Ring3Violation :=
  if record.state ≠ .armed then none
  else
    match record.members.toList.find? (fun member => member ∉ fibers) with
    | some member => some (.k1DeadMember recordId member)
    | none =>
      if record.kind = .barrier ∧
          (record.counters.count = 0 ∨ record.counters.arity < record.counters.count) then
        some (.k3BarrierCount recordId record.counters.count record.counters.arity)
      else none

/-- K-2, from a handle on a fibre's stack to the record's members. -/
def checkHandle (fiberId : Uuid) (handle : RecordId) : Option Ring3Violation :=
  match table[handle]? with
  | some record =>
    if record.state ≠ .armed then some (.k2NotArmed fiberId handle record.state)
    else if fiberId ∉ record.members then some (.k2NotMember fiberId handle)
    else none
  | none => some (.k2NoRecord fiberId handle)

/-- K-2, from a record's members to their stacks. -/
def checkMember (recordId : RecordId) (member : Uuid) : Option Ring3Violation :=
  match fibers[member]? with
  | none => none
  | some fiber =>
    if recordId ∈ effectiveControlStack fiber then none
    else some (.k2NotOnStack member recordId)

def checkMembers (recordId : RecordId) (record : ConcurrencyRecord) : Option Ring3Violation :=
  if record.state ≠ .armed then none
  else record.members.toList.findSome? (checkMember fibers recordId)

def checkKInvariants : Option Ring3Violation :=
  (table.toList.findSome? (fun entry => checkRecord fibers entry.1 entry.2)).or
    ((fibers.toList.findSome? (fun entry =>
        (effectiveControlStack entry.2).findSome? (checkHandle table entry.1))).or
      (table.toList.findSome? (fun entry => checkMembers fibers entry.1 entry.2)))

/-- A live member that is not parked at the barrier. -/
def stillDue (recordId : RecordId) (member : Uuid) : Bool :=
  match fibers[member]? with
  | some fiber => fiber.wait ≠ .v2Barrier recordId
  | none => false

/-- Barriers that can no longer be released: fewer members still to arrive than arrivals due. -/
def checkBarrier (recordId : RecordId) (record : ConcurrencyRecord) : Option Ring3Violation :=
  if record.state ≠ .armed ∨ record.kind ≠ .barrier then none
  else
    let notYetArrived := (record.members.toList.filter (stillDue fibers recordId)).length
    if notYetArrived < record.counters.count then
      some (.barrierUnsatisfiable recordId record.counters.count notYetArrived
        record.members.toList.length)
    else none

end

def referencedEffects (fiber : Fiber) : List EffectId :=
  match fiber.wait with
  | .effect effectId => [effectId]
  | .v2Race _ arms => arms.filterMap (fun arm =>
      match arm with
      | .effect _ effectId _ => some effectId
      | .timer _ | .msg .. => none)
  | _ => []

/-- Walks the (effect, owner) pairs in order and stops at an effect with a second owner. -/
def checkEffectOwners : BTreeMap EffectId Uuid → List (EffectId × Uuid) → Option Ring3Violation
  | _, [] => none
  | owners, (effectId, fiberId) :: rest =>
    match owners[effectId]? with
    | some other =>
      if other ≠ fiberId then some (.effectSharedOwner effectId other fiberId)
      else checkEffectOwners (owners.insert effectId fiberId) rest
    | none => checkEffectOwners (owners.insert effectId fiberId) rest

def effectOwnerPairs (fibers : BTreeMap Uuid Fiber) : List (EffectId × Uuid) :=
  fibers.values.flatMap (fun fiber =>
    (referencedEffects fiber).map (fun effectId => (effectId, fiber.fiberId)))

def upsertFibers (pre : BTreeMap Uuid Fiber) (upserts : List Fiber) : BTreeMap Uuid Fiber :=
  upserts.foldl (fun fibers fiber => fibers.insert fiber.fiberId fiber) pre

def deleteFibers (pre : BTreeMap Uuid Fiber) (deletes : List Uuid) : BTreeMap Uuid Fiber :=
  deletes.foldl (fun fibers fiberId => fibers.erase fiberId) pre

def applyFiberDeltas (pre : BTreeMap Uuid Fiber) (upserts : List Fiber) (deletes : List Uuid)
    (deleteAllFibers : Bool) : BTreeMap Uuid Fiber :=
  if deleteAllFibers then ∅ else deleteFibers (upsertFibers pre upserts) deletes

def derivePostTransitionFrame (snapshot : Snapshot) (transition : Transition) :
    BTreeMap Uuid Fiber × ConcurrencyTable :=
  (applyFiberDeltas snapshot.fibers transition.fibersUpsert transition.fibersDelete
      transition.terminalCleanup.deleteAllFibers,
    ConcurrencyTable.applyMutations snapshot.concurrencyTable transition.concurrencyMutations)

def checkUpsert (workflow : ExecutableWorkflow) (fiber : Fiber) : Option Ring3Violation :=
  if workflow.instructions.length ≤ fiber.pc then
    some (.pcOutOfBounds fiber.fiberId fiber.pc workflow.instructions.length)
  else if workflow.limits.maxStack < fiber.stack.length then
    some (.operandStackTooHigh fiber.fiberId fiber.stack.length workflow.limits.maxStack)
  else if workflow.limits.maxControlDepth < fiber.controlStack.length then
    some (.controlStackTooDeep fiber.fiberId fiber.controlStack.length
      workflow.limits.maxControlDepth)
  else none

def ring3ShadowCheck (workflow : ExecutableWorkflow) (snapshot : Snapshot)
    (transition : Transition) : Option Ring3Violation :=
  let (fibers, table) := derivePostTransitionFrame snapshot transition
  let effectiveState := transition.stateOverride.getD transition.nextSnapshot.state
  if fibers.isEmpty ∧ ¬ effectiveState.isTerminal then
    some (.zeroLiveFibres snapshot.inst.instanceId effectiveState)
  else
    (transition.fibersUpsert.findSome? (checkUpsert workflow)).or
      ((checkKInvariants fibers table).or
        ((table.toList.findSome? (fun entry => checkBarrier fibers entry.1 entry.2)).or
          (checkEffectOwners ∅ (effectOwnerPairs fibers))))

def applyJoinMutation (joins : BTreeMap JoinId ℕ) : JoinMutation → BTreeMap JoinId ℕ
  | .arrive joinId => joins.insert joinId (min (joins.getD joinId 0 + 1) (2 ^ 16 - 1))
  | .reset joinId => joins.insert joinId 0

def materializeSnapshot (prior : PersistedSnapshotState) (transition : Transition)
    (artifactAbi revision : ℕ) : SnapshotEnvelope :=
  let inst := match transition.stateOverride with
    | some state => { transition.nextSnapshot with state }
    | none => transition.nextSnapshot
  let fibers := deleteFibers (upsertFibers prior.fibers transition.fibersUpsert)
    transition.fibersDelete
  let joins := transition.joinMutations.foldl applyJoinMutation prior.joinCounts
  let incidents := transition.incidents.foldl
    (fun incidents incident => incidents.insert incident.incidentId incident) prior.incidents
  let concurrencyTable :=
    ConcurrencyTable.applyMutations prior.concurrencyTable transition.concurrencyMutations
  let fibers := if transition.terminalCleanup.deleteAllFibers then ∅ else fibers
  let joins := if transition.terminalCleanup.deleteAllJoins then ∅ else joins
  { artifactAbi
    artifactHash := inst.bytecodeVersion
    revision
    state := PersistedSnapshotState.new inst fibers.values joins incidents.values concurrencyTable
      prior.pendingEffects.toList }

end BpmnLite
