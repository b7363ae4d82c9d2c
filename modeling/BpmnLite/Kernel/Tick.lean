import BpmnLite.Kernel.Scope

/-!
# The tick: executing the instructions of one fibre

A tick runs one fibre until it parks, forks or ends. `TickState` is what the loop carries from
instruction to instruction; `execute` is one instruction; `runTick` is the loop with the verified
step limit as its bound. Words that differ only in the record they open, the scope they close or
the effect they emit share one definition.
-/

namespace BpmnLite

def hexDigits : ℕ → ℕ → List Char
  | 0, _ => []
  | width + 1, n => hexDigits width (n / 16) ++ [Nat.digitChar (n % 16)]

def digestHex (digest : Digest) : String := String.ofList (hexDigits 64 digest)

def uuidText (id : Uuid) : String :=
  let digits := hexDigits 32 id
  String.ofList (digits.take 8 ++ '-' :: (digits.drop 8).take 4 ++ '-' :: (digits.drop 12).take 4 ++
    '-' :: (digits.drop 16).take 4 ++ '-' :: digits.drop 20)

def JobKey.toText : JobKey → String
  | .activation instanceId serviceTaskId pc loopEpoch =>
    s!"{uuidText instanceId}:{serviceTaskId}:{pc}:{loopEpoch}"
  | .text s => s

def isTruthy : Value → Bool
  | .bool b => b
  | .i64 n => n ≠ 0
  | .str id | .ref id => id ≠ 0
  | .array items => items ≠ []

/-- Decimal digits below the given bound, as `str::parse` reads them. -/
def parseDigits (bound : ℕ) : List Char → ℕ → Option ℕ
  | [], n => some n
  | c :: rest, n =>
    if c.isDigit ∧ n * 10 + (c.toNat - 48) < bound then
      parseDigits bound rest (n * 10 + (c.toNat - 48))
    else none

def parseFlagName (name : String) : Option FlagKey :=
  match name.toList with
  | 'f' :: 'l' :: 'a' :: 'g' :: '_' :: '+' :: c :: rest => parseDigits (2 ^ 32) (c :: rest) 0
  | 'f' :: 'l' :: 'a' :: 'g' :: '_' :: c :: rest => parseDigits (2 ^ 32) (c :: rest) 0
  | _ => none

def applyOrchFlags (flags : BTreeMap FlagKey Value) :
    List (String × Value) → Except TransitionError (BTreeMap FlagKey Value)
  | [] => .ok flags
  | (name, value) :: rest =>
    match parseFlagName name with
    | some key => applyOrchFlags (flags.insert key value) rest
    | none => .error (.invalidCommand "orch_flags key must be flag_<u32>")

def applyCompletion (H : Host) (inst : ProcessInstance) (completion : JobCompletion) :
    Except TransitionError ProcessInstance := do
  let flags ← applyOrchFlags inst.flags completion.orchFlags.toList
  return { inst with
    domainPayload := completion.domainPayload
    domainPayloadHash := H.contentHash completion.domainPayload
    flags }

def miCollectionLen (inst : ProcessInstance) (flag : FlagKey) : ℕ :=
  match inst.flags[flag]? with
  | some (.array items) => items.length
  | _ => 0

def messageNameMatches (names : BTreeMap ℕ String) (requested : String) (waiting : ℕ) : Bool :=
  match names[waiting]? with
  | some name => name = requested
  | none => requested = toString waiting

def logicalTimestamp (context : DeterministicContext) : Except TransitionError Timestamp :=
  if context.logicalTime < 2 ^ 63 then .ok context.logicalTime
  else .error (.numericOverflow "logical timestamp")

def publishedMessageTtlMs : ℕ := 300000

structure TickState where
  fiber : Fiber
  inst : ProcessInstance
  changes : Changes := {}
  ordinal : ℕ := 0
  raceArms : List V2RaceArm := []

inductive TickOutcome where
  | next (state : TickState)
  | done (transition : Transition)

namespace TickState

variable (ts : TickState)

def goto (pc : Addr) : TickState := { ts with fiber := { ts.fiber with pc } }

def advance : TickState := ts.goto (ts.fiber.pc + 1)

def push (value : Value) : TickState :=
  { ts with fiber := { ts.fiber with stack := ts.fiber.stack ++ [value] } }

def event (event : RuntimeEvent) : TickState := { ts with changes := ts.changes.event event }

def park (wait : WaitState) : TickOutcome :=
  .done ((ts.changes.upsert { ts.fiber with wait }).finish ts.inst)

def pop (word : String) : Except TransitionError (TickState × Value) :=
  match popLast ts.fiber.stack with
  | some (stack, value) => .ok ({ ts with fiber := { ts.fiber with stack } }, value)
  | none => .error (.stackUnderflow word)

def popScope (word : String) : Except TransitionError (TickState × Handle) :=
  match popLast ts.fiber.controlStack with
  | some (controlStack, handle) =>
    .ok ({ ts with
      fiber := { ts.fiber with controlStack }
      changes := ts.changes.delta (.pop ts.fiber.fiberId handle) }, handle)
  | none => .error (.stackUnderflow word)

def popDuration (word reason : String) : Except TransitionError (TickState × ℤ) := do
  let (ts, value) ← ts.pop word
  match value with
  | .i64 duration => return (ts, duration)
  | _ => throw (.invalidCommand reason)

def topScope (reason : String) : Except TransitionError Handle :=
  match ts.fiber.controlStack.getLast? with
  | some handle => .ok handle
  | none => .error (.invalidCommand reason)

/-- Opens a scope: its record is inserted with the fibre as the only member, and its handle goes
on the control stack. -/
def openScope (record : ConcurrencyRecord) (opened : RuntimeEvent) : TickState :=
  { ts with
    fiber := { ts.fiber with
      controlStack := ts.fiber.controlStack ++ [record.id], pc := ts.fiber.pc + 1 }
    changes := ((ts.changes.mutate (.insert
        { record with members := record.members.insert ts.fiber.fiberId })).delta
      (.push ts.fiber.fiberId record.id)).event opened
    ordinal := ts.ordinal + 1 }

def closeScope (word : String) : Except TransitionError TickOutcome := do
  let (ts, handle) ← ts.popScope word
  return .next ({ ts with
    changes := (ts.changes.mutate (.retire handle)).event
      (.v2GuardRetired handle ts.fiber.fiberId) }).advance

end TickState

section
variable (H : Host) (workflow : ExecutableWorkflow) (snapshot : Snapshot)
  (context : DeterministicContext) (ts : TickState)

def nodeName (pc : Addr) : String := workflow.metadata.debugMap.getD pc s!"pc_{pc}"

def failContract (message : String) : Except TransitionError TickOutcome := do
  let createdAt ← logicalTimestamp context
  let incidentId := context.derivedId H 0
  let fiber := ts.fiber
  let incident : Incident := {
    incidentId
    processInstanceId := ts.inst.instanceId
    fiberId := fiber.fiberId
    serviceTaskId := s!"pc_{fiber.pc}"
    bytecodeAddr := fiber.pc
    errorClass := .contractViolation
    message
    retryCount := 0
    createdAt
    resolvedAt := none
    resolution := none }
  let changes := { ts.changes with incidents := ts.changes.incidents ++ [incident] }
  let changes := (changes.event (.incidentCreated incidentId s!"pc_{fiber.pc}" none)).upsert
    { fiber with wait := .incident incidentId }
  return .done (changes.finish { ts.inst with state := .incidented incidentId })

def resolveCorrelationKeyAt (inst : ProcessInstance) (pc : Addr) :
    Except TransitionError String :=
  match workflow.metadata.v2CorrSources[pc]? with
  | none => .error (.invalidCommand "message word has no correlation-key source")
  | some source => (resolveCorrelationKey H inst source).mapError
      (fun _ => .invalidCommand "correlation key did not resolve to a scalar")

def jobActivation (jobKey : JobKey) (taskType serviceTaskId : String) : JobActivation where
  jobKey
  tenantId := ts.inst.tenantId
  processInstanceId := ts.inst.instanceId
  taskType
  serviceTaskId
  domainPayload := ts.inst.domainPayload
  domainPayloadHash := ts.inst.domainPayloadHash
  sessionStack := ts.inst.sessionStack
  orchFlags := ts.inst.flags.toList.foldl
    (fun flags entry => flags.insert s!"flag_{entry.1}" entry.2) ∅
  retriesRemaining := 3
  entryId := ts.inst.entryId
  runbookId := ts.inst.runbookId
  workerId := ""
  claimToken := ""
  claimExpiresAt := none
  attemptCount := 0
  failureCount := 0
  notBefore := none

/-- A service task: a cached completion is applied by `complete`; otherwise the job is enqueued and
the fibre parks at the same address. -/
def execTask (taskType : ℕ) (complete : TickState → Except TransitionError TickState) :
    Except TransitionError TickOutcome :=
  match workflow.metadata.taskManifest[taskType]? with
  | none => .error (.missingMetadata "task manifest")
  | some taskType =>
    let pc := ts.fiber.pc
    let serviceTaskId := nodeName workflow pc
    let jobKey := .activation ts.inst.instanceId serviceTaskId pc ts.fiber.loopEpoch
    match snapshot.dedupe jobKey with
    | some completion => do
      let inst ← applyCompletion H ts.inst completion
      let ts ← complete { ts with inst }
      return .next ts.advance
    | none =>
      let changes := { ts.changes with
        jobsEnqueue := ts.changes.jobsEnqueue ++ [jobActivation ts jobKey taskType serviceTaskId] }
      let ts := { ts with changes := changes.event (.jobActivated jobKey taskType serviceTaskId pc) }
      .ok (ts.park (.job jobKey))

def bindProduced (producesPlaceholder : Option String) (ts : TickState) :
    Except TransitionError TickState :=
  match producesPlaceholder with
  | none => .ok ts
  | some placeholder => do
    let inst ← (ts.inst.bindPlaceholderFromPayload H placeholder).mapError .invalidCommand
    return { ts with inst }

def invokeEffect (declarations : BTreeMap Addr FfiTaskDecl) (missing mismatch : String)
    (templateId : Digest) : Except TransitionError (TickState × EffectId) :=
  let pc := ts.fiber.pc
  match declarations[pc]? with
  | none => .error (.missingMetadata missing)
  | some declaration =>
    if declaration.templateId ≠ templateId then .error (.missingMetadata mismatch)
    else do
      let input ← (encodeFfiInputs H ts.inst declaration).mapError
        (fun _ => .invalidCommand "FFI input contract violation")
      let effectId := H.forInstruction ts.inst.instanceId ts.fiber.fiberId pc
      let changes := (ts.changes.effect (.invoke effectId ts.fiber.fiberId pc
        (digestHex templateId) templateId input (uuidText effectId))).event
          (.ffiInvocationPending effectId templateId (nodeName workflow pc) pc "")
      return ({ ts with changes }, effectId)

def execEffect (declarations : BTreeMap Addr FfiTaskDecl) (missing mismatch : String)
    (templateId : Digest) : Except TransitionError TickOutcome := do
  let (ts, effectId) ← invokeEffect H workflow ts declarations missing mismatch templateId
  return ts.park (.effect effectId)

def publishMessage (name : ℕ) : Except TransitionError TickOutcome := do
  let correlationKey ← resolveCorrelationKeyAt H workflow ts.inst ts.fiber.pc
  let messageName := workflow.metadata.messageNameMap.getD name (toString name)
  let msgId := s!"publish:{uuidText ts.inst.instanceId}:{uuidText ts.fiber.fiberId}:{ts.fiber.pc}"
  if 2 ^ 63 ≤ context.logicalTime + publishedMessageTtlMs then
    throw (.numericOverflow "published message expiry")
  let expiresAt : ℤ := context.logicalTime + publishedMessageTtlMs
  let receivedAt ← logicalTimestamp context
  let message : BufferedMessage := {
    tenantId := ts.inst.tenantId
    messageName, correlationKey, msgId
    payload := []
    payloadHash := none
    processInstanceId := some ts.inst.instanceId
    receivedAt, expiresAt }
  let changes := { ts.changes with
    bufferedMessages := ts.changes.bufferedMessages ++ [BufferedMessageMutation.insert message] }
  let ts := { ts with
    changes := changes.event (.messageBuffered messageName correlationKey msgId expiresAt) }
  return .next ts.advance

def incCounter (counterId : ℕ) : TickOutcome :=
  let count := satAdd32 (ts.inst.counters.getD counterId 0) 1
  let loopEpoch := satAdd32 ts.fiber.loopEpoch 1
  .next ({ ts with
    inst := { ts.inst with counters := ts.inst.counters.insert counterId count }
    fiber := { ts.fiber with loopEpoch }
    changes := ts.changes.event (.counterIncremented counterId count loopEpoch) }).advance

def endFiber : Except TransitionError TickOutcome :=
  let changes := ts.changes.delete [ts.fiber.fiberId]
  if (applyFiberDeltas snapshot.fibers changes.fibersUpsert changes.fibersDelete false).isEmpty
  then do
    let atTime ← logicalTimestamp context
    let changes := { changes.event (.completed atTime) with
      cleanup := some ⟨true, true, true⟩ }
    return .done (changes.finish { ts.inst with state := .completed atTime })
  else .ok (.done (changes.finish ts.inst))

def endTerminate : Except TransitionError TickOutcome := do
  let atTime ← logicalTimestamp context
  let changes := { ts.changes.event (.terminated atTime ts.fiber.fiberId) with
    cleanup := some ⟨true, true, true⟩ }
  let changes := changes.mutateAll
    ((armedRecordIdsInTransition snapshot changes).map .retire)
  return .done (changes.finish { ts.inst with state := .terminated atTime })

/-- The children of a fork with their ids, in the order of the targets. -/
def forkChildren (controlStack : List Handle) : ℕ → List Addr → List Fiber
  | _, [] => []
  | ordinal, target :: rest =>
    { Fiber.new (context.derivedId H ordinal) target with controlStack } ::
      forkChildren controlStack (ordinal + 1) rest

def fork (targets : List Addr) : TickOutcome :=
  let fiber := ts.fiber
  let recordId := context.derivedId H ts.ordinal
  let children := forkChildren H context (fiber.controlStack ++ [recordId]) (ts.ordinal + 1) targets
  let ids := children.map (·.fiberId)
  let record := { ConcurrencyRecord.new recordId .barrier with
    counters := ⟨targets.length, targets.length⟩
    members := ids.foldl (fun members id => members.insert id) ∅ }
  let changes := { ts.changes with
    fibersUpsert := ts.changes.fibersUpsert ++ children
    controlStackDeltas := ts.changes.controlStackDeltas ++
      ids.map (ControlStackDelta.push · recordId)
    events := ts.changes.events ++
      children.map (fun (child : Fiber) =>
        RuntimeEvent.fiberSpawned child.fiberId child.pc (some fiber.fiberId)) ++
      [RuntimeEvent.v2Forked recordId fiber.fiberId ids targets] }
  let changes := changes.mutate (.insert record)
  let ops := fiber.controlStack.flatMap (fun ancestor =>
    (ancestor, .remove fiber.fiberId) :: ids.map (fun id => (ancestor, .add id)))
  let changes := v2ReconcileAncestorMembership snapshot ops [] changes
  .done ((changes.delete [fiber.fiberId]).finish ts.inst)

def join : Except TransitionError TickOutcome := do
  let (ts, handle) ← ts.popScope "V2Join"
  match fetchRecordInTransition snapshot ts.changes handle with
  | none => throw (.invalidCommand "V2Join: unknown barrier handle")
  | some record =>
    let count := record.counters.count - 1
    let record := { record with counters := { record.counters with count } }
    if count = 0 then
      -- The last arrival survives and releases the barrier.
      let cancelled := record.members.toList.filter (· ≠ ts.fiber.fiberId)
      let changes := v2ReconcileAncestorMembership snapshot (removalOps snapshot cancelled)
        [handle] (ts.changes.delete cancelled)
      let changes := (changes.mutate (.retire handle)).event
        (.v2JoinReleased handle ts.fiber.fiberId (ts.fiber.pc + 1) cancelled)
      return .next ({ ts with changes }).advance
    else
      let changes := (ts.changes.mutate (.insert record)).event
        (.v2JoinArrived handle ts.fiber.fiberId)
      return ({ ts with changes }).park (.v2Barrier handle)

/-- A `u64` deadline `duration` milliseconds from now, saturating. -/
def dueAt (duration : ℤ) : ℕ := min (context.logicalTime + duration.toNat) u64Max

def armTimer (target : Addr) : Except TransitionError TickOutcome := do
  let (ts, duration) ← ts.popDuration "V2ArmTimer" "V2ArmTimer: duration must be I64"
  let recordId ← ts.topScope "V2ArmTimer: no open race"
  let effectId := H.forInstruction ts.inst.instanceId ts.fiber.fiberId ts.fiber.pc
  let changes := ts.changes.effect (.scheduleTimer effectId ts.fiber.fiberId
    (dueAt context duration) (.v2Race recordId target) none)
  return .next ({ ts with changes, raceArms := ts.raceArms ++ [V2RaceArm.timer target] }).advance

def armMsg (target : Addr) (name : ℕ) : Except TransitionError TickOutcome := do
  let corrKey ← resolveCorrelationKeyAt H workflow ts.inst ts.fiber.pc
  return .next ({ ts with raceArms := ts.raceArms ++ [V2RaceArm.msg target name corrKey] }).advance

def armEffect (target : Addr) (templateId : Digest) : Except TransitionError TickOutcome := do
  let (ts, effectId) ← invokeEffect H workflow ts workflow.metadata.v2FfiTaskDecls
    "v2 FFI effect declaration" "v2 FFI effect template identity" templateId
  return .next
    ({ ts with raceArms := ts.raceArms ++ [V2RaceArm.effect target effectId templateId] }).advance

def raceClose : Except TransitionError TickOutcome := do
  let (ts, handle) ← ts.popScope "V2RaceClose"
  let ts := ts.event (.v2RaceClosed handle ts.fiber.fiberId ts.raceArms.length)
  return ts.park (.v2Race handle ts.raceArms)

def guardArmTimer : Except TransitionError TickOutcome := do
  let (ts, duration) ← ts.popDuration "V2GuardArmTimer" "V2GuardArmTimer: duration must be I64"
  let recordId ← ts.topScope "V2GuardArmTimer: no open guard"
  let effectId := H.forInstruction ts.inst.instanceId ts.fiber.fiberId ts.fiber.pc
  let repeatSpec := match (fetchRecordInTransition snapshot ts.changes recordId).map (·.kind) with
    | some (.guard false) => some ⟨duration.toNat, 1, 0⟩
    | _ => none
  let changes := ts.changes.effect (.scheduleTimer effectId ts.fiber.fiberId
    (dueAt context duration) (.v2GuardTimer recordId) repeatSpec)
  return .next ({ ts with changes }).advance

/-- Coded routes are kept before the catch-all one. -/
def insertErrorRoute (route : Option String × Addr) (routes : List (Option String × Addr)) :
    List (Option String × Addr) :=
  match route.1 with
  | none => routes ++ [route]
  | some _ => routes.takeWhile (·.1.isSome) ++ route :: routes.dropWhile (·.1.isSome)

/-- Arms the latest inserted version of the guard; the mutations come last one first. -/
def armErrorRoute (recordId : RecordId) (route : Option String × Addr) :
    List ConcurrencyMutation → Except TransitionError (List ConcurrencyMutation)
  | [] => .error (.invalidCommand "V2GuardArmError: no open guard record found to arm")
  | .insert record :: earlier =>
    if record.id = recordId then
      match record.state, record.kind with
      | .armed, .guard _ => .ok (.insert
          { record with errorRoutes := insertErrorRoute route record.errorRoutes } :: earlier)
      | _, _ => .error (.invalidCommand "V2GuardArmError: target record is not an armed guard")
    else do return .insert record :: (← armErrorRoute recordId route earlier)
  | mutation :: earlier => do return mutation :: (← armErrorRoute recordId route earlier)

def guardArmError (errorCode : Option String) (handler : Addr) :
    Except TransitionError TickOutcome := do
  let recordId ← ts.topScope "V2GuardArmError: no open guard"
  let mutations ← armErrorRoute recordId (errorCode, handler)
    ts.changes.concurrencyMutations.reverse
  return .next ({ ts with
    changes := { ts.changes with concurrencyMutations := mutations.reverse } }).advance

def guardTimerCycle (maxFires : ℕ) : Except TransitionError TickOutcome :=
  match ts.changes.effects.getLast? with
  | some (.scheduleTimer timerId fiberId due (.v2GuardTimer recordId) (some current)) =>
    .ok (.next ({ ts with changes := { ts.changes with
      effects := ts.changes.effects.dropLast ++ [DurableEffect.scheduleTimer timerId fiberId due
        (.v2GuardTimer recordId) (some { current with remaining := maxFires })] } }).advance)
  | _ => .error (.invalidCommand "V2GuardTimerCycle: no GUARD-TIMER> repeat spec to set")

/-- Parks on a wait timer, past the waiting instruction. -/
def waitTimer (deadlineMs : ℕ) : TickOutcome :=
  let changes := (ts.changes.event (.waitTimerSet ts.fiber.fiberId deadlineMs)).effect
    (.scheduleTimer (H.forInstruction ts.inst.instanceId ts.fiber.fiberId ts.fiber.pc)
      ts.fiber.fiberId deadlineMs .wait none)
  ({ ts with changes }).advance.park (.timer deadlineMs)

def waitFor : Except TransitionError TickOutcome := do
  let (ts, duration) ← ts.popDuration "V2WaitFor" "V2WaitFor: duration must be I64"
  if u64Max < context.logicalTime + duration.toNat then
    throw (.numericOverflow "V2WaitFor deadline")
  return waitTimer H ts (context.logicalTime + duration.toNat)

def waitUntil : Except TransitionError TickOutcome := do
  let (ts, deadline) ← ts.popDuration "V2WaitUntil" "V2WaitUntil: deadline must be I64"
  return waitTimer H ts deadline.toNat

/-- The instance after a buffered message has been consumed. -/
def consumeMessage (inst : ProcessInstance) (message : BufferedMessage) :
    Except TransitionError ProcessInstance :=
  match message.payloadHash with
  | none => .ok inst
  | some hash =>
    match String.fromUTF8? ⟨message.payload.toArray⟩ with
    | some payload => .ok { inst with domainPayload := payload, domainPayloadHash := hash }
    | none => .error (.invalidCommand "buffered message payload is not UTF-8")

def waitMsg (name : ℕ) : Except TransitionError TickOutcome := do
  let corrKey ← resolveCorrelationKeyAt H workflow ts.inst ts.fiber.pc
  match snapshot.bufferedMessages.find? (fun buffered =>
      messageNameMatches workflow.metadata.messageNameMap buffered.message.messageName name &&
        buffered.message.correlationKey = corrKey) with
  | some buffered =>
    let inst ← consumeMessage ts.inst buffered.message
    let changes := { ts.changes with
      bufferedMessages := ts.changes.bufferedMessages ++ [BufferedMessageMutation.consume buffered]
      events := ts.changes.events ++
        [RuntimeEvent.bufferedMessageConsumed buffered.message.messageName
            buffered.message.correlationKey buffered.message.msgId ts.fiber.fiberId,
          RuntimeEvent.msgReceived name corrKey none] }
    return .next ({ ts with inst, changes }).advance
  | none =>
    let ts := (ts.event (.waitMsgSubscribed ts.fiber.fiberId name corrKey)).advance
    return ts.park (.msg 0 name corrKey)

def cancelScope : Except TransitionError TickOutcome := do
  let (ts, handle) ← ts.popScope "V2CancelScope"
  let (restored, changes) ← v2RollbackGuardScope H snapshot handle
    (.continues ts.fiber.fiberId) ts.changes
  -- The fibre goes on at the next address.
  return .next ({ ts with inst := restored.restore ts.inst, changes }).advance

def guardRecord (interrupting : Bool) (handler : Option Addr) : ConcurrencyRecord :=
  { ConcurrencyRecord.new (context.derivedId H ts.ordinal) (.guard interrupting) with
    handler, openedAt := some ts.fiber.pc }

/-- A rollback guard's record carries the state to restore. -/
def rollbackGuardRecord : ConcurrencyRecord :=
  { guardRecord H context ts true none with
    rollbackDomainPayload := some ts.inst.domainPayload
    rollbackDomainPayloadHash := some ts.inst.domainPayloadHash
    rollbackFlags := some ts.inst.flags
    rollbackJoinExpected := some ts.inst.joinExpected
    rollbackSessionStack := some (H.toRollbackSnapshot ts.inst.sessionStack) }

def raceRecord (armCount : ℕ) : ConcurrencyRecord :=
  { ConcurrencyRecord.new (context.derivedId H ts.ordinal) .race with
    counters := ⟨armCount, armCount⟩ }

def openGuard (interrupting : Bool) (handler : Addr) : TickOutcome :=
  let record := guardRecord H context ts interrupting (some handler)
  .next (ts.openScope record (.v2GuardOpened record.id ts.fiber.fiberId handler))

def branch (whenTrue : Bool) (target : Addr) : Except TransitionError TickOutcome := do
  let (ts, value) ← ts.pop "branch"
  return .next (if isTruthy value = whenTrue then ts.goto target else ts.advance)

def routePayload (branches : List PayloadRouteBranch) (defaultTarget : Option Addr) :
    Except TransitionError TickOutcome :=
  match ((branches.find? (fun branch =>
      ts.inst.placeholderMatches branch.placeholder branch.expectedValue)).map (·.target)).or
        defaultTarget with
  | some target => .ok (.next (ts.goto target))
  | none => failContract H context ts
      s!"exclusive route at {nodeName workflow ts.fiber.pc} matched none of its declared branches and has no default target"

def execute (instruction : Instr) : Except TransitionError TickOutcome :=
  match instruction with
  | .jump target => .ok (.next (ts.goto target))
  | .brIf target => branch ts true target
  | .brIfNot target => branch ts false target
  | .pushBool value => .ok (.next (ts.push (.bool value)).advance)
  | .pushI64 value => .ok (.next (ts.push (.i64 value)).advance)
  | .pop => do
    let (ts, _) ← ts.pop "Pop"
    return .next ts.advance
  | .loadFlag key => .ok (.next (ts.push (ts.inst.flags.getD key (.bool false))).advance)
  | .v2LoadPlaceholderMatch placeholder expectedValue =>
    .ok (.next (ts.push (.bool (ts.inst.placeholderMatches placeholder expectedValue))).advance)
  | .v2RouteZeroMatch => failContract H context ts
      s!"inclusive gateway at {nodeName workflow ts.fiber.pc} matched none of its declared branches and has no default target"
  | .v2MiIndexLive collectionFlag index =>
    .ok (.next (ts.push (.bool (index < miCollectionLen ts.inst collectionFlag))).advance)
  | .v2MiLoadElement collectionFlag index =>
    match ts.inst.flags[collectionFlag]? with
    | some (.array items) =>
      match items[index]? with
      | some element => .ok (.next (ts.push element).advance)
      | none => .error (.multiInstanceElementUnavailable collectionFlag index)
    | _ => .error (.multiInstanceElementUnavailable collectionFlag index)
  | .v2MiArityCheck collectionFlag max =>
    if max < miCollectionLen ts.inst collectionFlag then
      .error (.resourceLimitExceeded "multi-instance collection length"
        (miCollectionLen ts.inst collectionFlag) max)
    else .ok (.next ts.advance)
  | .storeFlag key => do
    let (ts, value) ← ts.pop "StoreFlag"
    return .next ({ ts with
      inst := { ts.inst with flags := ts.inst.flags.insert key value }
      changes := ts.changes.event (.flagSet key value) }).advance
  -- The arguments are not popped; a cached completion pushes the results.
  | .execNative taskType _ retc => execTask H workflow snapshot ts taskType (fun ts => .ok { ts with
      fiber := { ts.fiber with stack := ts.fiber.stack ++ List.replicate retc (.bool true) } })
  | .execDslTask taskType _ producesPlaceholder =>
    execTask H workflow snapshot ts taskType (bindProduced H producesPlaceholder)
  | .routePayload branches defaultTarget => routePayload H workflow context ts branches defaultTarget
  | .execFfi templateId _ _ => execEffect H workflow ts workflow.metadata.ffiTaskDecls
      "FFI task declaration" "FFI template identity" templateId
  | .v2AwaitEffect templateId _ _ => execEffect H workflow ts workflow.metadata.v2FfiTaskDecls
      "v2 FFI effect declaration" "v2 FFI effect template identity" templateId
  | .publishMessage name => publishMessage H workflow context ts name
  | .cancelWait _ => .ok (.next ts.advance)
  | .incCounter counterId => .ok (incCounter ts counterId)
  | .brCounterLt counterId limit target =>
    .ok (.next (if ts.inst.counters.getD counterId 0 < limit then ts.goto target else ts.advance))
  | .end => endFiber snapshot context ts
  | .endTerminate => endTerminate snapshot context ts
  | .fail code => failContract H context ts s!"process failed with code {code}"
  | .v2Guard handler => .ok (openGuard H context ts true handler)
  | .v2GuardEnd => ts.closeScope "V2GuardEnd"
  | .v2Fork targets _ => .ok (fork H snapshot context ts targets)
  | .v2Join _ => join snapshot ts
  | .v2RaceOpen armCount =>
    let record := raceRecord H context ts armCount
    .ok (.next { ts.openScope record (.v2RaceOpened record.id ts.fiber.fiberId armCount) with
      raceArms := [] })
  | .v2ArmTimer target => armTimer H context ts target
  | .v2ArmMsg target name => armMsg H workflow ts target name
  | .v2ArmEffect target templateId _ _ => armEffect H workflow ts target templateId
  | .v2RaceClose => raceClose ts
  | .v2GuardN handler => .ok (openGuard H context ts false handler)
  | .v2GuardNEnd => ts.closeScope "V2GuardNEnd"
  | .v2GuardR =>
    let record := rollbackGuardRecord H context ts
    .ok (.next (ts.openScope record (.v2GuardROpened record.id ts.fiber.fiberId)))
  | .v2GuardREnd => ts.closeScope "V2GuardREnd"
  | .v2GuardArmTimer => guardArmTimer H snapshot context ts
  | .v2GuardArmError errorCode handler => guardArmError ts errorCode handler
  | .v2GuardTimerCycle maxFires => guardTimerCycle ts maxFires
  | .v2WaitFor => waitFor H context ts
  | .v2WaitUntil => waitUntil H ts
  | .v2WaitMsg name => waitMsg H workflow snapshot ts name
  | .v2CancelScope => cancelScope H snapshot ts

/-- One turn of the tick loop: fetch and execute. -/
def tickStep : Except TransitionError TickOutcome :=
  match workflow.instructions[ts.fiber.pc]? with
  | none => .error (.programCounterOutOfBounds ts.fiber.pc)
  | some instruction => execute H workflow snapshot context ts instruction

def runTick : ℕ → TickState → Except TransitionError Transition
  | 0, _ => .error (.stepLimitExceeded workflow.limits.maxSteps)
  | steps + 1, ts => do
    match ← tickStep H workflow snapshot context ts with
    | .next ts => runTick steps ts
    | .done transition => return transition

def selectFiber (fiberId : Option Uuid) : Except TransitionError Fiber := do
  let selected ← match fiberId with
    | some id => pure id
    | none =>
      match snapshot.fibers.values.find? (fun fiber => fiber.wait = .running) with
      | some fiber => pure fiber.fiberId
      | none => throw (.invalidCommand "no running fiber")
  match snapshot.fibers[selected]? with
  | none => throw (.missingFiber selected)
  | some fiber =>
    if fiber.wait ≠ .running then throw (.invalidCommand "selected fiber is not running")
    return fiber

def applyTick (fiberId : Option Uuid) : Except TransitionError Transition := do
  if snapshot.inst.state ≠ .running then
    throw (.invalidCommand "Tick requires a running instance")
  let fiber ← selectFiber snapshot fiberId
  runTick H workflow snapshot context workflow.limits.maxSteps { fiber, inst := snapshot.inst }

end

end BpmnLite
