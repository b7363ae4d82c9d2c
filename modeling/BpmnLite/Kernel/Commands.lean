import BpmnLite.Kernel.Tick

/-!
# Command handlers

What the kernel does with completions, failures, timers, messages and child-start results. Each
handler reads the snapshot and returns a transition; none of them loops.
-/

namespace BpmnLite

def ProcessState.debug : ProcessState → String
  | .running => "Running"
  | .completed at_ => s!"Completed \x7b at: {at_} \x7d"
  | .cancelled reason at_ => s!"Cancelled \x7b reason: {reason.quote}, at: {at_} \x7d"
  | .terminated at_ => s!"Terminated \x7b at: {at_} \x7d"
  | .failed incidentId => s!"Failed \x7b incident_id: {uuidText incidentId} \x7d"
  | .incidented incidentId => s!"Incidented \x7b incident_id: {uuidText incidentId} \x7d"
  | .waitingOnSubmission calloutId nodeId =>
    s!"WaitingOnSubmission \x7b callout_id: {uuidText calloutId}, node_id: {nodeId.quote} \x7d"
  | .waitingOnInvocation executionId nodeId =>
    s!"WaitingOnInvocation \x7b execution_id: {uuidText executionId}, node_id: {nodeId.quote} \x7d"

def describeWait : WaitState → String
  | .running => ""
  | .timer deadlineMs => s!"Timer({deadlineMs})"
  | .msg _ name corrKey => s!"Msg({name}, {corrKey.quote})"
  | .job jobKey => s!"Job({jobKey.toText})"
  | .effect effectId => s!"Effect({uuidText effectId})"
  | .join joinId => s!"Join({joinId})"
  | .v2Barrier recordId => s!"V2Barrier({uuidText recordId})"
  | .v2Race recordId arms => s!"V2Race({uuidText recordId}, {arms.length} arms)"
  | .incident incidentId => s!"Incident({uuidText incidentId})"

def asI64 (n : ℕ) : ℤ := if n < 2 ^ 63 then n else (n : ℤ) - 2 ^ 64

def errorClassLabel : ErrorClass → String
  | .transient => "transient"
  | .contractViolation => "contract_violation"
  | .businessRejection _ => "business_rejection"

section
variable (H : Host) (workflow : ExecutableWorkflow) (snapshot : Snapshot)
  (context : DeterministicContext)

def retireAllArmedRecords (transition : Transition) : Transition :=
  { transition with
    concurrencyMutations := transition.concurrencyMutations ++
      (armedRecordIdsInTransition snapshot {}).map ConcurrencyMutation.retire }

def applyCancel (reason : String) : Transition :=
  retireAllArmedRecords snapshot
    { nextSnapshot := { snapshot.inst with state := .cancelled reason (asI64 context.logicalTime) }
      events := (snapshot.fibers.values.filterMap (fun fiber =>
          if describeWait fiber.wait = "" then none
          else some (RuntimeEvent.waitCancelled fiber.fiberId (describeWait fiber.wait) reason))) ++
        [RuntimeEvent.cancelled reason]
      terminalCleanup := ⟨true, true, true⟩ }

def applyTerminate : Except TransitionError Transition := do
  let atTime ← logicalTimestamp context
  let fiberId := (snapshot.fibers.keys.head?).getD 0
  return retireAllArmedRecords snapshot
    { nextSnapshot := { snapshot.inst with state := .terminated atTime }
      events := [.terminated atTime fiberId]
      terminalCleanup := ⟨true, true, true⟩ }

def applyResolveIncident (incidentId : Uuid) (resolution : String) :
    Except TransitionError Transition :=
  match snapshot.incidents[incidentId]? with
  | none => .error (.invalidCommand "incident does not exist")
  | some incident =>
    if incident.resolvedAt.isSome then .ok { nextSnapshot := snapshot.inst }
    else if snapshot.inst.state ≠ .incidented incidentId then
      .error (.invalidCommand
        "ResolveIncident requires the instance to be Incidented on this incident_id")
    else do
      let resolvedAt ← logicalTimestamp context
      let parked := snapshot.fibers.values.find? (fun fiber => fiber.wait = .incident incidentId)
      return {
        nextSnapshot := { snapshot.inst with state := .running }
        incidents := [{ incident with
          resolvedAt := some resolvedAt, resolution := some resolution }]
        events := [.incidentResolved incidentId resolution]
        fibersUpsert := (parked.map (fun fiber => { fiber with wait := .running })).toList }

def applyStartChildResult (idempotencyKey : String) (childInstanceId : Uuid) (accepted : Bool) :
    Except TransitionError Transition :=
  match snapshot.inst.state with
  | .waitingOnInvocation executionId _ =>
    if executionId = childInstanceId then .ok { nextSnapshot := snapshot.inst }
    else .error (.invalidCommand "child-start result requires WaitingOnSubmission")
  | .waitingOnSubmission _ nodeId =>
    if accepted then
      .ok {
        nextSnapshot := { snapshot.inst with
          state := .waitingOnInvocation childInstanceId nodeId }
        events := [.childStartAccepted idempotencyKey childInstanceId] }
    else
      match snapshot.fibers.values.head? with
      | none => .error (.invalidCommand "child-start rejection requires an active fiber")
      | some fiber => do
        let createdAt ← logicalTimestamp context
        let incidentId := context.derivedId H 0
        return {
          nextSnapshot := { snapshot.inst with state := .incidented incidentId }
          fibersUpsert := [{ fiber with wait := .incident incidentId }]
          incidents := [{
            incidentId
            processInstanceId := snapshot.inst.instanceId
            fiberId := fiber.fiberId
            serviceTaskId := nodeId
            bytecodeAddr := fiber.pc
            errorClass := .contractViolation
            message := s!"child start rejected: {idempotencyKey}"
            retryCount := 0
            createdAt
            resolvedAt := none
            resolution := none }]
          events := [.childStartRejected idempotencyKey childInstanceId incidentId,
            .incidentCreated incidentId nodeId none] }
  | _ => .error (.invalidCommand "child-start result requires WaitingOnSubmission")

/-- Acknowledges a job: against its claim when the completion carries one. -/
def ackCompletion (completion : JobCompletion) : List JobMutation × List JobKey :=
  match completion.workerId, completion.claimToken with
  | some workerId, some claimToken => ([.ackClaimed completion.jobKey workerId claimToken], [])
  | _, _ => ([], [completion.jobKey])

def applyJobCompletion (completion : JobCompletion) : Except TransitionError Transition :=
  let currentHash := H.contentHash snapshot.inst.domainPayload
  let (jobMutations, jobsAck) := ackCompletion completion
  if completion.expectedInstancePayloadHash ≠ currentHash then .error .optimisticConflict
  else if snapshot.inst.state.isTerminal then
    .ok {
      nextSnapshot := snapshot.inst
      events := [.signalIgnored
        s!"complete_job(key={completion.jobKey.toText}, state={snapshot.inst.state.debug})"]
      jobMutations, jobsAck }
  else
    match snapshot.fibers.values.find? (fun fiber => fiber.wait = .job completion.jobKey) with
    | none => .error (.invalidCommand "completion has no parked fiber")
    | some fiber => do
      let inst ← applyCompletion H snapshot.inst completion
      return {
        nextSnapshot := inst
        fibersUpsert := [{ fiber with pc := fiber.pc + 1, wait := .running }]
        events := [.jobCompleted completion.jobKey currentHash inst.domainPayloadHash
          completion.orchFlags (fiber.pc + 1)]
        jobMutations, jobsAck
        dedupe := [⟨completion.jobKey, completion⟩] }

def innermostGuard (fiber : Fiber) : Option (RecordId × ConcurrencyRecord) :=
  fiber.controlStack.reverse.findSome? (fun id =>
    match snapshot.concurrencyTable[id]? with
    | some record =>
      match record.state, record.kind with
      | .armed, .guard _ => some (id, record)
      | _, _ => none
    | none => none)

/-- The first error route whose code is the rejection code, or the catch-all one. -/
def matchedErrorRoute (fiber : Fiber) : ErrorClass → Option (String × Addr × RecordId)
  | .businessRejection code =>
    (innermostGuard snapshot fiber).bind (fun guard =>
      (guard.2.errorRoutes.find? (fun route => (route.1.map (· == code)).getD true)).map
        (fun route => (code, route.2, guard.1)))
  | .transient | .contractViolation => none

def jobKeyList (jobKey : JobKey) : List JobKey := if jobKey.isEmpty then [] else [jobKey]

/-- Puts the only live fibre of a rolled-back scope back at the scope's opening address. -/
def reparkRolledBack (guardHandle : RecordId) (openedAt : Addr) (fiber : Fiber)
    (incident : Incident) (jobKey : Option JobKey) (changes : Changes) : Changes :=
  let popped := fiber.controlStack.dropWhile (· ≠ guardHandle)
  let controlStack := fiber.controlStack.takeWhile (· ≠ guardHandle)
  let changes := { changes with
    fibersDelete := changes.fibersDelete.filter (· ≠ fiber.fiberId)
    controlStackDeltas := changes.controlStackDeltas ++
      popped.reverse.map (ControlStackDelta.pop fiber.fiberId) }
  let changes := v2ReconcileAncestorMembership snapshot
    (controlStack.map (fun ancestor => (ancestor, .add fiber.fiberId))) [] changes
  let fiber := { fiber with
    controlStack, pc := openedAt, wait := .incident incident.incidentId }
  let changes := { changes with incidents := changes.incidents ++ [incident] }
  (changes.upsert fiber).event
    (.incidentCreated incident.incidentId incident.serviceTaskId jobKey)

/-- Whether the changes leave no fibre but this one. -/
def noOtherLive (changes : Changes) (fiberId : Uuid) : Bool :=
  ((applyFiberDeltas snapshot.fibers changes.fibersUpsert changes.fibersDelete false).keys.filter
    (· ≠ fiberId)).isEmpty

def failureIncident (fiber : Fiber) (errorClass : ErrorClass) (message : String) (attempt : ℕ)
    (createdAt : Timestamp) : Incident where
  incidentId := context.derivedId H 0
  processInstanceId := snapshot.inst.instanceId
  fiberId := fiber.fiberId
  serviceTaskId := nodeName workflow fiber.pc
  bytecodeAddr := fiber.pc
  errorClass := errorClass
  message := message
  retryCount := attempt
  createdAt := createdAt
  resolvedAt := none
  resolution := none

/-- Rolls the scope of `guard` back on behalf of `fiber`; the fibre dies with the scope unless it
is the last one. -/
def rollbackOnFailure (guard : RecordId × ConcurrencyRecord) (fiber : Fiber)
    (errorClass : ErrorClass) (message : String) (attempt : ℕ) (jobKey : Option JobKey)
    (missingOpenedAt : String) (after : Changes → Changes) :
    Except TransitionError (Changes × ProcessInstance) := do
  let (restored, changes) ← v2RollbackGuardScope H snapshot guard.1 (.dies fiber.fiberId) {}
  let inst := restored.restore snapshot.inst
  let changes := after changes
  if noOtherLive snapshot changes fiber.fiberId then
    match guard.2.openedAt with
    | none => throw (.invalidCommand missingOpenedAt)
    | some openedAt =>
      let createdAt ← logicalTimestamp context
      let incident := failureIncident H workflow snapshot context fiber errorClass message attempt
        createdAt
      return (reparkRolledBack snapshot guard.1 openedAt fiber incident jobKey changes,
        { inst with state := .incidented incident.incidentId })
  else return (changes, inst)

/-- The incident path: the fibre parks where it is. -/
def raiseIncident (fiber : Fiber) (effectId : EffectId) (jobKey : JobKey)
    (errorClass : ErrorClass) (message : String) (retry : Option JobRetry) (attempt : ℕ) :
    Except TransitionError Transition := do
  let createdAt ← logicalTimestamp context
  let incident := failureIncident H workflow snapshot context fiber errorClass message attempt
    createdAt
  let changes : Changes := {
    incidents := [incident]
    fibersUpsert := [{ fiber with wait := .incident incident.incidentId }]
    events := [.incidentCreated incident.incidentId incident.serviceTaskId
      (if jobKey.isEmpty then none else some jobKey)]
    effectMutations := if jobKey.isEmpty then [⟨effectId, .failed⟩] else [] }
  let changes := match retry with
    | some retry => { changes.event (.jobDeadLettered jobKey incident.incidentId) with
        jobMutations := [.deadLetterClaimed jobKey retry.workerId retry.claimToken
          (errorClassLabel errorClass) message incident.incidentId] }
    | none => { changes with jobsAck := jobKeyList jobKey }
  return changes.finish { snapshot.inst with state := .incidented incident.incidentId }

def applyJobFailure (effectId : EffectId) (jobKey : JobKey) (errorClass : ErrorClass)
    (message : String) (retry : Option JobRetry) (attempt : ℕ) :
    Except TransitionError Transition :=
  if snapshot.inst.state.isTerminal then
    .ok {
      nextSnapshot := snapshot.inst
      events := [.signalIgnored
        s!"fail_job(key={jobKey.toText}, state={snapshot.inst.state.debug})"]
      jobsAck := jobKeyList jobKey }
  else
    match snapshot.fibers.values.find? (fun fiber =>
        fiber.wait = .job jobKey || fiber.wait = .effect effectId) with
    | none =>
      .ok {
        nextSnapshot := snapshot.inst
        events := [.signalIgnored s!"fail_job(key={jobKey.toText}, no fiber)"]
        jobsAck := jobKeyList jobKey }
    | some fiber =>
      match errorClass, retry with
      | .transient, some retry =>
        .ok {
          nextSnapshot := snapshot.inst
          jobMutations := [.retryClaimed jobKey retry.workerId retry.claimToken "transient" message
            retry.notBeforeMs]
          events := [.jobRetryScheduled jobKey retry.notBeforeMs 0] }
      | _, _ =>
        match matchedErrorRoute snapshot fiber errorClass with
        | some (code, handler, recordId) => do
          let changes ← v2TriggerGuardChangesWithTarget H snapshot recordId context handler
          let changes := { changes with jobsAck := changes.jobsAck ++ jobKeyList jobKey }
          return (changes.event (.errorRouted jobKey code s!"guard:{uuidText recordId}"
            handler)).finish snapshot.inst
        | none =>
          let spanning := if errorClass = .contractViolation then innermostGuard snapshot fiber
            else none
          match spanning with
          | some guard =>
            if guard.2.kind = .guard true ∧ guard.2.rollbackDomainPayload.isSome then do
              let (changes, inst) ← rollbackOnFailure H workflow snapshot context guard fiber
                errorClass message attempt (if jobKey.isEmpty then none else some jobKey)
                "rollback: spanning guard scope carries no opened_at address"
                (fun changes => { changes with jobsAck := changes.jobsAck ++ jobKeyList jobKey })
              return changes.finish inst
            else raiseIncident H workflow snapshot context fiber effectId jobKey errorClass message
              retry attempt
          | none => raiseIncident H workflow snapshot context fiber effectId jobKey errorClass
              message retry attempt

/-- What a foreign completion resolves: the fibre's own wait, an arm of the race it is parked at,
or an arm that already lost. -/
inductive FfiMatch where
  | parked
  | raceWin (recordId : RecordId) (target : Addr)
  | lateArm

def V2RaceArm.effectTarget (effectId : EffectId) : V2RaceArm → Option Addr
  | .effect target armEffectId _ => if armEffectId = effectId then some target else none
  | .timer _ | .msg .. => none

def isV2ArmEffect (pc : Addr) : Bool :=
  match workflow.instructions[pc]? with
  | some (.v2ArmEffect ..) => true
  | _ => false

def matchFfiCompletion (fiber : Fiber) (effectId : EffectId) (fiberId : Uuid) (pc : Addr) :
    Except TransitionError FfiMatch :=
  let mismatch := .error (.invalidCommand "FFI completion does not match parked effect")
  let otherwise :=
    if isV2ArmEffect workflow pc ∧
        effectId = H.forInstruction snapshot.inst.instanceId fiberId pc then .ok .lateArm
    else mismatch
  match fiber.wait with
  | .effect parked => if parked = effectId ∧ fiber.pc = pc then .ok .parked else otherwise
  | .v2Race recordId arms =>
    match arms.findSome? (V2RaceArm.effectTarget effectId) with
    | some target => .ok (.raceWin recordId target)
    | none => if isV2ArmEffect workflow pc then .ok .lateArm else mismatch
  | _ => otherwise

def ffiDeclaration (pc : Addr) : Except TransitionError FfiTaskDecl :=
  let declared (decls : BTreeMap Addr FfiTaskDecl) (missing : String) :=
    match decls[pc]? with
    | some declaration => .ok declaration
    | none => .error (.missingMetadata missing)
  match workflow.instructions[pc]? with
  | some (.v2AwaitEffect ..) | some (.v2ArmEffect ..) =>
    declared workflow.metadata.v2FfiTaskDecls "v2 FFI effect declaration"
  | _ => declared workflow.metadata.ffiTaskDecls "FFI task declaration"

def applyFfiResult (pc : Addr) (outputPayload : Bytes) (newDomainPayload : Option String)
    (noMatch : Bool) : Except TransitionError ProcessInstance :=
  if noMatch then .ok snapshot.inst
  else
    match newDomainPayload with
    | some payload => .ok { snapshot.inst with
        domainPayload := payload, domainPayloadHash := H.contentHash payload }
    | none => do
      let declaration ← ffiDeclaration workflow pc
      (applyFfiOutputs H snapshot.inst declaration outputPayload).mapError
        (fun _ => .invalidCommand "FFI output contract violation")

def applyFfiCompletion (effectId : EffectId) (fiberId : Uuid) (pc : Addr) (outputPayload : Bytes)
    (newDomainPayload : Option String) (noMatch : Bool) : Except TransitionError Transition :=
  match snapshot.fibers[fiberId]? with
  | none => .error (.missingFiber fiberId)
  | some fiber => do
    let completed : EffectMutation := ⟨effectId, .completed⟩
    let invocationCompleted := RuntimeEvent.ffiInvocationCompleted effectId
      (if noMatch then "no_match" else "success") none
    match ← matchFfiCompletion H workflow snapshot fiber effectId fiberId pc with
    | .lateArm => return { nextSnapshot := snapshot.inst, effectMutations := [completed] }
    | .parked =>
      let inst ← applyFfiResult H workflow snapshot pc outputPayload newDomainPayload noMatch
      return {
        nextSnapshot := inst
        fibersUpsert := [{ fiber with pc := fiber.pc + 1, wait := .running }]
        effectMutations := [completed]
        events := [invocationCompleted] }
    | .raceWin recordId target =>
      let inst ← applyFfiResult H workflow snapshot pc outputPayload newDomainPayload noMatch
      return {
        nextSnapshot := inst
        fibersUpsert := [{ fiber with pc := target, wait := .running }]
        effectMutations := [completed]
        events := [.v2RaceWon recordId fiber.fiberId, invocationCompleted]
        concurrencyMutations := [.retire recordId]
        timerMutations := [.v2CancelRace fiber.fiberId recordId effectId] }

/-- The fibre a message resumes, with the race it wins, if it was parked at one. -/
def messageResumption (name correlationKey : String) (fiber : Fiber) :
    Option (Fiber × Option RecordId) :=
  let isMatch (waitingName : ℕ) (corrKey : String) : Bool :=
    messageNameMatches workflow.metadata.messageNameMap name waitingName &&
      corrKey = correlationKey
  match fiber.wait with
  | .msg _ waitingName corrKey =>
    if isMatch waitingName corrKey then some ({ fiber with wait := .running }, none) else none
  | .v2Race recordId arms =>
    arms.findSome? (fun arm =>
      match arm with
      | .msg target waitingName corrKey =>
        if isMatch waitingName corrKey then
          some ({ fiber with pc := target, wait := .running }, some recordId)
        else none
      | .timer _ | .effect .. => none)
  | _ => none

def messagePayload (payload : Bytes) (payloadHash : Option Digest) :
    Except TransitionError ProcessInstance :=
  match payloadHash with
  | none => .ok snapshot.inst
  | some hash =>
    match String.fromUTF8? ⟨payload.toArray⟩ with
    | some text => .ok { snapshot.inst with domainPayload := text, domainPayloadHash := hash }
    | none => .error (.invalidCommand "message payload is not UTF-8")

def winRace (fiber : Fiber) (changes : Changes) : Option RecordId → Changes
  | none => changes
  | some recordId =>
    let changes := (changes.mutate (.retire recordId)).event (.v2RaceWon recordId fiber.fiberId)
    { changes with timerMutations := changes.timerMutations ++
        [TimerMutation.v2CancelRace fiber.fiberId recordId
          (H.forInstruction snapshot.inst.instanceId fiber.fiberId fiber.pc)] }

def applyMessage (messageId name correlationKey : String) (payload : Bytes)
    (payloadHash : Option Digest) (expiresAt : Timestamp) :
    Except TransitionError Transition := do
  let receivedAt ← logicalTimestamp context
  let message : BufferedMessage := {
    tenantId := snapshot.inst.tenantId
    messageName := name
    correlationKey
    msgId := messageId
    payload, payloadHash
    processInstanceId := some snapshot.inst.instanceId
    receivedAt, expiresAt }
  if snapshot.inst.state.isTerminal then
    return {
      nextSnapshot := snapshot.inst
      bufferedMessages := [.deliver message]
      events := [.signalIgnored
        s!"signal on {snapshot.inst.state.debug} instance: msg={name}"] }
  let buffered := RuntimeEvent.messageBuffered name correlationKey messageId expiresAt
  match snapshot.fibers.values.findSome? (messageResumption workflow name correlationKey) with
  | none =>
    return {
      nextSnapshot := snapshot.inst
      bufferedMessages := [.insert message]
      events := [buffered] }
  | some (fiber, race) =>
    let inst ← messagePayload snapshot payload payloadHash
    let messageNameId := ((workflow.metadata.messageNameMap.toList.find?
      (fun entry => entry.2 = name)).map Prod.fst).getD 0
    let changes : Changes := {
      bufferedMessages := [.deliver message]
      events := [buffered,
        .bufferedMessageConsumed name correlationKey messageId fiber.fiberId,
        .msgReceived messageNameId correlationKey none] }
    return ((winRace H snapshot fiber changes race).upsert fiber).finish inst

def applyV2TriggerGuard (recordId : RecordId) : Except TransitionError Transition := do
  let changes ← v2TriggerGuardChanges H snapshot recordId context
  return changes.finish snapshot.inst

/-- A deadline on a rollback guard rolls it back on behalf of its least member. -/
def applyV2GuardTimerRollback (guardHandle : RecordId) (guardRecord : ConcurrencyRecord) :
    Except TransitionError (Changes × ProcessInstance) :=
  match guardRecord.members.toList.head? with
  | none => .ok ({}, snapshot.inst)
  | some triggerFiberId => do
    let (restored, changes) ← v2RollbackGuardScope H snapshot guardHandle (.dies triggerFiberId) {}
    let inst := restored.restore snapshot.inst
    let changes := { changes with
      jobMutations := changes.jobMutations ++ cancelledJobs snapshot changes.fibersDelete }
    if noOtherLive snapshot changes triggerFiberId then
      match snapshot.fibers[triggerFiberId]?, guardRecord.openedAt with
      | none, _ => throw (.invalidCommand
          "guard timer rollback: trigger fibre vanished mid-transition")
      | some _, none => throw (.invalidCommand
          "guard timer rollback: spanning guard scope carries no opened_at address")
      | some fiber, some openedAt =>
        let createdAt ← logicalTimestamp context
        let incident := failureIncident H workflow snapshot context fiber .contractViolation
          "guard-arming timer deadline elapsed" 0 createdAt
        return (reparkRolledBack snapshot guardHandle openedAt fiber incident none changes,
          { inst with state := .incidented incident.incidentId })
    else return (changes, inst)

/-- A repeating timer on a guard that does not interrupt is armed again. -/
def rearmOrConsume (timer : ClaimedTimer) (firedAt : ℕ) (interrupting : Bool) : TimerMutation :=
  match timer.repeatSpec with
  | some spec =>
    if !interrupting ∧ 1 < spec.remaining then
      .rearm timer.timerId timer.claimToken (satAdd64 firedAt spec.intervalMs)
        ⟨spec.intervalMs, spec.remaining - 1, satAdd32 spec.firedCount 1⟩
    else .consume timer.timerId timer.claimToken
  | none => .consume timer.timerId timer.claimToken

def applyGuardTimer (timer : ClaimedTimer) (firedAt : ℕ) (recordId : RecordId) :
    Except TransitionError Transition :=
  let consumeOnly : Transition := {
    nextSnapshot := snapshot.inst
    timerMutations := [.consume timer.timerId timer.claimToken] }
  match snapshot.concurrencyTable[recordId]? with
  | none => .ok consumeOnly
  | some record =>
    match record.state, record.kind with
    | .armed, .guard interrupting => do
      let (changes, inst) ← if record.rollbackDomainPayload.isSome then
          applyV2GuardTimerRollback H workflow snapshot context recordId record
        else do
          let changes ← v2TriggerGuardChanges H snapshot recordId context
          pure (changes, snapshot.inst)
      let changes := changes.event (.timerFired timer.timerId timer.fiberId firedAt)
      let changes := { changes with timerMutations := changes.timerMutations ++
        [rearmOrConsume timer firedAt interrupting] }
      return changes.finish inst
    | _, _ => .ok consumeOnly

def applyTimer (timer : ClaimedTimer) (firedAt : ℕ) : Except TransitionError Transition :=
  let consume := TimerMutation.consume timer.timerId timer.claimToken
  let consumeOnly : Transition := { nextSnapshot := snapshot.inst, timerMutations := [consume] }
  let fired := RuntimeEvent.timerFired timer.timerId timer.fiberId firedAt
  if timer.tenantId ≠ snapshot.inst.tenantId then
    .error (.invalidCommand "timer tenant does not match snapshot")
  else if timer.instanceId ≠ snapshot.inst.instanceId then
    .error (.invalidCommand "timer instance does not match snapshot")
  else if firedAt < timer.dueAt then .error (.invalidCommand "timer fired before due_at")
  else
    match timer.kind with
    | .wait =>
      match snapshot.fibers[timer.fiberId]? with
      | some fiber =>
        match fiber.wait with
        | .timer deadlineMs =>
          if deadlineMs ≤ firedAt then
            .ok { consumeOnly with
              fibersUpsert := [{ fiber with wait := .running }]
              events := [fired] }
          else .ok consumeOnly
        | _ => .ok consumeOnly
      | none => .ok consumeOnly
    | .v2Race recordId resumeAt =>
      match snapshot.fibers[timer.fiberId]? with
      | some fiber =>
        match fiber.wait with
        | .v2Race current _ =>
          if current = recordId then
            .ok { consumeOnly with
              fibersUpsert := [{ fiber with pc := resumeAt, wait := .running }]
              events := [fired, .v2RaceWon recordId timer.fiberId]
              concurrencyMutations := [.retire recordId]
              timerMutations := [.v2CancelRace timer.fiberId recordId timer.timerId, consume] }
          else .ok consumeOnly
        | _ => .ok consumeOnly
      | none => .ok consumeOnly
    | .v2GuardTimer recordId => applyGuardTimer H workflow snapshot context timer firedAt recordId
    -- Timers of the first instruction set's races are only consumed.
    | .race .. => .ok consumeOnly

end

end BpmnLite
