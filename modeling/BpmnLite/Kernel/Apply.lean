import BpmnLite.Kernel.Commands

/-!
# The kernel

`apply` checks the snapshot against the artifact's limits, runs the command's handler and submits
the transition to Ring 3.
-/

namespace BpmnLite

def ValueLimitError.actual : ValueLimitError → ℕ
  | .tooLong actual _ => actual
  | .tooDeep max => max

def ValueLimitError.limit : ValueLimitError → ℕ
  | .tooLong _ max => max
  | .tooDeep max => max

def checkValueLimits (resource : String) (value : Value) : Except TransitionError Unit :=
  value.checkArrayLimits.mapError (fun e => .resourceLimitExceeded resource e.actual e.limit)

/-- The limits a snapshot must meet before a command is applied to it. The size of arrays is not
checked for the commands that end the instance. -/
def validateSnapshotLimits (workflow : ExecutableWorkflow) (snapshot : Snapshot)
    (checkArrays : Bool) : Except TransitionError Unit := do
  let limits := workflow.limits
  if limits.maxFibers < snapshot.fibers.size then
    throw (.resourceLimitExceeded "fiber count" snapshot.fibers.size limits.maxFibers)
  snapshot.fibers.values.forM (fun fiber => do
    if limits.maxStack < fiber.stack.length then
      throw (.resourceLimitExceeded "operand stack" fiber.stack.length limits.maxStack)
    if checkArrays then fiber.stack.forM (checkValueLimits "Value::Array size/depth"))
  if checkArrays then
    snapshot.inst.flags.values.forM (checkValueLimits "Value::Array size/depth (flag)")

def Command.checksArrays : Command → Bool
  | .cancel _ | .terminate => false
  | _ => true

section
variable (H : Host) (workflow : ExecutableWorkflow)

def handle (snapshot : Snapshot) (context : DeterministicContext) :
    Command → Except TransitionError Transition
  | .timerFired timer firedAt => applyTimer H workflow snapshot context timer firedAt
  | .cancel reason => .ok (applyCancel snapshot context reason)
  | .tick fiberId => applyTick H workflow snapshot context fiberId
  | .effectCompleted _ (.job completion) => applyJobCompletion H snapshot completion
  | .effectCompleted effectId (.ffi fiberId pc outputPayload newDomainPayload noMatch) =>
    applyFfiCompletion H workflow snapshot effectId fiberId pc outputPayload newDomainPayload
      noMatch
  | .effectCompleted _ (.json _) =>
    .error (.unsupportedCommand "JSON effect completion requires T8")
  | .effectFailed effectId jobKey errorClass message retry attempt =>
    applyJobFailure H workflow snapshot context effectId jobKey errorClass message retry attempt
  | .messageDelivered messageId name correlationKey payload payloadHash expiresAt =>
    applyMessage H workflow snapshot context messageId name correlationKey payload payloadHash
      expiresAt
  | .terminate => applyTerminate snapshot context
  | .resolveIncident incidentId resolution =>
    applyResolveIncident snapshot context incidentId resolution
  | .startChildResult idempotencyKey childInstanceId accepted =>
    applyStartChildResult H snapshot context idempotencyKey childInstanceId accepted
  | .jobClaimed jobKey workerId claimExpiresAt =>
    .ok { nextSnapshot := snapshot.inst, events := [.jobClaimed jobKey workerId claimExpiresAt] }
  | .v2TriggerGuard recordId => applyV2TriggerGuard H snapshot context recordId

def apply (snapshot : Snapshot) (command : Command) (context : DeterministicContext) :
    Except TransitionError Transition := do
  validateSnapshotLimits workflow snapshot command.checksArrays
  let transition ← handle H workflow snapshot context command
  match ring3ShadowCheck workflow snapshot transition with
  | some violation => throw (.integrity violation)
  | none =>
    if 2 ^ 63 ≤ context.logicalTime then throw (.numericOverflow "logical time")
    return { transition with
      commandEnvelope := some ⟨context.commandId, context.logicalTime, .kernel command⟩ }

end

end BpmnLite
