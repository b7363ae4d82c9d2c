import BpmnLite.Kernel.TickSpec

/-!
# The forms of one instruction

Most properties of a tick do not depend on which word was executed, but on what it left: a fibre that
moved, a scope opened or closed, a timer, a job, an incident. `Executed` has one case for each such
form, and `execute_eq_ok` goes through the words once; the invariants of a tick are by cases on it.
-/

namespace BpmnLite

open Maps

/-- Words that wait for a timer, or arm one. -/
def Instr.schedulesTimer : Instr → Bool
  | .v2WaitFor | .v2WaitUntil | .v2ArmTimer _ | .v2GuardArmTimer => true
  | _ => false

/-- Words that wait for a foreign effect, or arm one. -/
def Instr.invokes : Instr → Bool
  | .execFfi .. | .v2AwaitEffect .. | .v2ArmEffect .. => true
  | _ => false

def Instr.publishes : Instr → Bool
  | .publishMessage _ => true
  | _ => false

def Instr.silent (instruction : Instr) : Bool :=
  !instruction.schedulesTimer && !instruction.invokes && !instruction.publishes

def Instr.isTask : Instr → Bool
  | .execNative .. | .execDslTask .. => true
  | _ => false

def publishedId (instanceId fiberId : Uuid) (pc : Addr) : String :=
  s!"publish:{uuidText instanceId}:{uuidText fiberId}:{pc}"

/-- A new record holds no rollback snapshot, or the payload of the instance with its hash. -/
def ConcurrencyRecord.Saves (inst : ProcessInstance) (record : ConcurrencyRecord) : Prop :=
  (record.rollbackDomainPayload = none ∧ record.rollbackDomainPayloadHash = none) ∨
    (record.rollbackDomainPayload = some inst.domainPayload ∧
      record.rollbackDomainPayloadHash = some inst.domainPayloadHash)

/-- A plain word, but for a native task, after which the fibre goes on in its scopes. -/
structure Fiber.Goes (instruction : Instr) (f f' : Fiber) : Prop where
  plain : instruction.isPlain
  notNative : instruction.isNative = false
  moves : f.wait = .running → f.Moves instruction f'

section
variable (H : Host) (workflow : ExecutableWorkflow) (snapshot : Snapshot)
  (context : DeterministicContext) (ts : TickState)

/-- A word that arms the race being built, for which it schedules the effects. -/
structure TickState.Arms (instruction : Instr) (fiber : Fiber) (raceArms : List V2RaceArm)
    (effects : List DurableEffect) : Prop where
  moves : ts.fiber.wait = .running → ts.fiber.Moves instruction fiber
  arms : ∃ arm, ts.fiber.Arms (H.forInstruction ts.inst.instanceId) instruction arm
    (raceTimers effects) ∧ raceArms = ts.raceArms ++ [arm]

def Fiber.leave (f : Fiber) (below : List RecordId) : Fiber :=
  { f with controlStack := below, pc := f.pc + 1 }

/-- The id under which the word at the fibre's address schedules. -/
def TickState.effectId : EffectId :=
  H.forInstruction ts.inst.instanceId ts.fiber.fiberId ts.fiber.pc

inductive Executed (instruction : Instr) : TickOutcome → Prop
  | moved {fiber : Fiber} {flags : BTreeMap FlagKey Value} {counters : BTreeMap ℕ ℕ}
      {events : List RuntimeEvent} (silent : instruction.silent)
      (goes : ts.fiber.Goes instruction fiber)
      (joins : joinLog events = joinLog ts.changes.events) :
      Executed instruction (.next { ts with
        fiber
        inst := { ts.inst with flags, counters }
        changes := { ts.changes with events } })
  | opened {record : ConcurrencyRecord} {event : RuntimeEvent} {raceArms : List V2RaceArm}
      (silent : instruction.silent) (saves : record.Saves ts.inst)
      (new : record.id = context.derivedId H ts.ordinal)
      (opens : instruction.Opens ts.fiber.pc ts.fiber.fiberId
        { record with members := record.members.insert ts.fiber.fiberId })
      (arms : raceArms = if record.kind = .race then [] else ts.raceArms)
      (joins : joinLog [event] = []) :
      Executed instruction (.next { ts.openScope record event with raceArms })
  | forked {targets : List Addr} {pairing : Addr} {t : Transition} (silent : instruction.silent)
      (forks : fork H snapshot context ts targets = .done t)
      (word : instruction = .v2Fork targets pairing) : Executed instruction (.done t)
  | cached {completion : JobCompletion} {inst : ProcessInstance} {fiber : Fiber}
      {placeholderValues : Option Json} (silent : instruction.silent)
      (completed : applyCompletion H ts.inst completion = .ok inst)
      (found : snapshot.dedupe (ts.jobKey workflow) = some completion)
      (goes : ts.fiber.Goes instruction fiber ∨ ∃ taskType argc retc,
        instruction = .execNative taskType argc retc ∧ fiber = { ts.fiber with
          stack := ts.fiber.stack ++ List.replicate retc (.bool true), pc := ts.fiber.pc + 1 }) :
      Executed instruction (.next { ts with fiber, inst := { inst with placeholderValues } })
  | enqueued {taskType : String} {events : List RuntimeEvent} (silent : instruction.silent)
      (task : instruction.isTask) (uncached : snapshot.dedupe (ts.jobKey workflow) = none)
      (joins : joinLog events = joinLog ts.changes.events) :
      Executed instruction (.done (({ ts.changes with
        jobsEnqueue := ts.changes.jobsEnqueue ++
          [jobActivation ts (ts.jobKey workflow) taskType (nodeName workflow ts.fiber.pc)]
        events }.upsert { ts.fiber with wait := .job (ts.jobKey workflow) }).finish ts.inst))
  | failed {incident : Incident} {events : List RuntimeEvent} (silent : instruction.silent)
      (unresolved : incident.resolvedAt = none)
      (parks : (instruction.isPlain ∧ stackEffect instruction = (0, 0)) ∧
        instruction.isNative = false)
      (joins : joinLog events = joinLog ts.changes.events) :
      Executed instruction (.done (({ ts.changes with
        incidents := ts.changes.incidents ++ [incident]
        events }.upsert { ts.fiber with wait := .incident incident.incidentId }).finish
          { ts.inst with state := .incidented incident.incidentId }))
  | awaited {template : String} {templateId : Digest} {input : Bytes} {key : String}
      {events : List RuntimeEvent} (invokes : instruction.invokes) (plain : instruction.isPlain)
      (joins : joinLog events = joinLog ts.changes.events) :
      Executed instruction (.done (({ ts.changes with
        effects := ts.changes.effects ++ [DurableEffect.invoke (ts.effectId H) ts.fiber.fiberId ts.fiber.pc
          template templateId input key]
        events }.upsert { ts.fiber with wait := .effect (ts.effectId H) }).finish ts.inst))
  | listened {fiber : Fiber} {raceArms : List V2RaceArm} (silent : instruction.silent)
      (arms : ts.Arms H instruction fiber raceArms []) :
      Executed instruction (.next { ts with fiber, raceArms })
  | armed {template : String} {templateId : Digest} {input : Bytes} {key : String}
      {events : List RuntimeEvent} {fiber : Fiber} {raceArms : List V2RaceArm}
      (invokes : instruction.invokes) (arms : ts.Arms H instruction fiber raceArms [])
      (joins : joinLog events = joinLog ts.changes.events) :
      Executed instruction (.next { ts with
        fiber, raceArms
        changes := { ts.changes with
          effects := ts.changes.effects ++ [DurableEffect.invoke (ts.effectId H) ts.fiber.fiberId ts.fiber.pc
            template templateId input key]
          events } })
  | published {message : BufferedMessage} {events : List RuntimeEvent} {fiber : Fiber}
      (publishes : instruction.publishes)
      (id : message.msgId = publishedId ts.inst.instanceId ts.fiber.fiberId ts.fiber.pc)
      (bare : message.payloadHash = none) (goes : ts.fiber.Goes instruction fiber)
      (joins : joinLog events = joinLog ts.changes.events) :
      Executed instruction (.next { ts with
        fiber
        changes := { ts.changes with
          bufferedMessages := ts.changes.bufferedMessages ++ [BufferedMessageMutation.insert message]
          events } })
  | ended {events : List RuntimeEvent} {cleanup : Option TerminalCleanup} {state : ProcessState}
      (silent : instruction.silent) (word : instruction = .end)
      (joins : joinLog events = joinLog ts.changes.events)
      (last : (applyFiberDeltas snapshot.fibers ts.changes.fibersUpsert
          (ts.changes.fibersDelete ++ [ts.fiber.fiberId]) false).isEmpty ∧
            cleanup = some ⟨true, true, true⟩ ∧ state.isTerminal ∨
          cleanup = ts.changes.cleanup ∧ state = ts.inst.state) :
      Executed instruction (.done ({ ts.changes with
        fibersDelete := ts.changes.fibersDelete ++ [ts.fiber.fiberId]
        events, cleanup }.finish { ts.inst with state }))
  | terminated {events : List RuntimeEvent} {atTime : Timestamp} (silent : instruction.silent)
      (word : instruction = .endTerminate) (joins : joinLog events = joinLog ts.changes.events) :
      Executed instruction (.done ({ ts.changes with
        concurrencyMutations := ts.changes.concurrencyMutations ++
          (armedRecordIdsInTransition snapshot ts.changes).map ConcurrencyMutation.retire
        events, cleanup := some ⟨true, true, true⟩ }.finish
          { ts.inst with state := .terminated atTime }))
  | closed {controlStackDeltas : List ControlStackDelta} {events : List RuntimeEvent}
      {below : List RecordId} {r : RecordId} (silent : instruction.silent)
      (closes : instruction.closesGuard) (scopes : ts.fiber.controlStack = below ++ [r])
      (joins : joinLog events = joinLog ts.changes.events) :
      Executed instruction (.next { ts with
        fiber := ts.fiber.leave below
        changes := { ts.changes with
          concurrencyMutations := ts.changes.concurrencyMutations ++ [ConcurrencyMutation.retire r]
          controlStackDeltas, events } })
  | raced {controlStackDeltas : List ControlStackDelta} {events : List RuntimeEvent}
      {below : List RecordId} {r : RecordId} (silent : instruction.silent)
      (word : instruction = .v2RaceClose) (scopes : ts.fiber.controlStack = below ++ [r])
      (joins : joinLog events = joinLog ts.changes.events) :
      Executed instruction (.done (({ ts.changes with controlStackDeltas, events }.upsert
        { ts.fiber with controlStack := below, wait := .v2Race r ts.raceArms }).finish ts.inst))
  | subscribed {name : ℕ} {corrKey : String} {events : List RuntimeEvent}
      (silent : instruction.silent) (word : instruction = .v2WaitMsg name)
      (joins : joinLog events = joinLog ts.changes.events) :
      Executed instruction (.done (({ ts.changes with events }.upsert
        { ts.fiber with pc := ts.fiber.pc + 1, wait := .msg 0 name corrKey }).finish ts.inst))
  | released {pairing : Addr} {controlStackDeltas : List ControlStackDelta}
      {below : List RecordId} {r : RecordId} {record : ConcurrencyRecord} {event : RuntimeEvent}
      (silent : instruction.silent) (word : instruction = .v2Join pairing)
      (scopes : ts.fiber.controlStack = below ++ [r])
      (found : fetchRecordInTransition snapshot ts.changes r = some record)
      (last : record.counters.count ≤ 1) (joins : joinLog [event] = [(r, ts.fiber.fiberId, true)]) :
      Executed instruction (.next { ts with
        fiber := ts.fiber.leave below
        changes := ((v2ReconcileAncestorMembership snapshot
          (removalOps snapshot (record.members.toList.filter (· ≠ ts.fiber.fiberId))) [r]
          { ts.changes with
            controlStackDeltas
            fibersDelete := ts.changes.fibersDelete ++
              record.members.toList.filter (· ≠ ts.fiber.fiberId) }).mutate
                (.retire r)).event event })
  | arrived {pairing : Addr} {controlStackDeltas : List ControlStackDelta}
      {below : List RecordId} {r : RecordId} {record : ConcurrencyRecord}
      {events : List RuntimeEvent} (silent : instruction.silent)
      (found : fetchRecordInTransition snapshot ts.changes r = some record)
      (word : instruction = .v2Join pairing) (scopes : ts.fiber.controlStack = below ++ [r])
      (early : 2 ≤ record.counters.count)
      (joins : joinLog events = joinLog ts.changes.events ++ [(r, ts.fiber.fiberId, false)]) :
      Executed instruction (.done (({ ts.changes with
        concurrencyMutations := ts.changes.concurrencyMutations ++ [ConcurrencyMutation.insert { record with
          counters := { record.counters with count := record.counters.count - 1 } }]
        controlStackDeltas, events }.upsert
          { ts.fiber with controlStack := below, wait := .v2Barrier r }).finish ts.inst))
  | timed {fiber : Fiber} {due : ℕ} {kind : TimerKind} {repeatSpec : Option TimerRepeatSpec}
      {raceArms : List V2RaceArm} (schedules : instruction.schedulesTimer)
      (arms : ts.Arms H instruction fiber raceArms
          [.scheduleTimer (ts.effectId H) ts.fiber.fiberId due kind repeatSpec] ∨
        ts.fiber.Goes instruction fiber ∧ raceArms = ts.raceArms ∧ ∃ r, kind = .v2GuardTimer r) :
      Executed instruction (.next { ts with
        fiber, raceArms
        changes := ts.changes.effect
          (.scheduleTimer (ts.effectId H) ts.fiber.fiberId due kind repeatSpec) })
  | waited {stack : List Value} {value : Value} {due : ℕ} {events : List RuntimeEvent}
      (schedules : instruction.schedulesTimer)
      (word : instruction = .v2WaitFor ∨ instruction = .v2WaitUntil)
      (operands : ts.fiber.stack = stack ++ [value])
      (joins : joinLog events = joinLog ts.changes.events) :
      Executed instruction (.done (({ ts.changes with
        effects := ts.changes.effects ++
          [DurableEffect.scheduleTimer (ts.effectId H) ts.fiber.fiberId due .wait none]
        events }.upsert
          { ts.fiber with stack, pc := ts.fiber.pc + 1, wait := .timer due }).finish ts.inst))
  | routed {r : RecordId} {errorCode : Option String} {handler : Addr}
      {mutations : List ConcurrencyMutation} (silent : instruction.silent)
      (arms : armErrorRoute r (errorCode, handler) ts.changes.concurrencyMutations.reverse =
        .ok mutations)
      (word : instruction = .v2GuardArmError errorCode handler)
      (top : ts.fiber.controlStack.getLast? = some r) :
      Executed instruction (.next { ts with
        fiber := { ts.fiber with pc := ts.fiber.pc + 1 }
        changes := { ts.changes with concurrencyMutations := mutations.reverse } })
  | cycled {fiber : Fiber} {timerId : EffectId} {fiberId : Uuid} {due : ℕ} {r : RecordId}
      {before after : Option TimerRepeatSpec} (silent : instruction.silent)
      (last : ts.changes.effects.getLast? =
        some (.scheduleTimer timerId fiberId due (.v2GuardTimer r) before))
      (goes : ts.fiber.Goes instruction fiber) :
      Executed instruction (.next { ts with
        fiber
        changes := { ts.changes with effects := ts.changes.effects.dropLast ++
          [DurableEffect.scheduleTimer timerId fiberId due (.v2GuardTimer r) after] } })
  | consumed {fiber : Fiber} {buffered : ClaimedBufferedMessage} {inst : ProcessInstance}
      {events : List RuntimeEvent} {name : ℕ} {corrKey : String} (silent : instruction.silent)
      (waits : instruction = .v2WaitMsg name)
      (key : resolveCorrelationKeyAt H workflow ts.inst ts.fiber.pc = .ok corrKey)
      (found : snapshot.bufferedMessages.find? (fun buffered =>
        messageNameMatches workflow.metadata.messageNameMap buffered.message.messageName name &&
          buffered.message.correlationKey = corrKey) = some buffered)
      (consumes : consumeMessage ts.inst buffered.message = .ok inst)
      (goes : ts.fiber.Goes instruction fiber)
      (joins : joinLog events = joinLog ts.changes.events) :
      Executed instruction (.next { ts with
        fiber, inst
        changes := { ts.changes with
          bufferedMessages := ts.changes.bufferedMessages ++ [BufferedMessageMutation.consume buffered]
          events } })
  | cancelled {controlStackDeltas : List ControlStackDelta} {below : List RecordId} {r : RecordId}
      {restored : RollbackSnapshot} {changes : Changes} (silent : instruction.silent)
      (rolls : v2RollbackGuardScope H snapshot r (.continues ts.fiber.fiberId)
        { ts.changes with controlStackDeltas } = .ok (restored, changes))
      (word : instruction = .v2CancelScope) (scopes : ts.fiber.controlStack = below ++ [r]) :
      Executed instruction (.next { ts with
        fiber := ts.fiber.leave below, changes, inst := restored.restore ts.inst })

end

section
variable {H : Host} {workflow : ExecutableWorkflow} {snapshot : Snapshot}
  {context : DeterministicContext} {ts ts' : TickState} {instruction : Instr}
  {outcome : TickOutcome}

theorem joinLog_event {event : RuntimeEvent} (h : joinLog [event] = []) (events : List RuntimeEvent) :
    joinLog (events ++ [event]) = joinLog events := by
  rw [joinLog_append, h, List.append_nil]

theorem failContract_executed {message : String} (silent : instruction.silent)
    (parks : (instruction.isPlain ∧ stackEffect instruction = (0, 0)) ∧
      instruction.isNative = false)
    (h : failContract H context ts message = .ok outcome) :
    Executed H workflow snapshot context ts instruction outcome := by
  obtain ⟨createdAt, -, h⟩ := bind_eq_ok.mp h
  obtain rfl := pure_eq_ok.mp h
  exact .failed silent rfl parks (joinLog_event rfl _)

theorem execTask_executed {taskType : ℕ} {complete : TickState → Except TransitionError TickState}
    (silent : instruction.silent) (task : instruction.isTask)
    (hcomplete : ∀ mid mid', complete mid = .ok mid' → ∃ fiber placeholderValues,
      mid' = { mid with fiber, inst := { mid.inst with placeholderValues } } ∧
        (mid.fiber.Goes instruction { fiber with pc := fiber.pc + 1 } ∨ ∃ taskType argc retc,
          instruction = .execNative taskType argc retc ∧ fiber = { mid.fiber with
            stack := mid.fiber.stack ++ List.replicate retc (.bool true) }))
    (h : execTask H workflow snapshot ts taskType complete = .ok outcome) :
    Executed H workflow snapshot context ts instruction outcome := by
  obtain ⟨name, -, ⟨completion, inst, mid, hfound, hinst, hmid, rfl⟩ | ⟨hnone, rfl⟩⟩ :=
    execTask_eq_ok.mp h
  · obtain ⟨fiber, placeholderValues, rfl, hgoes⟩ := hcomplete _ _ hmid
    refine .cached silent hinst hfound (hgoes.imp_right ?_)
    rintro ⟨taskType, argc, retc, hword, rfl⟩
    exact ⟨taskType, argc, retc, hword, rfl⟩
  · exact .enqueued silent task hnone (joinLog_event rfl _)

theorem invokeEffect_inv {declarations : BTreeMap Addr FfiTaskDecl} {missing mismatch : String}
    {templateId : Digest} {effectId : EffectId}
    (h : invokeEffect H workflow ts declarations missing mismatch templateId =
      .ok (ts', effectId)) :
    effectId = ts.effectId H ∧ ∃ template input key events,
      joinLog events = joinLog ts.changes.events ∧ ts' = { ts with
        changes := { ts.changes with
          effects := ts.changes.effects ++ [DurableEffect.invoke (ts.effectId H) ts.fiber.fiberId ts.fiber.pc
            template templateId input key]
          events } } := by
  simp only [invokeEffect] at h
  split at h
  · simp at h
  · split at h
    · simp at h
    · obtain ⟨input, -, h⟩ := bind_eq_ok.mp h
      simp only [pure_eq_ok, Prod.mk.injEq] at h
      obtain ⟨rfl, rfl⟩ := h
      exact ⟨rfl, _, _, _, _, joinLog_event rfl _, rfl⟩

theorem execute_eq_ok (h : execute H workflow snapshot context ts instruction = .ok outcome) :
    Executed H workflow snapshot context ts instruction outcome := by
  cases instruction with
  | jump =>
    obtain rfl := Except.ok.inj h
    exact .moved rfl ⟨rfl, rfl, moves_goto (by simp [Instr.flow]) rfl⟩ rfl
  | cancelWait =>
    obtain rfl := Except.ok.inj h
    exact .moved rfl ⟨rfl, rfl, moves_next rfl rfl⟩ rfl
  | pushBool | pushI64 | loadFlag | v2LoadPlaceholderMatch | v2MiIndexLive =>
    obtain rfl := Except.ok.inj h
    exact .moved rfl ⟨rfl, rfl, moves_push rfl rfl⟩ rfl
  | incCounter =>
    obtain rfl := Except.ok.inj h
    refine .moved rfl ⟨rfl, rfl, fun hrun => ?_⟩ (joinLog_event rfl _)
    -- The fibre's loop epoch is counted as well.
    exact ⟨rfl, hrun, rfl, List.mem_singleton.mpr rfl, Nat.zero_le _, rfl⟩
  | brCounterLt =>
    obtain rfl := Except.ok.inj h
    split <;> exact .moved rfl ⟨rfl, rfl, moves_goto (by simp [Instr.flow]) rfl⟩ rfl
  | brIf | brIfNot =>
    obtain ⟨⟨mid, value⟩, hp, h⟩ := bind_eq_ok.mp h
    obtain ⟨stack, hstack, rfl⟩ := pop_eq_ok.mp hp
    obtain rfl := pure_eq_ok.mp h
    simp only
    split <;> exact .moved rfl ⟨rfl, rfl, moves_pop (by simp [Instr.flow]) rfl hstack⟩ rfl
  | pop =>
    obtain ⟨⟨mid, value⟩, hp, h⟩ := bind_eq_ok.mp h
    obtain ⟨stack, hstack, rfl⟩ := pop_eq_ok.mp hp
    obtain rfl := pure_eq_ok.mp h
    exact .moved rfl ⟨rfl, rfl, moves_pop (by simp [Instr.flow]) rfl hstack⟩ rfl
  | storeFlag =>
    obtain ⟨⟨mid, value⟩, hp, h⟩ := bind_eq_ok.mp h
    obtain ⟨stack, hstack, rfl⟩ := pop_eq_ok.mp hp
    obtain rfl := pure_eq_ok.mp h
    exact .moved rfl ⟨rfl, rfl, moves_pop (by simp [Instr.flow]) rfl hstack⟩ (joinLog_event rfl _)
  | v2MiLoadElement =>
    simp only [execute] at h
    split at h
    · split at h
      · obtain rfl := Except.ok.inj h
        exact .moved rfl ⟨rfl, rfl, moves_push rfl rfl⟩ rfl
      · simp at h
    · simp at h
  | v2MiArityCheck =>
    simp only [execute] at h
    split at h
    · simp at h
    · obtain rfl := Except.ok.inj h
      exact .moved rfl ⟨rfl, rfl, moves_next rfl rfl⟩ rfl
  | v2ArmMsg target name =>
    obtain ⟨corrKey, -, h⟩ := bind_eq_ok.mp h
    obtain rfl := pure_eq_ok.mp h
    exact .listened rfl ⟨moves_next rfl rfl, _, .msg target name corrKey, rfl⟩
  | v2RouteZeroMatch | fail => exact failContract_executed rfl ⟨⟨rfl, rfl⟩, rfl⟩ h
  | routePayload branches defaultTarget =>
    simp only [execute, routePayload] at h
    split at h
    · rename_i target htarget
      obtain rfl := Except.ok.inj h
      refine .moved rfl ⟨rfl, rfl, moves_goto ?_ rfl⟩ rfl
      rcases Option.or_eq_some_iff.mp htarget with htarget | ⟨-, htarget⟩
      · obtain ⟨branch, hbranch, rfl⟩ := Option.map_eq_some_iff.mp htarget
        exact List.mem_append_left _ (List.mem_map_of_mem (List.mem_of_find?_eq_some hbranch))
      · exact List.mem_append_right _ (by simp [htarget])
    · exact failContract_executed rfl ⟨⟨rfl, rfl⟩, rfl⟩ h
  | v2Guard | v2GuardN | v2RaceOpen =>
    obtain rfl := Except.ok.inj h
    exact .opened rfl (.inl ⟨rfl, rfl⟩) rfl rfl rfl rfl
  | v2GuardR =>
    obtain rfl := Except.ok.inj h
    exact .opened rfl (.inr ⟨rfl, rfl⟩) rfl ⟨_, _, _, _, _, rfl⟩ rfl rfl
  | v2Fork targets =>
    obtain rfl := Except.ok.inj h
    exact .forked rfl rfl rfl
  | execNative taskType argc retc =>
    simp only [execute] at h
    refine execTask_executed rfl rfl (fun mid mid' hmid => ?_) h
    obtain rfl := Except.ok.inj hmid
    exact ⟨_, _, rfl, .inr ⟨taskType, argc, retc, rfl, rfl⟩⟩
  | execDslTask =>
    simp only [execute] at h
    refine execTask_executed rfl rfl (fun mid mid' hmid => ?_) h
    obtain ⟨placeholderValues, rfl⟩ := bindProduced_eq_ok hmid
    exact ⟨_, _, rfl, .inl ⟨rfl, rfl, moves_next rfl rfl⟩⟩
  | execFfi | v2AwaitEffect =>
    obtain ⟨⟨mid, effectId⟩, hinvoke, h⟩ := bind_eq_ok.mp h
    obtain ⟨rfl, template, input, key, events, hjoins, rfl⟩ := invokeEffect_inv hinvoke
    obtain rfl := pure_eq_ok.mp h
    exact .awaited rfl rfl hjoins
  | v2ArmEffect target templateId argc retc =>
    obtain ⟨⟨mid, effectId⟩, hinvoke, h⟩ := bind_eq_ok.mp h
    obtain ⟨rfl, template, input, key, events, hjoins, rfl⟩ := invokeEffect_inv hinvoke
    obtain rfl := pure_eq_ok.mp h
    exact .armed rfl ⟨moves_next rfl rfl, _, .effect target templateId argc retc, rfl⟩ hjoins
  | publishMessage =>
    obtain ⟨correlationKey, -, h⟩ := bind_eq_ok.mp h
    simp only at h
    split at h
    · simp [bind, Except.bind] at h
    · obtain ⟨receivedAt, -, h⟩ := bind_eq_ok.mp h
      obtain rfl := pure_eq_ok.mp h
      exact .published rfl rfl rfl ⟨rfl, rfl, moves_next rfl rfl⟩ (joinLog_event rfl _)
  | «end» =>
    simp only [execute, endFiber] at h
    split at h
    · rename_i hempty
      obtain ⟨atTime, -, h⟩ := bind_eq_ok.mp h
      obtain rfl := pure_eq_ok.mp h
      exact .ended rfl rfl (joinLog_event rfl _) (.inl ⟨hempty, rfl, rfl⟩)
    · obtain rfl := Except.ok.inj h
      exact .ended rfl rfl rfl (.inr ⟨rfl, rfl⟩)
  | endTerminate =>
    obtain ⟨atTime, -, h⟩ := bind_eq_ok.mp h
    obtain rfl := pure_eq_ok.mp h
    exact .terminated rfl rfl (joinLog_event rfl _)
  | v2GuardEnd | v2GuardNEnd | v2GuardREnd =>
    obtain ⟨⟨mid, r⟩, hp, h⟩ := bind_eq_ok.mp h
    obtain ⟨below, hscopes, rfl⟩ := popScope_eq_ok hp
    obtain rfl := pure_eq_ok.mp h
    exact .closed rfl rfl hscopes (joinLog_event rfl _)
  | v2RaceClose =>
    obtain ⟨⟨mid, r⟩, hp, h⟩ := bind_eq_ok.mp h
    obtain ⟨below, hscopes, rfl⟩ := popScope_eq_ok hp
    obtain rfl := pure_eq_ok.mp h
    exact .raced rfl rfl hscopes (joinLog_event rfl _)
  | v2Join =>
    obtain ⟨⟨mid, r⟩, hp, h⟩ := bind_eq_ok.mp h
    obtain ⟨below, hscopes, rfl⟩ := popScope_eq_ok hp
    simp only at h
    split at h
    · simp at h
    · rename_i record hrecord
      split at h
      · obtain rfl := pure_eq_ok.mp h
        exact .released rfl rfl hscopes hrecord (by omega) rfl
      · obtain rfl := pure_eq_ok.mp h
        exact .arrived rfl hrecord rfl hscopes (by omega) (joinLog_append _ _)
  | v2ArmTimer target =>
    obtain ⟨⟨mid, duration⟩, hp, h⟩ := bind_eq_ok.mp h
    obtain ⟨stack, hstack, rfl⟩ := popDuration_eq_ok hp
    obtain ⟨top, htop, h⟩ := bind_eq_ok.mp h
    have htop : ts.fiber.controlStack.getLast? = some top := topScope_eq_ok.mp htop
    obtain rfl := pure_eq_ok.mp h
    exact .timed rfl (.inl ⟨moves_pop (by simp [Instr.flow]) rfl hstack, _, .timer htop target, rfl⟩)
  | v2GuardArmTimer =>
    obtain ⟨⟨mid, duration⟩, hp, h⟩ := bind_eq_ok.mp h
    obtain ⟨stack, hstack, rfl⟩ := popDuration_eq_ok hp
    obtain ⟨top, -, h⟩ := bind_eq_ok.mp h
    obtain rfl := pure_eq_ok.mp h
    exact .timed rfl (.inr ⟨⟨rfl, rfl, moves_pop (by simp [Instr.flow]) rfl hstack⟩, rfl, _, rfl⟩)
  | v2GuardArmError =>
    obtain ⟨top, htop, h⟩ := bind_eq_ok.mp h
    obtain ⟨mutations, hmutations, h⟩ := bind_eq_ok.mp h
    obtain rfl := pure_eq_ok.mp h
    exact .routed rfl hmutations rfl (topScope_eq_ok.mp htop)
  | v2GuardTimerCycle =>
    simp only [execute, guardTimerCycle] at h
    split at h
    · rename_i hlast
      obtain rfl := Except.ok.inj h
      exact .cycled rfl hlast ⟨rfl, rfl, moves_next rfl rfl⟩
    · simp at h
  | v2WaitFor =>
    obtain ⟨⟨mid, duration⟩, hp, h⟩ := bind_eq_ok.mp h
    obtain ⟨stack, hstack, rfl⟩ := popDuration_eq_ok hp
    simp only at h
    split at h
    · simp [bind, Except.bind] at h
    · obtain rfl := pure_eq_ok.mp h
      exact .waited rfl (.inl rfl) hstack (joinLog_event rfl _)
  | v2WaitUntil =>
    obtain ⟨⟨mid, duration⟩, hp, h⟩ := bind_eq_ok.mp h
    obtain ⟨stack, hstack, rfl⟩ := popDuration_eq_ok hp
    obtain rfl := pure_eq_ok.mp h
    exact .waited rfl (.inr rfl) hstack (joinLog_event rfl _)
  | v2WaitMsg =>
    obtain ⟨corrKey, hkey, h⟩ := bind_eq_ok.mp h
    split at h
    · rename_i buffered hbuffered
      obtain ⟨inst, hinst, h⟩ := bind_eq_ok.mp h
      obtain rfl := pure_eq_ok.mp h
      refine .consumed rfl rfl hkey hbuffered hinst ⟨rfl, rfl, moves_next rfl rfl⟩ ?_
      exact (joinLog_append _ _).trans (List.append_nil _)
    · obtain rfl := pure_eq_ok.mp h
      exact .subscribed rfl rfl (joinLog_event rfl _)
  | v2CancelScope =>
    obtain ⟨⟨mid, r⟩, hp, h⟩ := bind_eq_ok.mp h
    obtain ⟨below, hscopes, rfl⟩ := popScope_eq_ok hp
    obtain ⟨⟨restored, changes⟩, hroll, h⟩ := bind_eq_ok.mp h
    obtain rfl := pure_eq_ok.mp h
    exact .cancelled rfl hroll rfl hscopes

theorem tickStep_eq_ok (h : tickStep H workflow snapshot context ts = .ok outcome) :
    ∃ instruction, workflow.instructions[ts.fiber.pc]? = some instruction ∧
      execute H workflow snapshot context ts instruction = .ok outcome := by
  unfold tickStep at h
  split at h
  · simp at h
  · exact ⟨_, by assumption, h⟩

theorem runTick_invariant {O : TickOutcome → Prop} {steps : ℕ} {t : Transition}
    (hstep : ∀ {ts instruction outcome}, O (.next ts) →
      execute H workflow snapshot context ts instruction = .ok outcome → O outcome)
    (hts : O (.next ts)) (h : runTick H workflow snapshot context steps ts = .ok t) :
    O (.done t) := by
  induction steps generalizing ts with
  | zero => simp [runTick] at h
  | succ steps ih =>
    obtain ⟨outcome, hturn, h⟩ := bind_eq_ok.mp h
    obtain ⟨instruction, -, hexecute⟩ := tickStep_eq_ok hturn
    have houtcome := hstep hts hexecute
    cases outcome with
    | next ts' => exact ih houtcome h
    | done t' =>
      rw [pure_eq_ok] at h
      exact h ▸ houtcome

theorem applyTick_runs {fiberId : Option Uuid} {t : Transition}
    (h : applyTick H workflow snapshot context fiberId = .ok t) :
    snapshot.inst.state = .running ∧ ∃ f, selectFiber snapshot fiberId = .ok f ∧
      runTick H workflow snapshot context workflow.limits.maxSteps (tickStart snapshot f) = .ok t := by
  unfold applyTick at h
  split at h
  · simp [bind, Except.bind, throw, throwThe, MonadExceptOf.throw] at h
  · rename_i hrunning
    obtain ⟨f, hselect, h⟩ := bind_eq_ok.mp h
    exact ⟨of_not_not hrunning, f, hselect, h⟩

end

end BpmnLite
