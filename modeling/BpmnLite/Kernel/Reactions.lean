import BpmnLite.Kernel.ScopeSpec

/-!
# The forms of a command

What the commands other than ticks leave, each with what the command found: `Reaction` has one case
for each form, and `handle_reacts` goes through the handlers once. The invariants of a command are by
cases on it, as those of a tick are by cases on `Executed`.
-/

namespace BpmnLite

open Maps

variable {effectId : EffectId} {timer : ClaimedTimer} {firedAt : ℕ} {outputPayload payload : Bytes}
  {newDomainPayload : Option String} {noMatch : Bool} {payloadHash : Option Digest} {r : RecordId}
  {changes : Changes} {inst : ProcessInstance}

def failedFiber (snapshot : Snapshot) (effectId : EffectId) (jobKey : JobKey) : Option Fiber :=
  snapshot.fibers.values.find? (fun fiber =>
    fiber.wait = .job jobKey || fiber.wait = .effect effectId)

/-- A failure report is retried later, with the fibre parked as it is. -/
def isRetried (errorClass : ErrorClass) (retry : Option JobRetry) : Bool :=
  errorClass = .transient && retry.isSome

/-- The rollback guard a contract violation of the fibre rolls back. -/
def spannedBy (snapshot : Snapshot) (f : Fiber) (errorClass : ErrorClass) :
    Option (RecordId × ConcurrencyRecord) :=
  (if errorClass = .contractViolation then innermostGuard snapshot f else none).filter
    (fun guard => guard.2.kind = .guard true ∧ guard.2.rollbackDomainPayload.isSome)

/-- Changes with what the command that made them adds. -/
def Changes.along (changes : Changes) (acks : List JobKey) (timers : List TimerMutation)
    (events : List RuntimeEvent) : Changes :=
  { changes with
    jobsAck := changes.jobsAck ++ acks
    timerMutations := changes.timerMutations ++ timers
    events := changes.events ++ events }

section
variable (H : Host) (workflow : ExecutableWorkflow) (snapshot : Snapshot)
  (context : DeterministicContext) (command : Command)

/-- What triggering a guard changes: its handler starts, and an interrupted scope is cancelled. -/
def handlerChanges (r : RecordId) (target : Addr) (interrupting : Bool) : Changes :=
  let stack := handlerStack snapshot r interrupting
  let handlerId := context.derivedId H 0
  let started := v2ReconcileAncestorMembership snapshot
    (stack.map (fun ancestor => (ancestor, .add handlerId))) []
    ((({} : Changes).upsert { Fiber.new handlerId target with controlStack := stack }).event
      (.fiberSpawned handlerId target none))
  let cancelled := (v2CancelGuardScope snapshot r).2
  let retired := (v2CancelGuardScope snapshot r).1
  if interrupting then
    (v2ReconcileAncestorMembership snapshot (removalOps snapshot cancelled) retired
      { (started.mutateAll (retired.map .retire)).delete cancelled with
        jobMutations := started.jobMutations ++ cancelledJobs snapshot cancelled }).event
      (.v2GuardTriggered r handlerId retired cancelled)
  else started.event (.v2GuardNTriggered r handlerId)

/-- What a command that changes neither fibres nor records says, and does to jobs, timers and
effects. -/
inductive Idle : List RuntimeEvent → List JobKey → List JobMutation → List TimerMutation →
    List EffectMutation → Prop
  | quiet {events : List RuntimeEvent} (hs : ∀ timer firedAt, command ≠ .timerFired timer firedAt)
      (joins : joinLog events = []) : Idle events [] [] [] []
  | ended {text : String} {acks : List JobKey} {jobs : List JobMutation}
      (hs : ∀ timer firedAt, command ≠ .timerFired timer firedAt)
      (ended : snapshot.inst.state.isTerminal) : Idle [.signalIgnored text] acks jobs [] []
  | unmatched {effectId : EffectId} {jobKey : JobKey} {errorClass : ErrorClass}
      {message text : String} {retry : Option JobRetry} {attempt : ℕ}
      (hs : command = .effectFailed effectId jobKey errorClass message retry attempt)
      (hf : failedFiber snapshot effectId jobKey = none) :
      Idle [.signalIgnored text] (jobKeyList jobKey) [] [] []
  | retried {effectId : EffectId} {jobKey : JobKey} {errorClass : ErrorClass} {message : String}
      {retry : Option JobRetry} {attempt : ℕ} {workerId claimToken label : String} {notBeforeMs : ℤ}
      (hs : command = .effectFailed effectId jobKey errorClass message retry attempt) :
      Idle [.jobRetryScheduled jobKey notBeforeMs 0] []
        [.retryClaimed jobKey workerId claimToken label message notBeforeMs] [] []
  | consumed {timer : ClaimedTimer} {firedAt : ℕ} (hs : command = .timerFired timer firedAt)
      (unarmed : ∀ r record interrupting, timer.kind = .v2GuardTimer r →
        snapshot.concurrencyTable[r]? = some record → record.state = .armed →
        record.kind ≠ .guard interrupting) :
      Idle [] [] [] [.consume timer.timerId timer.claimToken] []
  | late {effectId : EffectId} {i : Uuid} {pc : Addr} {outputPayload : Bytes}
      {newDomainPayload : Option String} {noMatch : Bool}
      (hs : command =
        .effectCompleted effectId (.ffi i pc outputPayload newDomainPayload noMatch)) :
      Idle [] [] [] [] [⟨effectId, .completed⟩]

/-- Why a guard is triggered at an address, and what comes along. -/
inductive Provokes (r : RecordId) (target : Addr) :
    List JobKey → List TimerMutation → List RuntimeEvent → Prop
  | told {record : ConcurrencyRecord} (hs : command = .v2TriggerGuard r)
      (hrecord : snapshot.concurrencyTable[r]? = some record) (harmed : record.state = .armed)
      (htarget : record.handler = some target) : Provokes r target [] [] []
  | timer {timer : ClaimedTimer} {firedAt : ℕ} {record : ConcurrencyRecord} {interrupting : Bool}
      (hs : command = .timerFired timer firedAt) (hkind : timer.kind = .v2GuardTimer r)
      (hrecord : snapshot.concurrencyTable[r]? = some record) (harmed : record.state = .armed)
      (hguard : record.kind = .guard interrupting)
      (hrollback : ¬ record.rollbackDomainPayload.isSome)
      (htarget : record.handler = some target) :
      Provokes r target [] [rearmOrConsume timer firedAt interrupting]
        [.timerFired timer.timerId timer.fiberId firedAt]
  | routed {effectId : EffectId} {jobKey : JobKey} {errorClass : ErrorClass} {message : String}
      {retry : Option JobRetry} {attempt : ℕ} {f : Fiber} {code : String}
      (hs : command = .effectFailed effectId jobKey errorClass message retry attempt)
      (live : snapshot.inst.state.isTerminal = false)
      (hf : failedFiber snapshot effectId jobKey = some f)
      (retried : isRetried errorClass retry = false)
      (hroute : matchedErrorRoute snapshot f errorClass = some (code, target, r)) :
      Provokes r target (jobKeyList jobKey) []
        [.errorRouted jobKey code s!"guard:{uuidText r}" target]

/-- Why a guard is rolled back on behalf of the fibre `i`. The jobs are those taken back with the
scope, which deletes the fibres `gone`. -/
inductive Undoes (r : RecordId) (record : ConcurrencyRecord) (i : Uuid) (gone : List Uuid) :
    List JobKey → List JobMutation → List TimerMutation → List RuntimeEvent → Prop
  | failed {effectId : EffectId} {jobKey : JobKey} {message : String} {retry : Option JobRetry}
      {attempt : ℕ} {f : Fiber}
      (hs : command = .effectFailed effectId jobKey .contractViolation message retry attempt)
      (live : snapshot.inst.state.isTerminal = false)
      (hf : failedFiber snapshot effectId jobKey = some f) (hi : f.fiberId = i)
      (hguard : innermostGuard snapshot f = some (r, record))
      (hrollback : record.kind = .guard true ∧ record.rollbackDomainPayload.isSome) :
      Undoes r record i gone (jobKeyList jobKey) [] [] []
  | timer {timer : ClaimedTimer} {firedAt : ℕ} {interrupting : Bool}
      (hs : command = .timerFired timer firedAt) (hkind : timer.kind = .v2GuardTimer r)
      (hrecord : snapshot.concurrencyTable[r]? = some record) (harmed : record.state = .armed)
      (hguard : record.kind = .guard interrupting) (hrollback : record.rollbackDomainPayload.isSome)
      (hi : record.members.toList.head? = some i) :
      Undoes r record i gone [] (cancelledJobs snapshot gone)
        [rearmOrConsume timer firedAt interrupting]
        [.timerFired timer.timerId timer.fiberId firedAt]

/-- What becomes of a rollback: the fibre `i` dies with the scope or, as the last one, is put back
where the scope was opened. -/
inductive Lands (r : RecordId) (record : ConcurrencyRecord) (i : Uuid) (rolled : Changes)
    (inst : ProcessInstance) : Changes → ProcessInstance → Prop
  | swept (others : noOtherLive snapshot rolled i = false) :
      Lands r record i rolled inst rolled inst
  | reparked {f : Fiber} {openedAt : Addr} {errorClass : ErrorClass} {message : String}
      {attempt : ℕ} {createdAt : Timestamp} {jobKey : Option JobKey}
      (last : noOtherLive snapshot rolled i) (hopened : record.openedAt = some openedAt)
      (hf : snapshot.fibers[i]? = some f ∨ f ∈ snapshot.fibers.values ∧ f.fiberId = i) :
      Lands r record i rolled inst
        (reparkRolledBack snapshot r openedAt f
          (failureIncident H workflow snapshot context f errorClass message attempt createdAt)
          jobKey rolled)
        { inst with state := .incidented (context.derivedId H 0) }

inductive Reaction : Transition → Prop
  | ignored {events : List RuntimeEvent} {acks : List JobKey} {jobs : List JobMutation}
      {timers : List TimerMutation} {effects : List EffectMutation}
      (idle : Idle snapshot command events acks jobs timers effects) :
      Reaction {
        nextSnapshot := snapshot.inst, events, jobsAck := acks, jobMutations := jobs
        timerMutations := timers, effectMutations := effects }
  | stored {messageId name correlationKey : String} {payload : Bytes}
      {payloadHash : Option Digest} {expiresAt : Timestamp} {message : BufferedMessage}
      {mutation : BufferedMessageMutation} {event : RuntimeEvent}
      (hs : command =
        .messageDelivered messageId name correlationKey payload payloadHash expiresAt)
      (carried : message.msgId = messageId ∧ message.payload = payload ∧
        message.payloadHash = payloadHash)
      (kept : mutation = .deliver message ∨ mutation = .insert message)
      (joins : joinLog [event] = []) :
      Reaction { nextSnapshot := snapshot.inst, bufferedMessages := [mutation], events := [event] }
  | cleared {state : ProcessState} {events : List RuntimeEvent}
      (hs : (∃ reason, command = .cancel reason) ∨ command = .terminate)
      (ended : state.isTerminal) (joins : joinLog events = []) :
      Reaction (retireAllArmedRecords snapshot {
        nextSnapshot := { snapshot.inst with state }, events, terminalCleanup := ⟨true, true, true⟩ })
  | child {calloutId : Uuid} {nodeId : String} {state : ProcessState} {upserts : List Fiber}
      {incidents : List Incident} {events : List RuntimeEvent}
      (before : snapshot.inst.state = .waitingOnSubmission calloutId nodeId) :
      Reaction {
        nextSnapshot := { snapshot.inst with state }, fibersUpsert := upserts, incidents, events }
  | resolved {incidentId : Uuid} {resolution : String} {incident : Incident}
      (hs : command = .resolveIncident incidentId resolution)
      (before : snapshot.inst.state = .incidented incidentId) :
      Reaction {
        nextSnapshot := { snapshot.inst with state := .running }
        incidents := [incident]
        events := [.incidentResolved incidentId resolution]
        fibersUpsert := ((snapshot.fibers.values.find?
          (fun fiber => fiber.wait = .incident incidentId)).map
            (fun fiber => { fiber with wait := .running })).toList }
  | woken {timer : ClaimedTimer} {firedAt deadlineMs : ℕ} {f : Fiber}
      (hs : command = .timerFired timer firedAt) (hkind : timer.kind = .wait)
      (hf : snapshot.fibers[timer.fiberId]? = some f) (hwait : f.wait = .timer deadlineMs) :
      Reaction {
        nextSnapshot := snapshot.inst
        fibersUpsert := [{ f with wait := .running }]
        events := [.timerFired timer.timerId timer.fiberId firedAt]
        timerMutations := [.consume timer.timerId timer.claimToken] }
  | expired {timer : ClaimedTimer} {firedAt : ℕ} {r : RecordId} {target : Addr} {f : Fiber}
      {arms : List V2RaceArm} (hs : command = .timerFired timer firedAt)
      (hkind : timer.kind = .v2Race r target) (hf : snapshot.fibers[timer.fiberId]? = some f)
      (hwait : f.wait = .v2Race r arms) :
      Reaction {
        nextSnapshot := snapshot.inst
        fibersUpsert := [{ f with pc := target, wait := .running }]
        events := [.timerFired timer.timerId timer.fiberId firedAt, .v2RaceWon r timer.fiberId]
        concurrencyMutations := [.retire r]
        timerMutations := [.v2CancelRace timer.fiberId r timer.timerId,
          .consume timer.timerId timer.claimToken] }
  | completed {effectId : EffectId} {completion : JobCompletion} {f : Fiber}
      {flags : BTreeMap FlagKey Value} {event : RuntimeEvent}
      (hs : command = .effectCompleted effectId (.job completion))
      (hf : snapshot.fibers.values.find? (fun fiber => fiber.wait = .job completion.jobKey) = some f)
      (hflags : applyOrchFlags snapshot.inst.flags completion.orchFlags.toList = .ok flags)
      (joins : joinLog [event] = []) :
      Reaction {
        nextSnapshot := { snapshot.inst with
          domainPayload := completion.domainPayload
          domainPayloadHash := H.contentHash completion.domainPayload
          flags }
        fibersUpsert := [{ f with pc := f.pc + 1, wait := .running }]
        events := [event]
        jobMutations := (ackCompletion completion).1
        jobsAck := (ackCompletion completion).2
        dedupe := [⟨completion.jobKey, completion⟩] }
  | answered {effectId : EffectId} {i : Uuid} {pc : Addr} {outputPayload : Bytes}
      {newDomainPayload : Option String} {noMatch : Bool} {f : Fiber}
      {flags : BTreeMap FlagKey Value} {payload : String} {hash : Digest} {event : RuntimeEvent}
      (hs : command =
        .effectCompleted effectId (.ffi i pc outputPayload newDomainPayload noMatch))
      (hf : snapshot.fibers[i]? = some f)
      (hmatch : matchFfiCompletion H workflow snapshot f effectId i pc = .ok .parked)
      (hashed : hash = H.contentHash payload ∨
        payload = snapshot.inst.domainPayload ∧ hash = snapshot.inst.domainPayloadHash)
      (joins : joinLog [event] = []) :
      Reaction {
        nextSnapshot := { snapshot.inst with
          flags, domainPayload := payload, domainPayloadHash := hash }
        fibersUpsert := [{ f with pc := f.pc + 1, wait := .running }]
        effectMutations := [⟨effectId, .completed⟩]
        events := [event] }
  | won {effectId : EffectId} {i : Uuid} {pc : Addr} {outputPayload : Bytes}
      {newDomainPayload : Option String} {noMatch : Bool} {f : Fiber}
      {flags : BTreeMap FlagKey Value} {payload : String} {hash : Digest} {r : RecordId}
      {target : Addr} {event : RuntimeEvent}
      (hs : command =
        .effectCompleted effectId (.ffi i pc outputPayload newDomainPayload noMatch))
      (hf : snapshot.fibers[i]? = some f)
      (hmatch : matchFfiCompletion H workflow snapshot f effectId i pc = .ok (.raceWin r target))
      (hashed : hash = H.contentHash payload ∨
        payload = snapshot.inst.domainPayload ∧ hash = snapshot.inst.domainPayloadHash)
      (joins : joinLog [event] = []) :
      Reaction {
        nextSnapshot := { snapshot.inst with
          flags, domainPayload := payload, domainPayloadHash := hash }
        fibersUpsert := [{ f with pc := target, wait := .running }]
        effectMutations := [⟨effectId, .completed⟩]
        events := [.v2RaceWon r f.fiberId, event]
        concurrencyMutations := [.retire r]
        timerMutations := [.v2CancelRace f.fiberId r effectId] }
  | received {race : Option RecordId} {f' : Fiber} {messageId name correlationKey : String}
      {payload : Bytes} {payloadHash : Option Digest} {expiresAt : Timestamp}
      {message : BufferedMessage} {text : String} {hash : Digest} {events : List RuntimeEvent}
      (hs : command =
        .messageDelivered messageId name correlationKey payload payloadHash expiresAt)
      (live : snapshot.inst.state.isTerminal = false)
      (found : snapshot.fibers.values.findSome? (messageResumption workflow name correlationKey) =
        some (f', race))
      (hashed : payloadHash = some hash ∧ String.fromUTF8? ⟨payload.toArray⟩ = some text ∨
        text = snapshot.inst.domainPayload ∧ hash = snapshot.inst.domainPayloadHash)
      (joins : joinLog events = []) :
      Reaction (((winRace H snapshot f' { bufferedMessages := [.deliver message], events }
        race).upsert f').finish
          { snapshot.inst with domainPayload := text, domainPayloadHash := hash })
  | raised {effectId : EffectId} {jobKey : JobKey} {errorClass : ErrorClass} {message : String}
      {retry : Option JobRetry} {attempt : ℕ} {f : Fiber} {createdAt : Timestamp}
      {events : List RuntimeEvent} {acks : List JobKey} {jobs : List JobMutation}
      (hs : command = .effectFailed effectId jobKey errorClass message retry attempt)
      (live : snapshot.inst.state.isTerminal = false)
      (hf : failedFiber snapshot effectId jobKey = some f)
      (retried : isRetried errorClass retry = false)
      (route : matchedErrorRoute snapshot f errorClass = none)
      (span : spannedBy snapshot f errorClass = none) (joins : joinLog events = [])
      (withdrawn : retry = none ∧ acks = jobKeyList jobKey ∧ jobs = [] ∨
        acks = [] ∧ ∃ workerId claimToken label incidentId, retry.isSome ∧
          jobs = [.deadLetterClaimed jobKey workerId claimToken label message incidentId]) :
      Reaction {
        nextSnapshot := { snapshot.inst with state := .incidented (context.derivedId H 0) }
        incidents := [failureIncident H workflow snapshot context f errorClass message attempt
          createdAt]
        fibersUpsert := [{ f with wait := .incident (context.derivedId H 0) }]
        events, jobsAck := acks, jobMutations := jobs
        effectMutations := if jobKey.isEmpty then [⟨effectId, .failed⟩] else [] }
  | missed {timer : ClaimedTimer} {firedAt : ℕ} {r : RecordId} {record : ConcurrencyRecord}
      {interrupting : Bool} (hs : command = .timerFired timer firedAt)
      (hkind : timer.kind = .v2GuardTimer r)
      (hrecord : snapshot.concurrencyTable[r]? = some record) (harmed : record.state = .armed)
      (hguard : record.kind = .guard interrupting) (hrollback : record.rollbackDomainPayload.isSome)
      (hmembers : record.members.toList.head? = none) :
      Reaction {
        nextSnapshot := snapshot.inst
        events := [.timerFired timer.timerId timer.fiberId firedAt]
        timerMutations := [rearmOrConsume timer firedAt interrupting] }
  | triggered {interrupting : Bool} {r : RecordId} {record : ConcurrencyRecord} {target : Addr}
      {acks : List JobKey} {timers : List TimerMutation} {events : List RuntimeEvent}
      (hrecord : snapshot.concurrencyTable[r]? = some record)
      (hkind : record.kind = .guard interrupting) (harmed : record.state = .armed)
      (cause : Provokes snapshot command r target acks timers events) :
      Reaction (((handlerChanges H snapshot context r target interrupting).along acks timers
        events).finish snapshot.inst)
  | rolledBack {r : RecordId} {record : ConcurrencyRecord} {i : Uuid} {restored : RollbackSnapshot}
      {rolled changes : Changes} {inst : ProcessInstance} {acks : List JobKey}
      {jobs : List JobMutation} {timers : List TimerMutation} {events : List RuntimeEvent}
      (hroll : v2RollbackGuardScope H snapshot r (.dies i) {} = .ok (restored, rolled))
      (cause : Undoes snapshot command r record i rolled.fibersDelete acks jobs timers events)
      (lands : Lands H workflow snapshot context r record i
        { rolled with jobsAck := rolled.jobsAck ++ acks, jobMutations := rolled.jobMutations ++ jobs }
        (restored.restore snapshot.inst) changes inst) :
      Reaction ((changes.along [] timers events).finish inst)

end

section
variable {H : Host} {workflow : ExecutableWorkflow} {snapshot : Snapshot}
  {context : DeterministicContext} {command : Command} {t : Transition}

theorem Idle.joins {events : List RuntimeEvent} {acks : List JobKey} {jobs : List JobMutation}
    {timers : List TimerMutation} {effects : List EffectMutation}
    (h : Idle snapshot command events acks jobs timers effects) : joinLog events = [] := by
  cases h with
  | quiet _ joins => exact joins
  | _ => rfl

theorem trigger_eq_ok {target : Addr}
    (h : v2TriggerGuardChangesWithTarget H snapshot r context target = .ok changes) :
    ∃ record interrupting, snapshot.concurrencyTable[r]? = some record ∧
      record.kind = .guard interrupting ∧ record.state = .armed ∧
      changes = handlerChanges H snapshot context r target interrupting := by
  unfold v2TriggerGuardChangesWithTarget at h
  split at h
  · simp at h
  · rename_i record hrecord
    split at h
    · rename_i interrupting hkind
      obtain ⟨hstate, h⟩ := ite_error_eq_ok.mp h
      refine ⟨record, interrupting, hrecord, hkind, by simpa using hstate, ?_⟩
      cases interrupting <;> exact (Except.ok.inj h).symm
    · simp at h

theorem triggerGuard_eq_ok (h : v2TriggerGuardChanges H snapshot r context = .ok changes) :
    ∃ record target interrupting, snapshot.concurrencyTable[r]? = some record ∧
      record.kind = .guard interrupting ∧ record.state = .armed ∧ record.handler = some target ∧
      changes = handlerChanges H snapshot context r target interrupting := by
  unfold v2TriggerGuardChanges at h
  split at h
  · simp at h
  · rename_i record hrecord
    split at h
    · obtain ⟨-, h⟩ := ite_error_eq_ok.mp h
      split at h
      · rename_i target htarget
        obtain ⟨record', interrupting, hrecord', hkind, harmed, hchanges⟩ := trigger_eq_ok h
        obtain rfl := Option.mem_unique hrecord hrecord'
        exact ⟨record, target, interrupting, hrecord, hkind, harmed, htarget, hchanges⟩
      · simp at h
    · simp at h

theorem reacts_consumed (hs : command = .timerFired timer firedAt)
    (unarmed : ∀ r record interrupting, timer.kind = .v2GuardTimer r →
      snapshot.concurrencyTable[r]? = some record → record.state = .armed →
      record.kind ≠ .guard interrupting)
    (h : (.ok {
      nextSnapshot := snapshot.inst
      timerMutations := [.consume timer.timerId timer.claimToken] } :
      Except TransitionError Transition) = .ok t) :
    Reaction H workflow snapshot context command t :=
  Except.ok.inj h ▸ .ignored (.consumed hs unarmed)

theorem applyGuardTimer_reacts (hs : command = .timerFired timer firedAt)
    (hkind : timer.kind = .v2GuardTimer r)
    (h : applyGuardTimer H workflow snapshot context timer firedAt r = .ok t) :
    Reaction H workflow snapshot context command t := by
  unfold applyGuardTimer at h
  simp only at h
  split at h
  · rename_i hnone
    refine reacts_consumed hs (fun r' record interrupting hk hrecord => ?_) h
    obtain rfl : r = r' := by simpa [hkind] using hk
    exact absurd (hnone.symm.trans hrecord) (by simp)
  · rename_i record hrecord
    split at h
    · rename_i interrupting harmed hguard
      split at h
      · rename_i hrollback
        obtain ⟨⟨changes, inst⟩, hchanges, h⟩ := bind_eq_ok.mp h
        simp only [pure_eq_ok] at h
        subst h
        unfold applyV2GuardTimerRollback at hchanges
        split at hchanges
        · rename_i hmembers
          simp only [Except.ok.injEq, Prod.mk.injEq] at hchanges
          obtain ⟨rfl, rfl⟩ := hchanges
          exact .missed hs hkind hrecord harmed hguard hrollback hmembers
        · rename_i i hi
          obtain ⟨⟨restored, rolled⟩, hroll, hchanges⟩ := bind_eq_ok.mp hchanges
          have hundoes : Undoes snapshot command r record i rolled.fibersDelete _ _ _ _ :=
            .timer hs hkind hrecord harmed hguard hrollback hi
          have hlands : Lands H workflow snapshot context r record i
              { rolled with
                jobsAck := rolled.jobsAck ++ []
                jobMutations := rolled.jobMutations ++ cancelledJobs snapshot rolled.fibersDelete }
              (restored.restore snapshot.inst) changes inst := by
            rw [List.append_nil]
            simp only at hchanges
            split at hchanges
            · rename_i hlast
              split at hchanges
              · simp [throw_eq_ok] at hchanges
              · simp [throw_eq_ok] at hchanges
              · rename_i f openedAt hf hopened
                obtain ⟨createdAt, -, hchanges⟩ := bind_eq_ok.mp hchanges
                simp only [pure_eq_ok, Prod.mk.injEq] at hchanges
                obtain ⟨rfl, rfl⟩ := hchanges
                exact .reparked hlast hopened (Or.inl hf)
            · rename_i hothers
              simp only [pure_eq_ok, Prod.mk.injEq] at hchanges
              obtain ⟨rfl, rfl⟩ := hchanges
              exact .swept (by simpa using hothers)
          have hreaction := Reaction.rolledBack hroll hundoes hlands
          simpa only [Changes.along, Changes.event, List.append_nil] using hreaction
      · rename_i hrollback
        obtain ⟨changes, hchanges, h⟩ := bind_eq_ok.mp h
        simp only [pure_bind, pure_eq_ok] at h
        subst h
        obtain ⟨record', target, interrupting', hrecord', hguard', -, htarget, rfl⟩ :=
          triggerGuard_eq_ok hchanges
        obtain rfl := Option.mem_unique hrecord hrecord'
        obtain rfl : interrupting = interrupting' := by simpa [hguard] using hguard'
        have hreaction : Reaction H workflow snapshot context command _ :=
          .triggered hrecord hguard harmed
            (.timer hs hkind hrecord harmed hguard hrollback htarget)
        simpa only [Changes.along, Changes.event, List.append_nil] using hreaction
    · rename_i hnot
      refine reacts_consumed hs (fun r' record' interrupting hk hrecord' harmed hguard => ?_) h
      obtain rfl : r = r' := by simpa [hkind] using hk
      obtain rfl := Option.mem_unique hrecord hrecord'
      exact hnot interrupting harmed hguard

theorem applyTimer_reacts (hs : command = .timerFired timer firedAt)
    (h : applyTimer H workflow snapshot context timer firedAt = .ok t) :
    Reaction H workflow snapshot context command t := by
  unfold applyTimer at h
  simp only at h
  obtain ⟨-, h⟩ := ite_error_eq_ok.mp h
  obtain ⟨-, h⟩ := ite_error_eq_ok.mp h
  obtain ⟨-, h⟩ := ite_error_eq_ok.mp h
  split at h
  · rename_i hkind
    split at h
    · rename_i f hf
      split at h
      · rename_i deadlineMs hwait
        split at h
        · exact Except.ok.inj h ▸ .woken hs hkind hf hwait
        · exact reacts_consumed hs (by simp [hkind]) h
      · exact reacts_consumed hs (by simp [hkind]) h
    · exact reacts_consumed hs (by simp [hkind]) h
  · rename_i r target hkind
    split at h
    · rename_i f hf
      split at h
      · rename_i current arms hwait
        split at h
        · rename_i hcurrent
          subst hcurrent
          exact Except.ok.inj h ▸ .expired hs hkind hf hwait
        · exact reacts_consumed hs (by simp [hkind]) h
      · exact reacts_consumed hs (by simp [hkind]) h
    · exact reacts_consumed hs (by simp [hkind]) h
  · rename_i r hkind
    exact applyGuardTimer_reacts hs hkind h
  · rename_i hkind
    exact reacts_consumed hs (by simp [hkind]) h

theorem applyJobCompletion_reacts {completion : JobCompletion}
    (hs : command = .effectCompleted effectId (.job completion))
    (h : applyJobCompletion H snapshot completion = .ok t) :
    Reaction H workflow snapshot context command t := by
  simp only [applyJobCompletion] at h
  obtain ⟨-, h⟩ := ite_error_eq_ok.mp h
  split at h
  · rename_i hended
    exact Except.ok.inj h ▸ .ignored (.ended (by simp [hs]) hended)
  · split at h
    · simp at h
    · rename_i f hf
      obtain ⟨inst, hinst, h⟩ := bind_eq_ok.mp h
      obtain ⟨flags, hflags, hinst⟩ := bind_eq_ok.mp hinst
      simp only [pure_eq_ok] at h hinst
      subst hinst
      exact h ▸ .completed hs hf hflags rfl

theorem applyFfiResult_eq_ok {pc : Addr}
    (h : applyFfiResult H workflow snapshot pc outputPayload newDomainPayload noMatch = .ok inst) :
    ∃ flags payload hash, inst = { snapshot.inst with
        flags, domainPayload := payload, domainPayloadHash := hash } ∧
      (hash = H.contentHash payload ∨
        payload = snapshot.inst.domainPayload ∧ hash = snapshot.inst.domainPayloadHash) := by
  unfold applyFfiResult at h
  split at h
  · exact Except.ok.inj h ▸ ⟨_, _, _, rfl, Or.inr ⟨rfl, rfl⟩⟩
  · split at h
    · exact Except.ok.inj h ▸ ⟨_, _, _, rfl, Or.inl rfl⟩
    · obtain ⟨declaration, -, h⟩ := bind_eq_ok.mp h
      rw [mapError_eq_ok] at h
      obtain ⟨output, -, h⟩ := bind_eq_ok.mp h
      obtain ⟨domain, -, h⟩ := bind_eq_ok.mp h
      obtain ⟨⟨flags, written⟩, -, h⟩ := bind_eq_ok.mp h
      rw [pure_eq_ok] at h
      exact h ▸ ⟨_, _, _, rfl, Or.inl rfl⟩

theorem applyFfiCompletion_reacts {i : Uuid} {pc : Addr}
    (hs : command = .effectCompleted effectId (.ffi i pc outputPayload newDomainPayload noMatch))
    (h : applyFfiCompletion H workflow snapshot effectId i pc outputPayload newDomainPayload noMatch
      = .ok t) : Reaction H workflow snapshot context command t := by
  unfold applyFfiCompletion at h
  split at h
  · simp at h
  · rename_i f hf
    obtain ⟨found, hmatch, h⟩ := bind_eq_ok.mp h
    cases found with
    | lateArm =>
      simp only [pure_eq_ok] at h
      exact h ▸ .ignored (.late hs)
    | parked =>
      obtain ⟨inst, hinst, h⟩ := bind_eq_ok.mp h
      obtain ⟨flags, payload, hash, rfl, hashed⟩ := applyFfiResult_eq_ok hinst
      simp only [pure_eq_ok] at h
      exact h ▸ .answered hs hf hmatch hashed rfl
    | raceWin r target =>
      obtain ⟨inst, hinst, h⟩ := bind_eq_ok.mp h
      obtain ⟨flags, payload, hash, rfl, hashed⟩ := applyFfiResult_eq_ok hinst
      simp only [pure_eq_ok] at h
      exact h ▸ .won hs hf hmatch hashed rfl

theorem messagePayload_eq_ok (h : messagePayload snapshot payload payloadHash = .ok inst) :
    ∃ text hash, inst = { snapshot.inst with domainPayload := text, domainPayloadHash := hash } ∧
      (payloadHash = some hash ∧ String.fromUTF8? ⟨payload.toArray⟩ = some text ∨
        text = snapshot.inst.domainPayload ∧ hash = snapshot.inst.domainPayloadHash) := by
  unfold messagePayload at h
  split at h
  · exact Except.ok.inj h ▸ ⟨_, _, rfl, Or.inr ⟨rfl, rfl⟩⟩
  · rename_i hash
    split at h
    · rename_i text htext
      exact Except.ok.inj h ▸ ⟨text, hash, rfl, Or.inl ⟨rfl, htext⟩⟩
    · simp at h

theorem applyMessage_reacts {messageId name correlationKey : String} {expiresAt : Timestamp}
    (hs : command = .messageDelivered messageId name correlationKey payload payloadHash expiresAt)
    (h : applyMessage H workflow snapshot context messageId name correlationKey payload payloadHash
      expiresAt = .ok t) : Reaction H workflow snapshot context command t := by
  obtain ⟨receivedAt, -, h⟩ := bind_eq_ok.mp h
  simp only at h
  split at h
  · simp only [pure_eq_ok] at h
    exact h ▸ .stored hs ⟨rfl, rfl, rfl⟩ (Or.inl rfl) rfl
  · rename_i hlive
    split at h
    · simp only [pure_eq_ok] at h
      exact h ▸ .stored hs ⟨rfl, rfl, rfl⟩ (Or.inr rfl) rfl
    · rename_i f' race found
      obtain ⟨inst, hinst, h⟩ := bind_eq_ok.mp h
      obtain ⟨text, hash, rfl, hashed⟩ := messagePayload_eq_ok hinst
      simp only [pure_eq_ok] at h
      exact h ▸ .received hs (by simpa using hlive) found hashed rfl

theorem applyResolveIncident_reacts {incidentId : Uuid} {resolution : String}
    (hs : command = .resolveIncident incidentId resolution)
    (h : applyResolveIncident snapshot context incidentId resolution = .ok t) :
    Reaction H workflow snapshot context command t := by
  unfold applyResolveIncident at h
  split at h
  · simp at h
  · split at h
    · exact Except.ok.inj h ▸ .ignored (.quiet (by simp [hs]) rfl)
    · obtain ⟨hstate, h⟩ := ite_error_eq_ok.mp h
      obtain ⟨resolvedAt, -, h⟩ := bind_eq_ok.mp h
      rw [pure_eq_ok] at h
      exact h ▸ .resolved hs (by simpa using hstate)

theorem applyStartChildResult_reacts {idempotencyKey : String} {childInstanceId : Uuid}
    {accepted : Bool} (hs : command = .startChildResult idempotencyKey childInstanceId accepted)
    (h : applyStartChildResult H snapshot context idempotencyKey childInstanceId accepted = .ok t) :
    Reaction H workflow snapshot context command t := by
  unfold applyStartChildResult at h
  split at h
  · split at h
    · exact Except.ok.inj h ▸ .ignored (.quiet (by simp [hs]) rfl)
    · simp at h
  · rename_i calloutId nodeId hstate
    split at h
    · exact Except.ok.inj h ▸ .child hstate
    · split at h
      · simp at h
      · obtain ⟨createdAt, -, h⟩ := bind_eq_ok.mp h
        rw [pure_eq_ok] at h
        exact h ▸ .child hstate
  · simp at h

section Failure
variable {f : Fiber} {jobKey : JobKey} {errorClass : ErrorClass} {message : String}
  {retry : Option JobRetry} {attempt : ℕ}

theorem raiseIncident_reacts
    (hs : command = .effectFailed effectId jobKey errorClass message retry attempt)
    (live : snapshot.inst.state.isTerminal = false)
    (hf : failedFiber snapshot effectId jobKey = some f)
    (retried : isRetried errorClass retry = false)
    (route : matchedErrorRoute snapshot f errorClass = none)
    (span : spannedBy snapshot f errorClass = none)
    (h : raiseIncident H workflow snapshot context f effectId jobKey errorClass message retry
      attempt = .ok t) : Reaction H workflow snapshot context command t := by
  obtain ⟨createdAt, -, h⟩ := bind_eq_ok.mp h
  simp only [pure_eq_ok] at h
  subst h
  cases retry with
  | none => exact .raised hs live hf retried route span rfl (Or.inl ⟨rfl, rfl, rfl⟩)
  | some retry =>
    exact .raised hs live hf retried route span rfl (Or.inr ⟨rfl, _, _, _, _, rfl, rfl⟩)

theorem rollbackOnFailure_reacts {record : ConcurrencyRecord} {missing : String}
    {reported : Option JobKey}
    (hs : command = .effectFailed effectId jobKey .contractViolation message retry attempt)
    (live : snapshot.inst.state.isTerminal = false)
    (hf : failedFiber snapshot effectId jobKey = some f)
    (hguard : innermostGuard snapshot f = some (r, record))
    (hrollback : record.kind = .guard true ∧ record.rollbackDomainPayload.isSome)
    (h : rollbackOnFailure H workflow snapshot context (r, record) f errorClass message attempt
      reported missing (fun changes => { changes with
        jobsAck := changes.jobsAck ++ jobKeyList jobKey }) = .ok (changes, inst)) :
    Reaction H workflow snapshot context command (changes.finish inst) := by
  obtain ⟨⟨restored, rolled⟩, hroll, h⟩ := bind_eq_ok.mp h
  have hundoes : Undoes snapshot command r record f.fiberId rolled.fibersDelete _ _ _ _ :=
    .failed hs live hf rfl hguard hrollback
  have hlands : Lands H workflow snapshot context r record f.fiberId
      { rolled with
        jobsAck := rolled.jobsAck ++ jobKeyList jobKey, jobMutations := rolled.jobMutations ++ [] }
      (restored.restore snapshot.inst) changes inst := by
    rw [List.append_nil]
    simp only at h
    split at h
    · rename_i hlast
      split at h
      · simp [throw_eq_ok] at h
      · rename_i openedAt hopened
        obtain ⟨createdAt, -, h⟩ := bind_eq_ok.mp h
        simp only [pure_eq_ok, Prod.mk.injEq] at h
        obtain ⟨rfl, rfl⟩ := h
        exact .reparked hlast hopened (Or.inr ⟨List.mem_of_find?_eq_some hf, rfl⟩)
    · rename_i hothers
      simp only [pure_eq_ok, Prod.mk.injEq] at h
      obtain ⟨rfl, rfl⟩ := h
      exact .swept (by simpa using hothers)
  have hreaction := Reaction.rolledBack hroll hundoes hlands
  simpa only [Changes.along, List.append_nil] using hreaction

theorem applyJobFailure_reacts
    (hs : command = .effectFailed effectId jobKey errorClass message retry attempt)
    (h : applyJobFailure H workflow snapshot context effectId jobKey errorClass message retry
      attempt = .ok t) : Reaction H workflow snapshot context command t := by
  unfold applyJobFailure at h
  split at h
  · rename_i hended
    exact Except.ok.inj h ▸ .ignored (.ended (by simp [hs]) hended)
  · rename_i hended
    have live : snapshot.inst.state.isTerminal = false := Bool.eq_false_iff.mpr hended
    split at h
    · rename_i hf
      exact Except.ok.inj h ▸ .ignored (.unmatched hs hf)
    · rename_i f hf
      split at h
      · exact Except.ok.inj h ▸ .ignored (.retried hs)
      · rename_i hretry
        have hretried : isRetried errorClass retry = false := by
          cases errorClass <;> cases retry <;> simp_all [isRetried]
        split at h
        · rename_i code target r hroute
          obtain ⟨changes, hchanges, h⟩ := bind_eq_ok.mp h
          simp only [pure_eq_ok] at h
          subst h
          obtain ⟨record, interrupting, hrecord, hkind, harmed, rfl⟩ := trigger_eq_ok hchanges
          have hreaction : Reaction H workflow snapshot context command _ :=
            .triggered hrecord hkind harmed (.routed hs live hf hretried hroute)
          simpa only [Changes.along, Changes.event, List.append_nil] using hreaction
        · rename_i hroute
          cases hspan : (if errorClass = .contractViolation then innermostGuard snapshot f
              else none) with
          | none =>
            simp only [hspan] at h
            exact raiseIncident_reacts hs live hf hretried hroute (by simp [spannedBy, hspan]) h
          | some guard =>
            simp only [hspan] at h
            split at h
            · rename_i hrollback
              split at hspan
              · rename_i hclass
                subst hclass
                obtain ⟨⟨changes, inst⟩, hchanges, h⟩ := bind_eq_ok.mp h
                simp only [pure_eq_ok] at h
                exact h ▸ rollbackOnFailure_reacts hs live hf hspan hrollback hchanges
              · simp at hspan
            · rename_i hrollback
              refine raiseIncident_reacts hs live hf hretried hroute ?_ h
              simp [spannedBy, hspan, Option.filter, hrollback]

end Failure

theorem applyCancel_reacts {reason : String} (hs : command = .cancel reason) :
    Reaction H workflow snapshot context command (applyCancel snapshot context reason) := by
  refine .cleared (Or.inl ⟨reason, hs⟩) rfl ?_
  simp only [joinLog, List.filterMap_append, List.append_eq_nil_iff, List.filterMap_eq_nil_iff,
    List.mem_filterMap]
  refine ⟨?_, by simp⟩
  rintro event ⟨f, -, hevent⟩
  split at hevent
  · simp at hevent
  · obtain rfl := Option.some.inj hevent
    rfl

theorem handle_reacts (htick : ∀ i, command ≠ .tick i)
    (h : handle H workflow snapshot context command = .ok t) :
    Reaction H workflow snapshot context command t := by
  cases hs : command with
  | tick i => exact absurd hs (htick i)
  | timerFired => exact applyTimer_reacts rfl (by rwa [hs] at h)
  | cancel reason =>
    rw [hs] at h
    exact Except.ok.inj h ▸ applyCancel_reacts rfl
  | effectCompleted effectId result =>
    rw [hs] at h
    cases result with
    | job completion => exact applyJobCompletion_reacts rfl h
    | ffi => exact applyFfiCompletion_reacts rfl h
    | json => simp [handle] at h
  | effectFailed => exact applyJobFailure_reacts rfl (by rwa [hs] at h)
  | messageDelivered => exact applyMessage_reacts rfl (by rwa [hs] at h)
  | terminate =>
    rw [hs] at h
    obtain ⟨atTime, -, h⟩ := bind_eq_ok.mp h
    rw [pure_eq_ok] at h
    exact h ▸ .cleared (Or.inr rfl) rfl rfl
  | resolveIncident => exact applyResolveIncident_reacts rfl (by rwa [hs] at h)
  | startChildResult => exact applyStartChildResult_reacts rfl (by rwa [hs] at h)
  | jobClaimed =>
    rw [hs] at h
    exact Except.ok.inj h ▸ .ignored (.quiet (by simp) rfl)
  | v2TriggerGuard r =>
    rw [hs] at h
    obtain ⟨changes, hchanges, h⟩ := bind_eq_ok.mp h
    rw [pure_eq_ok] at h
    subst h
    obtain ⟨record, target, interrupting, hrecord, hkind, harmed, htarget, rfl⟩ :=
      triggerGuard_eq_ok hchanges
    have hreaction : Reaction H workflow snapshot context (.v2TriggerGuard r) _ :=
      .triggered hrecord hkind harmed (.told rfl hrecord harmed htarget)
    simpa only [Changes.along, List.append_nil] using hreaction

theorem tick_or_reacts (h : handle H workflow snapshot context command = .ok t) :
    (∃ i, command = .tick i) ∨
      (∀ i, command ≠ .tick i) ∧ Reaction H workflow snapshot context command t := by
  by_cases htick : ∃ i, command = .tick i
  · exact .inl htick
  · have hother : ∀ i, command ≠ .tick i := fun i hi => htick ⟨i, hi⟩
    exact .inr ⟨hother, handle_reacts hother h⟩

theorem apply_eq_ok (h : apply H workflow snapshot command context = .ok t) :
    ∃ t₀, validateSnapshotLimits workflow snapshot command.checksArrays = .ok () ∧
      handle H workflow snapshot context command = .ok t₀ ∧
      ring3ShadowCheck workflow snapshot t₀ = none ∧ context.logicalTime < 2 ^ 63 ∧
      t = { t₀ with commandEnvelope := some ⟨context.commandId, context.logicalTime,
        .kernel command⟩ } := by
  obtain ⟨⟨⟩, hlimits, h⟩ := bind_eq_ok.mp h
  obtain ⟨t₀, ht₀, h⟩ := bind_eq_ok.mp h
  split at h
  · simp at h
  · rename_i hring3
    simp only at h
    obtain ⟨htime, h⟩ := ite_error_eq_ok.mp h
    rw [pure_eq_ok] at h
    exact ⟨t₀, hlimits, ht₀, hring3, not_le.mp htime, h.symm⟩

end

end BpmnLite
