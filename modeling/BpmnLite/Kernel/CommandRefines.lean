import BpmnLite.Kernel.Reactions
import BpmnLite.Kernel.TickEnds

/-!
# Commands that resume a fibre or end the instance

`Performs` names the act of the scope machine a command other than a tick stands for. Timers,
completions, messages, incidents, cancellation and termination are steps of the machine, or leave
its configuration alone.
-/

namespace BpmnLite

open Maps

inductive World.Performs (H : Host) (workflow : ExecutableWorkflow) (w : World) (s : Stimulus) :
    Act → Prop
  | waitTimer {timer : ClaimedTimer} {firedAt : ℕ} (hs : s.command = .timerFired timer firedAt)
      (hkind : timer.kind = .wait) : w.Performs H workflow s (.wake timer.fiberId)
  | raceTimer {timer : ClaimedTimer} {firedAt : ℕ} {r : RecordId} {target : Addr} {f : Fiber}
      {arms : List V2RaceArm} (hs : s.command = .timerFired timer firedAt)
      (hkind : timer.kind = .v2Race r target) (hf : w.state.fibers[timer.fiberId]? = some f)
      (hwait : f.wait = .v2Race r arms) :
      w.Performs H workflow s (.expire timer.fiberId target)
  | guardTimer {timer : ClaimedTimer} {firedAt : ℕ} {r : RecordId} {record : ConcurrencyRecord}
      {target : Addr} (hs : s.command = .timerFired timer firedAt)
      (hkind : timer.kind = .v2GuardTimer r) (hrecord : w.state.concurrencyTable[r]? = some record)
      (harmed : record.state = .armed) (hrollback : ¬ record.rollbackDomainPayload.isSome)
      (htarget : record.handler = some target) : w.Performs H workflow s (.trigger r target)
  | guardTimerRollback {timer : ClaimedTimer} {firedAt : ℕ} {r : RecordId}
      {record : ConcurrencyRecord} {i : Uuid} (hs : s.command = .timerFired timer firedAt)
      (hkind : timer.kind = .v2GuardTimer r) (hrecord : w.state.concurrencyTable[r]? = some record)
      (harmed : record.state = .armed) (hrollback : record.rollbackDomainPayload.isSome)
      (hi : record.members.toList.head? = some i) : w.Performs H workflow s (.rollback r i)
  | jobCompleted {effectId : EffectId} {completion : JobCompletion} {f : Fiber}
      (hs : s.command = .effectCompleted effectId (.job completion))
      (hf : (w.snapshot s).fibers.values.find?
        (fun fiber => fiber.wait = .job completion.jobKey) = some f) :
      w.Performs H workflow s (.complete f.fiberId)
  | ffiCompleted {effectId : EffectId} {i : Uuid} {pc : Addr} {outputPayload : Bytes}
      {newDomainPayload : Option String} {noMatch : Bool} (hs : s.command =
        .effectCompleted effectId (.ffi i pc outputPayload newDomainPayload noMatch)) :
      w.Performs H workflow s (.complete i)
  | ffiWon {effectId : EffectId} {i : Uuid} {pc : Addr} {outputPayload : Bytes}
      {newDomainPayload : Option String} {noMatch : Bool} {f : Fiber} {r : RecordId} {target : Addr}
      (hs : s.command =
        .effectCompleted effectId (.ffi i pc outputPayload newDomainPayload noMatch))
      (hf : w.state.fibers[i]? = some f)
      (hmatch : matchFfiCompletion H workflow (w.snapshot s) f effectId i pc =
        .ok (.raceWin r target)) : w.Performs H workflow s (.win i target)
  | message {messageId name correlationKey : String} {payload : Bytes} {payloadHash : Option Digest}
      {expiresAt : Timestamp} {f : Fiber} (hs : s.command =
        .messageDelivered messageId name correlationKey payload payloadHash expiresAt)
      (hf : (w.snapshot s).fibers.values.findSome?
        (messageResumption workflow name correlationKey) = some (f, none)) :
      w.Performs H workflow s (.wake f.fiberId)
  | messageWon {messageId name correlationKey : String} {payload : Bytes}
      {payloadHash : Option Digest} {expiresAt : Timestamp} {f : Fiber} {r : RecordId}
      (hs : s.command =
        .messageDelivered messageId name correlationKey payload payloadHash expiresAt)
      (hf : (w.snapshot s).fibers.values.findSome?
        (messageResumption workflow name correlationKey) = some (f, some r)) :
      w.Performs H workflow s (.win f.fiberId f.pc)
  | incident {incidentId : Uuid} {resolution : String} {f : Fiber}
      (hs : s.command = .resolveIncident incidentId resolution)
      (hf : (w.snapshot s).fibers.values.find?
        (fun fiber => fiber.wait = .incident incidentId) = some f) :
      w.Performs H workflow s (.wake f.fiberId)
  | failed {effectId : EffectId} {jobKey : JobKey} {errorClass : ErrorClass} {message : String}
      {retry : Option JobRetry} {attempt : ℕ} {f : Fiber}
      (hs : s.command = .effectFailed effectId jobKey errorClass message retry attempt)
      (hf : failedFiber (w.snapshot s) effectId jobKey = some f) :
      w.Performs H workflow s (.fail f.fiberId)
  | routed {effectId : EffectId} {jobKey : JobKey} {errorClass : ErrorClass} {message : String}
      {retry : Option JobRetry} {attempt : ℕ} {f : Fiber} {code : String} {target : Addr}
      {r : RecordId} (hs : s.command = .effectFailed effectId jobKey errorClass message retry attempt)
      (hf : failedFiber (w.snapshot s) effectId jobKey = some f)
      (hroute : matchedErrorRoute (w.snapshot s) f errorClass = some (code, target, r)) :
      w.Performs H workflow s (.trigger r target)
  | rolledBack {effectId : EffectId} {jobKey : JobKey} {message : String}
      {retry : Option JobRetry} {attempt : ℕ} {f : Fiber} {r : RecordId}
      {record : ConcurrencyRecord}
      (hs : s.command = .effectFailed effectId jobKey .contractViolation message retry attempt)
      (hf : failedFiber (w.snapshot s) effectId jobKey = some f)
      (hguard : innermostGuard (w.snapshot s) f = some (r, record))
      (hrollback : record.kind = .guard true ∧ record.rollbackDomainPayload.isSome) :
      w.Performs H workflow s (.rollback r f.fiberId)
  | triggered {r : RecordId} {record : ConcurrencyRecord} {target : Addr}
      (hs : s.command = .v2TriggerGuard r) (hrecord : w.state.concurrencyTable[r]? = some record)
      (harmed : record.state = .armed) (htarget : record.handler = some target) :
      w.Performs H workflow s (.trigger r target)
  | ended (hs : (∃ reason, s.command = .cancel reason) ∨ s.command = .terminate) :
      w.Performs H workflow s .clear

/-- A command other than a tick is one step of the machine, or none. -/
def Answers (H : Host) (workflow : ExecutableWorkflow) (w : World) (s : Stimulus)
    (t : Transition) : Prop :=
  (∃ act old, w.Performs H workflow s act ∧ old ⊆ handedOut H (w.revision + 1) ∧
    Step workflow.instructions (w.own H) (w.config H) act (w.after [] old t)) ∨
  w.after [] (w.config H).old t = w.config H

section
variable {H : Host} {workflow : ExecutableWorkflow} {w : World} {s : Stimulus} {t : Transition}

theorem config_old_subset : (w.config H).old ⊆ handedOut H (w.revision + 1) :=
  handedOut_mono (Nat.le_succ _)

theorem answers_quiet (hupserts : t.fibersUpsert = []) (hdeletes : t.fibersDelete = [])
    (hall : t.terminalCleanup.deleteAllFibers = false) (hmutations : t.concurrencyMutations = [])
    (htimers : raceTimers t.effects = []) (hjoins : joinLog t.events = []) :
    Answers H workflow w s t := by
  refine Or.inr ?_
  simp only [World.after, World.config, hupserts, hdeletes, hall, hmutations, raceTimers_append,
    htimers, joinLog_append, hjoins, List.append_nil]
  rfl

theorem after_upsert (f' : Fiber) {i : Uuid} (hid : f'.fiberId = i)
    (hupserts : t.fibersUpsert = [f']) (hdeletes : t.fibersDelete = [])
    (hall : t.terminalCleanup.deleteAllFibers = false) (htimers : raceTimers t.effects = [])
    (hjoins : joinLog t.events = []) :
    w.after [] (w.config H).old t = { w.config H with
      fibers := (w.config H).set i f'
      table := lookup w.state.concurrencyTable t.concurrencyMutations } := by
  have hfibers : (w.after [] (w.config H).old t).fibers = (w.config H).set i f' := by
    funext m
    simp only [World.after, hupserts, hdeletes, hall, getElem?_applyFiberDeltas]
    by_cases hm : m = i
    · simp [Config.set, hm, hid]
    · have hne : f'.fiberId ≠ m := fun he => hm (he.symm.trans hid)
      simp [Config.set, hm, hne, World.config]
  rw [← hfibers]
  simp only [World.after, World.config, raceTimers_append, htimers, joinLog_append, hjoins,
    List.append_nil]

theorem after_upsert_quiet (f' : Fiber) {i : Uuid} (hid : f'.fiberId = i)
    (hupserts : t.fibersUpsert = [f']) (hdeletes : t.fibersDelete = [])
    (hall : t.terminalCleanup.deleteAllFibers = false) (hmutations : t.concurrencyMutations = [])
    (htimers : raceTimers t.effects = []) (hjoins : joinLog t.events = []) :
    w.after [] (w.config H).old t = { w.config H with fibers := (w.config H).set i f' } := by
  rw [after_upsert f' hid hupserts hdeletes hall htimers hjoins, hmutations]
  rfl

variable (hw : w.Coherent H)
include hw

theorem live_of_values {f : Fiber} (h : f ∈ (w.snapshot s).fibers.values) :
    (w.config H).fibers f.fiberId = some f := by
  obtain ⟨k, hk⟩ := mem_values.mp h
  rw [hw.fibers] at hk
  exact (hw.keyed k f hk) ▸ hk

theorem live_of_find {p : Fiber → Bool} {f : Fiber}
    (h : (w.snapshot s).fibers.values.find? p = some f) :
    (w.config H).fibers f.fiberId = some f ∧ p f :=
  ⟨live_of_values hw (List.mem_of_find?_eq_some h), List.find?_some h⟩

omit hw in
theorem matchFfiCompletion_eq_ok {f : Fiber} {effectId : EffectId} {i : Uuid} {pc : Addr}
    {found : FfiMatch}
    (h : matchFfiCompletion H workflow (w.snapshot s) f effectId i pc = .ok found) :
    (found = .parked → f.wait = .effect effectId) ∧ ∀ r target, found = .raceWin r target →
      ∃ arms, f.wait = .v2Race r arms ∧ ∃ arm ∈ arms, arm.target = target := by
  have hother : ∀ {b : Prop} [Decidable b] {e : TransitionError},
      (if b then .ok .lateArm else (.error e : Except TransitionError FfiMatch)) = .ok found →
      found = .lateArm := by
    intro b _ e he
    split at he
    · exact (Except.ok.inj he).symm
    · simp at he
  simp only [matchFfiCompletion] at h
  split at h
  · rename_i parked hwait
    split at h
    · rename_i hparked
      obtain rfl := Except.ok.inj h
      exact ⟨fun _ => hparked.1 ▸ hwait, by simp⟩
    · obtain rfl := hother h
      simp
  · rename_i r arms hwait
    split at h
    · rename_i target hfind
      obtain rfl := Except.ok.inj h
      refine ⟨by simp, fun r' target' he => ?_⟩
      obtain ⟨rfl, rfl⟩ : r = r' ∧ target = target' := by simpa using he
      obtain ⟨arm, harm, htarget⟩ := List.exists_of_findSome?_eq_some hfind
      refine ⟨arms, hwait, arm, harm, ?_⟩
      cases arm with
      | effect target' armEffectId templateId =>
        simp only [V2RaceArm.effectTarget] at htarget
        split at htarget
        · simpa [V2RaceArm.target] using htarget
        · simp at htarget
      | timer | msg => simp [V2RaceArm.effectTarget] at htarget
    · obtain rfl := hother h
      simp
  · obtain rfl := hother h
    simp

omit hw in
theorem messageResumption_eq_some {name correlationKey : String} {f f' : Fiber}
    {race : Option RecordId}
    (h : messageResumption workflow name correlationKey f = some (f', race)) :
    match race with
    | none => (∃ waitId waitName corrKey, f.wait = .msg waitId waitName corrKey) ∧
        f' = { f with wait := .running }
    | some r => ∃ arms, f.wait = .v2Race r arms ∧ (∃ arm ∈ arms, arm.target = f'.pc) ∧
        f' = { f with pc := f'.pc, wait := .running } := by
  simp only [messageResumption] at h
  split at h
  · rename_i waitId waitName corrKey hwait
    split at h
    · simp only [Option.some.injEq, Prod.mk.injEq] at h
      obtain ⟨rfl, rfl⟩ := h
      exact ⟨⟨waitId, waitName, corrKey, hwait⟩, rfl⟩
    · simp at h
  · rename_i r arms hwait
    obtain ⟨arm, harm, hfound⟩ := List.exists_of_findSome?_eq_some h
    split at hfound
    · split at hfound
      · simp only [Option.some.injEq, Prod.mk.injEq] at hfound
        obtain ⟨rfl, rfl⟩ := hfound
        exact ⟨arms, hwait, ⟨_, harm, rfl⟩, rfl⟩
      · simp at hfound
    · simp at hfound
    · simp at hfound
  · simp at h

omit hw in
theorem after_clear (hall : t.terminalCleanup.deleteAllFibers = true)
    (hmutations : t.concurrencyMutations =
      (armedRecordIdsInTransition (w.snapshot s) {}).map .retire)
    (htimers : raceTimers t.effects = []) (hjoins : joinLog t.events = [])
    (hs : (∃ reason, s.command = .cancel reason) ∨ s.command = .terminate) :
    Answers H workflow w s t := by
  refine Or.inl ⟨.clear, (w.config H).old, .ended hs, config_old_subset, ?_⟩
  have hconfig : w.after [] (w.config H).old t = { w.config H with
      fibers := fun _ => none
      table := lookup w.state.concurrencyTable
        ((armedRecordIdsInTransition (w.snapshot s) {}).map .retire)
      focus := none
      arms := [] } := by
    simp only [World.after, World.config, hall, hmutations, applyFiberDeltas, raceTimers_append,
      htimers, joinLog_append, hjoins, List.append_nil]
    simp
  rw [hconfig]
  exact .clear (rewrites_clear (w.snapshot s) {})

end

end BpmnLite
