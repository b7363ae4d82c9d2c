import BpmnLite.Kernel.Reference
import BpmnLite.Kernel.Refinement

/-!
# Commands on an instance that has ended

Most commands leave an ended instance as it is. Cancelling or terminating it again overwrites the
state it ended in, and triggering a guard that is still armed, directly or by its timer, starts the
guard's handler. `absorbs_iff` says for each command when the instance stays ended as it is.
-/

namespace BpmnLite

open Maps
open Std (ExtTreeMap)

variable {parent r : RecordId} {m i : Uuid} {interrupting : Bool} {timers : List TimerMutation}
  {events : List RuntimeEvent} {record : ConcurrencyRecord} {timer : ClaimedTimer}

section
variable (H : Host) (workflow : ExecutableWorkflow) (w : World) (s : Stimulus) (t : Transition)

/-- The state and the data are the same after the command, no fibre is live, and nothing has been
scheduled. -/
structure World.Absorbs : Prop where
  state : (w.commit H workflow s t).state.inst.state = w.state.inst.state
  domainPayload : (w.commit H workflow s t).state.inst.domainPayload = w.state.inst.domainPayload
  flags : (w.commit H workflow s t).state.inst.flags = w.state.inst.flags
  counters : (w.commit H workflow s t).state.inst.counters = w.state.inst.counters
  fibers : (w.commit H workflow s t).state.fibers = ∅
  jobs : t.jobsEnqueue = []
  effects : t.effects = []
  rearmed : ∀ (timerId : EffectId) (claimToken : Uuid) (dueAt : ℕ) (spec : TimerRepeatSpec),
    .rearm timerId claimToken dueAt spec ∉ t.timerMutations

/-- A timer on an armed guard starts no handler and is not armed again. -/
def World.TimerSettles (timer : ClaimedTimer) : Prop :=
  ∀ recordId record interrupting, timer.kind = .v2GuardTimer recordId →
    w.state.concurrencyTable[recordId]? = some record → record.state = .armed →
    record.kind = .guard interrupting → record.rollbackDomainPayload.isSome ∧
      (interrupting ∨ ∀ spec, timer.repeatSpec = some spec → spec.remaining ≤ 1)

/-- When a command an ended instance accepts leaves it as it is. -/
def World.Settles : Prop :=
  match s.command with
  | .cancel reason => w.state.inst.state = .cancelled reason (asI64 s.logicalTime)
  | .terminate => w.state.inst.state = .terminated s.logicalTime
  | .v2TriggerGuard _ => False
  | .timerFired timer _ => w.state.fibers = ∅ ∧ w.TimerSettles timer
  | _ => w.state.fibers = ∅

end

section
variable {H : Host} {workflow : ExecutableWorkflow} {w : World} {s : Stimulus} {t : Transition}

theorem live_of_mem_v2CancelGuardScope {snapshot : Snapshot}
    (hkeyed : Keyed Fiber.fiberId snapshot.fibers) (h : m ∈ (v2CancelGuardScope snapshot parent).2) :
    ∃ f, snapshot.fibers[m]? = some f := by
  have hfuel : ∀ fuel parent, m ∈ (v2CancelGuardScopeFuel snapshot fuel parent).2 →
      ∃ f, snapshot.fibers[m]? = some f := by
    intro fuel
    induction fuel with
    | zero => simp [v2CancelGuardScopeFuel]
    | succ fuel ih =>
      intro parent h
      simp only [v2CancelGuardScopeFuel, List.mem_append, List.mem_flatMap, List.mem_map] at h
      rcases h with ⟨_, ⟨child, -, rfl⟩, hm⟩ | h
      · exact ih child hm
      · obtain ⟨f, hf, rfl⟩ := List.mem_map.mp h
        obtain ⟨k, hk⟩ := mem_values.mp (List.mem_filter.mp hf).1
        exact ⟨f, by rw [hkeyed k f hk]; exact hk⟩
  exact hfuel _ parent h

/-- A transition that deletes no fibre and, on an instance without fibres, changes nothing. -/
structure Passive (w : World) (t : Transition) : Prop where
  deletes : t.fibersDelete = []
  cleanup : t.terminalCleanup.deleteAllFibers = false
  override : t.stateOverride = none
  idle : w.state.fibers = ∅ → t.nextSnapshot = w.state.inst ∧ t.fibersUpsert = []
  jobs : t.jobsEnqueue = []
  effects : t.effects = []
  rearmed : ∀ (timerId : EffectId) (claimToken : Uuid) (dueAt : ℕ) (spec : TimerRepeatSpec),
    .rearm timerId claimToken dueAt spec ∉ t.timerMutations

section
variable (hkeyed : Keyed Fiber.fiberId w.state.fibers)
include hkeyed

theorem not_absorbs (hcleanup : t.terminalCleanup.deleteAllFibers = false) (hm : m ∉ t.fibersDelete)
    (hlive : w.state.fibers[m]? ≠ none ∨ ∃ f ∈ t.fibersUpsert, f.fiberId = m) :
    ¬ w.Absorbs H workflow s t := by
  intro h
  have hnone : (w.commit H workflow s t).state.fibers[m]? = none := by
    rw [h.fibers]
    exact ExtTreeMap.getElem?_empty
  rw [commit_fibers_of_keyed hkeyed, hcleanup, getElem?_applyFiberDeltas, if_neg hm,
    Option.or_eq_none_iff, List.find?_eq_none] at hnone
  rcases hlive with hlive | ⟨f, hf, hid⟩
  · exact hlive hnone.2
  · exact hnone.1 f (List.mem_reverse.mpr hf) (by simpa using hid)

theorem absorbs_of_empty (hempty : w.state.fibers = ∅) (hinst : t.nextSnapshot = w.state.inst)
    (hupserts : t.fibersUpsert = []) (hdeletes : t.fibersDelete = [])
    (hcleanup : t.terminalCleanup.deleteAllFibers = false) (hoverride : t.stateOverride = none)
    (hjobs : t.jobsEnqueue = []) (heffects : t.effects = []) :
    w.Absorbs H workflow s t ↔ ∀ (timerId : EffectId) (claimToken : Uuid) (dueAt : ℕ)
      (spec : TimerRepeatSpec), .rearm timerId claimToken dueAt spec ∉ t.timerMutations := by
  refine ⟨World.Absorbs.rearmed, fun hrearmed => ?_⟩
  have hcommit : (w.commit H workflow s t).state.inst = _ := commit_inst hoverride
  rw [hinst] at hcommit
  refine ⟨by rw [hcommit], by rw [hcommit], by rw [hcommit], by rw [hcommit], ?_, hjobs, heffects,
    hrearmed⟩
  rw [commit_fibers_of_keyed hkeyed, hcleanup, hdeletes, hupserts, hempty]
  rfl

theorem Passive.absorbs_iff_empty (h : Passive w t) :
    w.Absorbs H workflow s t ↔ w.state.fibers = ∅ := by
  constructor
  · intro habsorbs
    refine ExtTreeMap.ext_getElem? fun m => ?_
    by_contra hm
    rw [ExtTreeMap.getElem?_empty] at hm
    exact not_absorbs hkeyed h.cleanup (by simp [h.deletes]) (Or.inl hm) habsorbs
  · intro hempty
    obtain ⟨hinst, hupserts⟩ := h.idle hempty
    exact (absorbs_of_empty hkeyed hempty hinst hupserts h.deletes h.cleanup h.override h.jobs
      h.effects).mpr h.rearmed

omit hkeyed in
theorem passive_same (hinst : t.nextSnapshot = w.state.inst) (hupserts : t.fibersUpsert = [])
    (hdeletes : t.fibersDelete = []) (hcleanup : t.terminalCleanup.deleteAllFibers = false)
    (hoverride : t.stateOverride = none) (hjobs : t.jobsEnqueue = []) (heffects : t.effects = [])
    (htimers : ∀ m ∈ t.timerMutations, ∃ timerId claimToken, m = .consume timerId claimToken) :
    Passive w t := by
  refine ⟨hdeletes, hcleanup, hoverride, fun _ => ⟨hinst, hupserts⟩, hjobs, heffects, ?_⟩
  intro timerId claimToken dueAt spec hmem
  obtain ⟨_, _, h⟩ := htimers _ hmem
  simp at h

omit hkeyed in
theorem passive_resume {f : Fiber} (hf : w.state.fibers[m]? = some f)
    (hdeletes : t.fibersDelete = []) (hcleanup : t.terminalCleanup.deleteAllFibers = false)
    (hoverride : t.stateOverride = none) (hjobs : t.jobsEnqueue = []) (heffects : t.effects = [])
    (htimers : ∀ (timerId : EffectId) (claimToken : Uuid) (dueAt : ℕ) (spec : TimerRepeatSpec),
      .rearm timerId claimToken dueAt spec ∉ t.timerMutations) : Passive w t := by
  refine ⟨hdeletes, hcleanup, hoverride, fun hempty => ?_, hjobs, heffects, htimers⟩
  rw [hempty, ExtTreeMap.getElem?_empty] at hf
  simp at hf

theorem Reaction.passive (hended : w.state.inst.state.isTerminal)
    (h : Reaction H workflow (w.snapshot s) (w.context s) s.command t)
    (hending : (∀ reason, s.command ≠ .cancel reason) ∧ s.command ≠ .terminate)
    (htrigger : ∀ recordId, s.command ≠ .v2TriggerGuard recordId)
    (hguard : ∀ timer firedAt recordId, s.command = .timerFired timer firedAt →
      timer.kind ≠ .v2GuardTimer recordId) : Passive w t := by
  have hlive : (w.snapshot s).inst.state.isTerminal ≠ false := by
    rw [show (w.snapshot s).inst.state.isTerminal = true from hended]
    simp
  cases h with
  | ignored idle =>
    refine passive_same rfl rfl rfl rfl rfl rfl rfl ?_
    cases idle <;> simp
  | stored => exact passive_same rfl rfl rfl rfl rfl rfl rfl (by simp)
  | cleared hs => exact (hs.elim (fun ⟨reason, hs⟩ => hending.1 reason hs) hending.2).elim
  | child before | resolved _ before =>
    simp [show w.state.inst.state = _ from before, ProcessState.isTerminal] at hended
  | woken _ _ hf | expired _ _ hf | answered _ hf | won _ hf =>
    rw [snapshot_fibers hkeyed] at hf
    exact passive_resume hf rfl rfl rfl rfl rfl (by simp)
  | completed _ hf =>
    obtain ⟨k, hk⟩ := mem_values.mp (List.mem_of_find?_eq_some hf)
    rw [snapshot_fibers hkeyed] at hk
    exact passive_resume hk rfl rfl rfl rfl rfl (by simp)
  | received _ live | raised _ live => exact absurd live hlive
  | missed hs hkind => exact absurd hkind (hguard _ _ _ hs)
  | triggered _ _ _ cause =>
    cases cause with
    | told hs => exact absurd hs (htrigger _)
    | timer hs hkind => exact absurd hkind (hguard _ _ _ hs)
    | routed _ live => exact absurd live hlive
  | rolledBack _ cause =>
    cases cause with
    | failed _ live => exact absurd live hlive
    | timer hs hkind => exact absurd hkind (hguard _ _ _ hs)

theorem trigger_not_absorbs (hfresh : w.state.fibers[(w.context s).derivedId H 0]? = none) {target : Addr}
    {acks : List JobKey} {inst : ProcessInstance} :
    ¬ w.Absorbs H workflow s (((handlerChanges H (w.snapshot s) (w.context s) r target
      interrupting).along acks timers events).finish inst) := by
  refine not_absorbs hkeyed (by simp [Changes.finish, Changes.along, handlerChanges_bare.cleanup])
    (m := (w.context s).derivedId H 0) ?_
    (Or.inr ⟨_, by
      rw [Changes.finish, Changes.along, handlerChanges_upserts]; exact List.mem_cons_self, rfl⟩)
  -- The handler's id is none of the cancelled fibres': those were live before.
  rw [Changes.finish, Changes.along, handlerChanges_deletes]
  intro hmem
  split at hmem
  · have hfibers : (w.snapshot s).fibers = w.state.fibers := snapshot_fibers hkeyed
    obtain ⟨f, hf⟩ := live_of_mem_v2CancelGuardScope (hfibers ▸ hkeyed) hmem
    simp [hfibers, hfresh] at hf
  · simp at hmem

theorem Lands.not_absorbs {rolled changes : Changes}
    {inst inst' : ProcessInstance} (hrolled : RollsBack w s r rolled)
    (hlands : Lands H workflow (w.snapshot s) (w.context s) r record i rolled inst changes inst') :
    w.state.fibers ≠ ∅ ∧
      ¬ w.Absorbs H workflow s ((changes.along [] timers events).finish inst') := by
  have hlive : ∀ m : Uuid, w.state.fibers[m]? ≠ none → w.state.fibers ≠ ∅ := by
    intro m hm hempty
    simp [hempty] at hm
  cases hlands with
  | swept others =>
    simp only [noOtherLive, List.isEmpty_eq_false_iff_exists_mem, List.mem_filter,
      snapshot_fibers hkeyed] at others
    obtain ⟨m, hm, -⟩ := others
    rw [ExtTreeMap.mem_keys, ← ExtTreeMap.isSome_getElem?_iff_mem,
      getElem?_applyFiberDeltas, hrolled.upserts] at hm
    have hm' : w.state.fibers[m]? ≠ none := fun hnone => by simp [hnone] at hm
    refine ⟨hlive m hm', BpmnLite.not_absorbs hkeyed
      (by simp [Changes.finish, Changes.along, hrolled.cleanup]) (m := m) (fun hdel => ?_)
      (Or.inl hm')⟩
    simp [show m ∈ rolled.fibersDelete from hdel] at hm
  | @reparked f _ _ _ _ _ _ _ _ hf =>
    obtain ⟨m, hm⟩ : ∃ m, w.state.fibers[m]? = some f := by
      rw [snapshot_fibers hkeyed] at hf
      exact hf.elim (fun hf => ⟨i, hf⟩) (fun hf => mem_values.mp hf.1)
    refine ⟨hlive m (by simp [hm]), BpmnLite.not_absorbs hkeyed
      (by simp [Changes.finish, Changes.along, hrolled.toBare.repark.cleanup]) (m := f.fiberId) ?_
      (Or.inr ⟨_, List.mem_append_right _ List.mem_cons_self, rfl⟩)⟩
    simp [reparkRolledBack, Changes.event, Changes.upsert, v2ReconcileAncestorMembership,
      Changes.mutateAll, Changes.along, Changes.finish]

omit hkeyed in
theorem rearm_iff (timer : ClaimedTimer) (firedAt : ℕ) (interrupting : Bool) :
    (∀ (timerId : EffectId) (claimToken : Uuid) (dueAt : ℕ) (spec : TimerRepeatSpec),
      .rearm timerId claimToken dueAt spec ∉ [rearmOrConsume timer firedAt interrupting]) ↔
      interrupting ∨ ∀ spec, timer.repeatSpec = some spec → spec.remaining ≤ 1 := by
  unfold rearmOrConsume
  cases hspec : timer.repeatSpec with
  | none => simp
  | some spec =>
    simp only [Option.some.injEq, forall_eq', ← not_lt, Bool.not_eq_true']
    split
    · rename_i hrearm
      simp [hrearm.1, hrearm.2]
    · rename_i hconsume
      by_cases hi : interrupting = true
      · simp [hi]
      · simpa [hi] using hconsume

omit hkeyed in
theorem timerSettles_iff (hkind : timer.kind = .v2GuardTimer r)
    (hrecord : w.state.concurrencyTable[r]? = some record) (harmed : record.state = .armed)
    (hguard : record.kind = .guard interrupting) :
    w.TimerSettles timer ↔ record.rollbackDomainPayload.isSome ∧
      (interrupting ∨ ∀ spec, timer.repeatSpec = some spec → spec.remaining ≤ 1) := by
  constructor
  · intro hsettles
    exact hsettles r record interrupting hkind hrecord harmed hguard
  · intro hsettles r' record' interrupting' hk hrecord' _ hguard'
    obtain rfl : r = r' := by simpa [hkind] using hk
    obtain rfl := Option.mem_unique hrecord hrecord'
    obtain rfl : interrupting = interrupting' := by simpa [hguard] using hguard'
    exact hsettles

theorem Reaction.guardTimer_absorbs_iff
    (hfresh : w.state.fibers[(w.context s).derivedId H 0]? = none)
    (hended : w.state.inst.state.isTerminal) {firedAt : ℕ}
    (hs : s.command = .timerFired timer firedAt) (hkind : timer.kind = .v2GuardTimer r)
    (h : Reaction H workflow (w.snapshot s) (w.context s) s.command t) :
    w.Absorbs H workflow s t ↔ w.state.fibers = ∅ ∧ w.TimerSettles timer := by
  cases h with
  | ignored idle =>
    cases idle with
    | consumed hs' unarmed =>
      rw [hs, Command.timerFired.injEq] at hs'
      obtain ⟨rfl, rfl⟩ := hs'
      refine Iff.trans (Passive.absorbs_iff_empty hkeyed ?_) (and_iff_left ?_).symm
      · exact passive_same rfl rfl rfl rfl rfl rfl rfl (by simp)
      · intro r record interrupting hk hrecord harmed hguard
        exact absurd hguard (unarmed r record interrupting hk hrecord harmed)
    | quiet hs' | ended hs' => exact absurd hs (hs' _ _)
    | unmatched hs' | retried hs' | late hs' => simp [hs] at hs'
  | @missed _ _ r record interrupting hs' hkind hrecord harmed hguard hrollback =>
    rw [hs, Command.timerFired.injEq] at hs'
    obtain ⟨rfl, rfl⟩ := hs'
    rw [timerSettles_iff hkind hrecord harmed hguard, and_iff_right hrollback,
      ← rearm_iff timer firedAt interrupting]
    by_cases hempty : w.state.fibers = ∅
    · rw [and_iff_right hempty]
      exact absorbs_of_empty hkeyed hempty rfl rfl rfl rfl rfl rfl rfl
    · obtain ⟨m, hm⟩ : ∃ m, w.state.fibers[m]? ≠ none := by
        by_contra hnone
        push Not at hnone
        exact hempty (ExtTreeMap.ext_getElem? fun m => by
          rw [hnone m, ExtTreeMap.getElem?_empty])
      exact iff_of_false (not_absorbs hkeyed rfl (m := m) (by simp) (Or.inl hm))
        (fun h => hempty h.1)
  | triggered _ _ _ cause =>
    cases cause with
    | told hs' | routed hs' => simp [hs] at hs'
    | timer hs' hkind hrecord harmed hguard hrollback =>
      rw [hs, Command.timerFired.injEq] at hs'
      obtain ⟨rfl, rfl⟩ := hs'
      rw [timerSettles_iff hkind hrecord harmed hguard]
      exact iff_of_false (trigger_not_absorbs hkeyed hfresh) (fun h => hrollback h.2.1)
  | rolledBack hroll cause lands =>
    obtain ⟨-, hrolled⟩ := rollsBack_of_eq_ok hroll
    obtain ⟨hlive, hnot⟩ := lands.not_absorbs hkeyed (hrolled.withJobs _ _)
    exact iff_of_false hnot (fun h => hlive h.1)
  | cleared hs' => simp [hs] at hs'
  | child before => simp [show w.state.inst.state = _ from before, ProcessState.isTerminal] at hended
  | woken hs' hkind' | expired hs' hkind' =>
    rw [hs, Command.timerFired.injEq] at hs'
    simp [hs'.1 ▸ hkind] at hkind'
  | stored hs' | resolved hs' | completed hs' | answered hs' | won hs' | received hs' | raised hs' =>
    simp [hs] at hs'

theorem absorbs_of_ending {state : ProcessState}
    (hinst : t.nextSnapshot = { w.state.inst with state })
    (hcleanup : t.terminalCleanup.deleteAllFibers) (hoverride : t.stateOverride = none)
    (hjobs : t.jobsEnqueue = []) (heffects : t.effects = []) (htimers : t.timerMutations = []) :
    w.Absorbs H workflow s t ↔ w.state.inst.state = state := by
  have hcommit : (w.commit H workflow s t).state.inst = _ := commit_inst hoverride
  rw [hinst] at hcommit
  constructor
  · intro h
    have hstate := h.state
    rw [hcommit] at hstate
    exact hstate.symm
  · intro hstate
    refine ⟨by rw [hcommit, hstate], by rw [hcommit], by rw [hcommit], by rw [hcommit], ?_, hjobs,
      heffects, by simp [htimers]⟩
    rw [commit_fibers_of_keyed hkeyed, hcleanup]
    rfl

end

theorem absorbs_envelope (envelope : Option CommandEnvelope) :
    w.Absorbs H workflow s { t with commandEnvelope := envelope } ↔ w.Absorbs H workflow s t :=
  ⟨fun h => ⟨h.state, h.domainPayload, h.flags, h.counters, h.fibers, h.jobs, h.effects, h.rearmed⟩,
    fun h => ⟨h.state, h.domainPayload, h.flags, h.counters, h.fibers, h.jobs, h.effects,
      h.rearmed⟩⟩

/-- When a command that an ended instance accepts leaves it ended as it is. The fibres are kept
under their ids, and the id the command derives is not one of them. -/
theorem absorbs_iff (hkeyed : Keyed Fiber.fiberId w.state.fibers)
    (hfresh : w.state.fibers[(w.context s).derivedId H 0]? = none)
    (hended : w.state.inst.state.isTerminal) (hrespond : w.respond H workflow s = .ok t) :
    w.Absorbs H workflow s t ↔ w.Settles s := by
  obtain ⟨t₀, -, h, -, htime, rfl⟩ := respond_eq_ok hrespond
  rw [absorbs_envelope]
  have htick : ∀ i, s.command ≠ .tick i := by
    intro i hi
    rw [hi] at h
    obtain ⟨hrunning, -⟩ := applyTick_runs h
    simp [show w.state.inst.state = _ from hrunning, ProcessState.isTerminal] at hended
  have hreacts := handle_reacts htick h
  have hpassive := hreacts.passive hkeyed hended
  unfold World.Settles
  cases hs : s.command with
  | cancel reason =>
    rw [hs] at h
    exact Except.ok.inj h ▸ absorbs_of_ending hkeyed rfl rfl rfl rfl rfl rfl
  | terminate =>
    rw [hs] at h
    obtain ⟨atTime, hat, h⟩ := bind_eq_ok.mp h
    rw [pure_eq_ok] at h
    obtain rfl : (s.logicalTime : ℤ) = atTime := by
      rw [logicalTimestamp, if_pos (show (w.context s).logicalTime < 2 ^ 63 from htime)] at hat
      exact Except.ok.inj hat
    exact h ▸ absorbs_of_ending hkeyed rfl rfl rfl rfl rfl rfl
  | v2TriggerGuard recordId =>
    rw [hs] at h
    obtain ⟨changes, hchanges, h⟩ := bind_eq_ok.mp h
    rw [pure_eq_ok] at h
    subst h
    obtain ⟨_, target, interrupting, _, _, _, _, rfl⟩ := triggerGuard_eq_ok hchanges
    have hnot : ¬ w.Absorbs H workflow s (((handlerChanges H (w.snapshot s) (w.context s) recordId
        target interrupting).along [] [] []).finish w.state.inst) := trigger_not_absorbs hkeyed hfresh
    simp only [Changes.along, List.append_nil] at hnot
    exact iff_of_false hnot id
  | timerFired timer firedAt =>
    by_cases hkind : ∃ recordId, timer.kind = .v2GuardTimer recordId
    · obtain ⟨recordId, hkind⟩ := hkind
      exact hreacts.guardTimer_absorbs_iff hkeyed hfresh hended hs hkind
    · have hsettles : w.TimerSettles timer := fun r _ _ hk => absurd ⟨r, hk⟩ hkind
      have hother : ∀ timer' firedAt' r, s.command = .timerFired timer' firedAt' →
          timer'.kind ≠ .v2GuardTimer r := by
        intro timer' firedAt' r htimer hk
        rw [hs, Command.timerFired.injEq] at htimer
        exact hkind ⟨r, htimer.1 ▸ hk⟩
      exact ((hpassive (by simp [hs]) (by simp [hs]) hother).absorbs_iff_empty
        hkeyed).trans (and_iff_left hsettles).symm
  | _ => exact (hpassive (by simp [hs]) (by simp [hs]) (by simp [hs])).absorbs_iff_empty hkeyed

end

namespace Reference

def ended : ExecutableWorkflow := workflow [.end] ⟨0, 1, 1, 0, 0, 0⟩ (by decide +kernel)

/-- A failure that arrives after the end. -/
def lateFailure : Stimulus where
  command := .effectFailed 0 (.text "job") .contractViolation "" none 0
  commandId := 0
  logicalTime := 0

theorem ended_absorbs_failure : ∃ t, (after ended [.tick none]).respond host ended lateFailure =
    .ok t ∧ (after ended [.tick none]).Absorbs host ended lateFailure t := by
  have hempty : (after ended [.tick none]).state.fibers = ∅ :=
    ExtTreeMap.isEmpty_iff.mp (by decide +kernel)
  obtain ⟨t, ht, -⟩ := ok_of_check (x := (after ended [.tick none]).respond host ended lateFailure)
    (fun _ => true) (by decide +kernel)
  refine ⟨t, ht, (absorbs_iff ?_ ?_ (by decide +kernel) ht).mpr hempty⟩
  · rw [hempty]
    exact keyed_empty _
  · rw [hempty]
    exact ExtTreeMap.getElem?_empty

/-- Cancelling a completed instance is accepted, and the instance is cancelled from then on. -/
theorem completed_then_cancelled :
    (after ended [.tick none]).state.inst.state = .completed 0 ∧
    (run ended [.tick none, .cancel "late"] start).isOk ∧
    (after ended [.tick none, .cancel "late"]).state.inst.state = .cancelled "late" 0 := by
  decide +kernel

end Reference

end BpmnLite
