import BpmnLite.Kernel.GuardRefines

/-!
# What a command does to the instance

No command changes the instance's id, none sets a state of its own beside the next instance, and
only a command that ends the instance deletes every fibre.
-/

namespace BpmnLite

open Maps

structure Keeps (w : World) (t : Transition) : Prop where
  instanceId : t.nextSnapshot.instanceId = w.state.inst.instanceId
  override : t.stateOverride = none
  state : t.nextSnapshot.state = w.state.inst.state ∨ t.nextSnapshot.state = .running ∨
    (∃ incidentId, t.nextSnapshot.state = .incidented incidentId) ∨
    t.nextSnapshot.state.isTerminal
  cleared : t.terminalCleanup.deleteAllFibers → t.nextSnapshot.state.isTerminal
  ended : t.nextSnapshot.state.isTerminal →
    t.nextSnapshot.state = w.state.inst.state ∨ t.terminalCleanup.deleteAllFibers

section
variable {H : Host} {workflow : ExecutableWorkflow} {w : World} {s : Stimulus} {t : Transition}

section
variable (hid : t.nextSnapshot.instanceId = w.state.inst.instanceId)
include hid

theorem keeps_same (hstate : t.nextSnapshot.state = w.state.inst.state)
    (hoverride : t.stateOverride = none)
    (hcleanup : t.terminalCleanup.deleteAllFibers = false) : Keeps w t :=
  ⟨hid, hoverride, Or.inl hstate, fun h => by simp [hcleanup] at h, fun _ => Or.inl hstate⟩

theorem keeps_running (hstate : t.nextSnapshot.state = .running)
    (hoverride : t.stateOverride = none)
    (hcleanup : t.terminalCleanup.deleteAllFibers = false) : Keeps w t :=
  ⟨hid, hoverride, Or.inr (Or.inl hstate), fun h => by simp [hcleanup] at h,
    fun h => by simp [hstate, ProcessState.isTerminal] at h⟩

theorem keeps_incident {incidentId : Uuid}
    (hstate : t.nextSnapshot.state = .incidented incidentId) (hoverride : t.stateOverride = none)
    (hcleanup : t.terminalCleanup.deleteAllFibers = false) : Keeps w t :=
  ⟨hid, hoverride, Or.inr (Or.inr (Or.inl ⟨incidentId, hstate⟩)), fun h => by simp [hcleanup] at h,
    fun h => by simp [hstate, ProcessState.isTerminal] at h⟩

theorem keeps_terminal (hstate : t.nextSnapshot.state.isTerminal)
    (hoverride : t.stateOverride = none)
    (hcleanup : t.terminalCleanup.deleteAllFibers) : Keeps w t :=
  ⟨hid, hoverride, Or.inr (Or.inr (Or.inr hstate)), fun _ => hstate, fun _ => Or.inr hcleanup⟩

end

theorem Mid.keeps {ts : TickState} (h : Mid H w s ts)
    (hstep : tickStep H workflow (w.snapshot s) (w.context s) ts = .ok (.done t)) : Keeps w t := by
  obtain ⟨instruction, hfetch, hstep⟩ := tickStep_eq_ok hstep
  have hcleanup : (ts.changes.cleanup.getD {}).deleteAllFibers = false := by
    rw [h.cleanup]
    rfl
  cases execute_eq_ok hstep with
  | enqueued | awaited | waited | subscribed | raced | arrived =>
    exact keeps_running h.instanceId h.state rfl hcleanup
  | failed => exact keeps_incident h.instanceId rfl rfl hcleanup
  | ended _ _ _ hlast =>
    rcases hlast with ⟨-, rfl, hterminal⟩ | ⟨rfl, rfl⟩
    · exact keeps_terminal h.instanceId hterminal rfl rfl
    · exact keeps_running h.instanceId h.state rfl hcleanup
  | terminated => exact keeps_terminal h.instanceId rfl rfl rfl
  | forked _ hforks =>
    obtain rfl := TickOutcome.done.inj hforks
    exact keeps_running h.instanceId h.state rfl hcleanup

theorem Changes.Bare.keeps {changes : Changes} (h : changes.Bare) {inst : ProcessInstance}
    {acks : List JobKey} {timers : List TimerMutation} {events : List RuntimeEvent}
    (hid : inst.instanceId = w.state.inst.instanceId)
    (hstate : inst.state = w.state.inst.state ∨ ∃ incidentId, inst.state = .incidented incidentId) :
    Keeps w ((changes.along acks timers events).finish inst) := by
  have hcleanup : ((changes.along acks timers events).finish
      inst).terminalCleanup.deleteAllFibers = false := by
    simp [Changes.finish, Changes.along, h.cleanup]
  rcases hstate with hstate | ⟨incidentId, hstate⟩
  · exact keeps_same hid hstate rfl hcleanup
  · exact keeps_incident hid hstate rfl hcleanup

theorem Reaction.keeps (hw : w.Coherent H)
    (h : Reaction H workflow (w.snapshot s) (w.context s) s.command t) : Keeps w t := by
  cases h with
  | cleared _ ended => exact keeps_terminal rfl ended rfl rfl
  | child before => exact absurd before (hw.noChild _ _).1
  | resolved => exact keeps_running rfl rfl rfl rfl
  | @received race => cases race <;> exact keeps_same rfl rfl rfl rfl
  | raised => exact keeps_incident rfl rfl rfl rfl
  | triggered => exact handlerChanges_bare.keeps rfl (Or.inl rfl)
  | rolledBack hroll _ lands =>
    obtain ⟨-, hrolled⟩ := rollsBack_of_eq_ok hroll
    cases lands with
    | swept => exact (hrolled.withJobs _ _).toBare.keeps rfl (Or.inl rfl)
    | reparked => exact (hrolled.withJobs _ _).toBare.repark.keeps rfl (Or.inr ⟨_, rfl⟩)
  | _ => exact keeps_same rfl rfl rfl rfl

end

end BpmnLite
