import BpmnLite.Kernel.Executed
import BpmnLite.Kernel.Reactions

/-!
# What no command writes

The kernel changes what an instance holds and never which instance it is, and it leaves several parts
of a transition to others: the counters of the first instruction set's joins, pending invocations, the
outbox, children and start records. This holds for every snapshot, not only for one that a run has
reached.
-/

namespace BpmnLite

open Maps

variable {workflow : ExecutableWorkflow} {snapshot : Snapshot} {context : DeterministicContext}
  {inst' : ProcessInstance} {t : Transition} {command : Command}

/-- Who an instance is: all that no command changes. -/
def ProcessInstance.identity (inst : ProcessInstance) :
    Uuid × String × String × Digest × String × Uuid × Uuid × Timestamp × Option Digest ×
      Option String × Option Digest × Option String :=
  (inst.instanceId, inst.tenantId, inst.processKey, inst.bytecodeVersion, inst.correlationId,
    inst.entryId, inst.runbookId, inst.createdAt, inst.integrityHash, inst.quarantineState,
    inst.planHash, inst.currentNodeId)

def Transition.unused (t : Transition) :
    List JoinMutation × List PendingInvocationWrite × List Uuid × List OutboxWrite ×
      Option ProcessState × List ChildStart × Option StartCommand :=
  (t.joinMutations, t.pendingInvocations, t.pendingTake, t.outbox, t.stateOverride, t.childStarts,
    t.startDedupe)

/-- The parts of a transition that the kernel leaves to others are empty. -/
structure Transition.Plain (t : Transition) : Prop where
  joins : t.joinMutations = []
  invocations : t.pendingInvocations = []
  taken : t.pendingTake = []
  outbox : t.outbox = []
  override : t.stateOverride = none
  children : t.childStarts = []
  start : t.startDedupe = none

section
variable (inst : ProcessInstance)

/-- The instance a tick carries is still the same one, and no join has been counted. -/
structure TickState.Tame (ts : TickState) : Prop where
  identity : ts.inst.identity = inst.identity
  joins : ts.changes.joinMutations = []

structure Transition.Tame (t : Transition) : Prop where
  identity : t.nextSnapshot.identity = inst.identity
  plain : t.Plain

def TickOutcome.Tame : TickOutcome → Prop
  | .next ts => ts.Tame inst
  | .done t => t.Tame inst

end

section Tick
variable {H : Host} {inst : ProcessInstance} {ts ts' : TickState} {outcome : TickOutcome}
  {changes : Changes}

theorem tame_finish (hidentity : inst'.identity = inst.identity)
    (hjoins : changes.joinMutations = []) : (changes.finish inst').Tame inst :=
  ⟨hidentity, hjoins, rfl, rfl, rfl, rfl, rfl, rfl⟩

theorem applyCompletion_identity {completion : JobCompletion}
    (h : applyCompletion H inst completion = .ok inst') : inst'.identity = inst.identity := by
  obtain ⟨flags, -, h⟩ := bind_eq_ok.mp h
  rw [pure_eq_ok] at h
  subst h
  rfl

theorem consumeMessage_identity {message : BufferedMessage}
    (h : consumeMessage inst message = .ok inst') : inst'.identity = inst.identity := by
  unfold consumeMessage at h
  split at h
  · rw [Except.ok.inj h]
  · split at h
    · obtain rfl := Except.ok.inj h
      rfl
    · simp at h

theorem rollback_joins {r : RecordId} {caller : RollbackCaller} {changes' : Changes}
    {restored : RollbackSnapshot}
    (h : v2RollbackGuardScope H snapshot r caller changes = .ok (restored, changes')) :
    changes'.joinMutations = changes.joinMutations := by
  unfold v2RollbackGuardScope at h
  split at h
  · simp at h
  · obtain ⟨restored', -, h⟩ := bind_eq_ok.mp h
    simp only [pure_eq_ok, Prod.mk.injEq] at h
    obtain ⟨-, rfl⟩ := h
    rfl

theorem execute_tame {instruction : Instr} (hts : ts.Tame inst)
    (h : execute H workflow snapshot context ts instruction = .ok outcome) : outcome.Tame inst := by
  cases execute_eq_ok h with
  | moved | opened | listened | armed | published | closed | released | timed | routed | cycled =>
    exact ⟨hts.identity, hts.joins⟩
  | enqueued | failed | awaited | ended | terminated | raced | subscribed | arrived | waited =>
    exact tame_finish hts.identity hts.joins
  | forked _ hforks =>
    obtain rfl := TickOutcome.done.inj hforks
    exact tame_finish hts.identity hts.joins
  | cached _ hcompleted =>
    exact ⟨(applyCompletion_identity hcompleted).trans hts.identity, hts.joins⟩
  | consumed _ _ _ _ hconsumes =>
    exact ⟨(consumeMessage_identity hconsumes).trans hts.identity, hts.joins⟩
  | cancelled _ hrolls => exact ⟨hts.identity, (rollback_joins hrolls).trans hts.joins⟩

theorem runTick_tame {steps : ℕ} (hts : ts.Tame inst)
    (h : runTick H workflow snapshot context steps ts = .ok t) : t.Tame inst := by
  exact runTick_invariant (O := TickOutcome.Tame inst)
    (fun hts hexecute => execute_tame hts hexecute) hts h

end Tick

section Commands
variable {H : Host}

theorem tame_written (hidentity : t.nextSnapshot.identity = snapshot.inst.identity)
    (hrest : t.unused = ({ nextSnapshot := t.nextSnapshot } : Transition).unused) :
    t.Tame snapshot.inst := by
  simp only [Transition.unused, Prod.mk.injEq] at hrest
  obtain ⟨hjoins, hinvocations, htaken, houtbox, hoverride, hchildren, hstart⟩ := hrest
  exact ⟨hidentity, hjoins, hinvocations, htaken, houtbox, hoverride, hchildren, hstart⟩

theorem Reaction.tame (h : Reaction H workflow snapshot context command t) :
    t.Tame snapshot.inst := by
  cases h with
  | @received race =>
    cases race <;> exact tame_finish rfl rfl
  | @triggered interrupting =>
    cases interrupting <;> exact tame_finish rfl rfl
  | rolledBack hroll cause lands =>
    have hjoins := rollback_joins hroll
    cases lands <;> exact tame_finish rfl hjoins
  | _ => exact tame_written rfl rfl

theorem handle_tame (h : handle H workflow snapshot context command = .ok t) :
    t.Tame snapshot.inst := by
  rcases tick_or_reacts h with ⟨i, rfl⟩ | ⟨-, hreacts⟩
  · obtain ⟨-, f, -, h⟩ := applyTick_runs h
    have hstart : (tickStart snapshot f).Tame snapshot.inst := ⟨rfl, rfl⟩
    exact runTick_tame hstart h
  · exact hreacts.tame

/-- What the kernel returns is about the instance of the snapshot, and leaves to others what is not
the kernel's. -/
theorem apply_tame (h : apply H workflow snapshot command context = .ok t) :
    t.Tame snapshot.inst := by
  obtain ⟨t₀, -, hhandle, -, -, rfl⟩ := apply_eq_ok h
  have ht := handle_tame hhandle
  exact ⟨ht.identity, ht.plain.joins, ht.plain.invocations, ht.plain.taken, ht.plain.outbox,
    ht.plain.override, ht.plain.children, ht.plain.start⟩

end Commands

end BpmnLite
