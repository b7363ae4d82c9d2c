import BpmnLite.Kernel.Effects
import BpmnLite.Kernel.StackTree
import BpmnLite.Kernel.Writes

/-!
# States that a run reaches

From the start of an instance, whatever commands were accepted and whatever they were handed.
-/

namespace BpmnLite

variable {H : Host} {workflow : ExecutableWorkflow} {inst : ProcessInstance} {w : World}
  {idempotencyKey : Uuid} {revision : ℕ} {G : World → Stimulus → Prop}
  (hH : Function.Injective H.uuidOfSeed)
  (h : World.Reachable H workflow G (World.genesis H inst idempotencyKey revision) w)

section
include hH h

/-- The kernel refines the scope machine. -/
theorem run_refines_machine :
    Path (fun _ _ => True) workflow.instructions (w.own H)
      ((World.genesis H inst idempotencyKey revision).config H) (w.config H) := by
  obtain ⟨-, hown, hpath⟩ := path_of_reachable (C := fun _ _ => True) hH
    (genesis_coherent inst idempotencyKey revision)
    (fun _ _ _ => ⟨fun _ _ _ => trivial, fun _ _ => trivial⟩) h
  rwa [hown]

/-- Cancelling a scope takes along every fibre inside it, and no other. -/
theorem cancelled_scope_exact (s : Stimulus) (r : RecordId) :
    (∀ m, m ∈ (v2CancelGuardScope (w.snapshot s) r).2 ↔
      ∃ f, w.state.fibers[m]? = some f ∧ r ∈ effectiveControlStack f) ∧
    ∀ y, y ∈ (v2CancelGuardScope (w.snapshot s) r).1 ↔
      y = r ∨ ∃ (m : Uuid) (f : Fiber), w.state.fibers[m]? = some f ∧ Above f r y :=
  have hw := (invoked_own hH h).1
  ⟨fun _ => hw.cancelled_iff, fun _ => hw.dead_iff⟩

end

include h in
/-- No command makes an instance another one. -/
theorem identity_kept : w.state.inst.identity = { inst with integrityHash := none }.identity := by
  induction h with
  | refl => rfl
  | tail _ hlast ih =>
    obtain ⟨s, t, -, hrespond, rfl⟩ := hlast
    have htame := apply_tame hrespond
    have hid := htame.identity.trans ih
    rw [commit_inst htame.plain.override]
    simp only [ProcessInstance.identity, Prod.mk.injEq] at hid ⊢
    tauto

namespace Reference

theorem forked_refines : Path (fun _ _ => True) forked.instructions
    ((after forked [.tick none]).own host) (start.config host)
    ((after forked [.tick none]).config host) :=
  run_refines_machine host_injective (reachable_after forked [.tick none])

theorem forked_scope_cancelled :
    (v2CancelGuardScope ((after forked [.tick none]).snapshot ticked)
      (host.forCommand 0 2 0)).2.length = 2 ∧
    ∀ m, m ∈ (v2CancelGuardScope ((after forked [.tick none]).snapshot ticked)
      (host.forCommand 0 2 0)).2 ↔ ∃ f, (after forked [.tick none]).state.fibers[m]? = some f ∧
        host.forCommand 0 2 0 ∈ effectiveControlStack f :=
  ⟨by decide +kernel, (cancelled_scope_exact host_injective
    (reachable_after forked [.tick none]) ticked (host.forCommand 0 2 0)).1⟩

theorem forked_identity :
    (after forked [.tick none]).state.inst.identity = Reference.inst.identity :=
  identity_kept (reachable_after forked [.tick none])

end Reference

end BpmnLite
