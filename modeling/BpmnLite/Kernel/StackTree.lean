import BpmnLite.Kernel.Refinement
import BpmnLite.Kernel.Reference

/-!
# Control stacks form a tree

In every state a run reaches, no scope occurs twice on a fibre's effective control stack, and what
lies below a scope is the same on every stack that has it. This is what taking a handler's stack from
any one member, and walking scopes from the innermost out, rely on.
-/

namespace BpmnLite

/-- For every workflow and every sequence of accepted commands, provided derived ids do not
collide. -/
theorem controlStacks_form_tree {H : Host} (hH : Function.Injective H.uuidOfSeed)
    (workflow : ExecutableWorkflow) (inst : ProcessInstance) (idempotencyKey : Uuid) (revision : ℕ)
    {w : World}
    (h : World.Reachable H workflow (fun _ _ => True) (World.genesis H inst idempotencyKey revision)
      w) :
    (∀ (m : Uuid) (f : Fiber), w.state.fibers[m]? = some f → (effectiveControlStack f).Nodup) ∧
    ∀ (m n : Uuid) (f g : Fiber), w.state.fibers[m]? = some f → w.state.fibers[n]? = some g →
      ∀ (r : RecordId) (p q p' q' : List RecordId), effectiveControlStack f = p ++ r :: q →
        effectiveControlStack g = p' ++ r :: q' → p = p' := by
  obtain ⟨hw, -, -⟩ := path_of_reachable (C := fun _ _ => True) hH
    (genesis_coherent inst idempotencyKey revision)
    (fun w s _ => ⟨fun _ _ _ => trivial, fun _ _ => trivial⟩) h
  refine ⟨fun m f hf => hw.formed.tree.nodup ⟨m, f, hf, rfl⟩, ?_⟩
  intro m n f g hf hg r p q p' q' hp hp'
  exact hw.formed.tree.below_eq ⟨m, f, hf, rfl⟩ ⟨n, g, hg, rfl⟩ hp hp'

namespace Reference

/-- A fork into two branches with a task each. -/
def forked : ExecutableWorkflow :=
  workflow [.v2Fork [1, 3] 0, .execNative 0 0 0, .jump 4, .execNative 0 0 0, .v2Join 0, .end]
    ⟨0, 3, 6, 1, 2, 2⟩ (by decide +kernel)

/-- After the fork the two branches are live, both in the scope of its barrier. -/
theorem forked_controlStacks :
    (after forked [.tick none]).state.fibers.values.map effectiveControlStack =
      [[host.forCommand 0 2 0], [host.forCommand 0 2 0]] ∧
    ∀ (m n : Uuid) (f g : Fiber), (after forked [.tick none]).state.fibers[m]? = some f →
      (after forked [.tick none]).state.fibers[n]? = some g →
      ∀ (r : RecordId) (p q p' q' : List RecordId), effectiveControlStack f = p ++ r :: q →
        effectiveControlStack g = p' ++ r :: q' → p = p' :=
  ⟨by decide +kernel, (controlStacks_form_tree host_injective forked inst 0 1
    (reachable_after forked [.tick none])).2⟩

end Reference

end BpmnLite
