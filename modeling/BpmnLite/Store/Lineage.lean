import BpmnLite.Store.Atomicity
import BpmnLite.Store.Leases

/-!
# What a commit leaves of leases, revisions and snapshots

However a commit ends, it removes no instance and no lease but that of its own instance, and moves
the revision of its own instance only, to the one the claim leads to. This covers commits that stop
half-way: the store they leave differs from the one they found.
-/

namespace BpmnLite.Store

open Maps Abort

/-- The rows that say who may commit what next. -/
def lineage (s : Store) :
    BTreeMap Uuid ProcessInstance × BTreeMap Uuid TransitionLease × BTreeMap Uuid ℕ ×
      BTreeMap Uuid SnapshotEnvelope :=
  (s.instances, s.transitionLeases, s.revisions, s.snapshots)

/-- The lineage a commit under the claim may leave behind. -/
structure Touches (claim : Claim) (start : Bool) (s s' : Store) : Prop where
  instances : ∀ x : Uuid, x ∈ s.instances → x ∈ s'.instances
  leases : ∀ x : Uuid, s'.transitionLeases[x]? = s.transitionLeases[x]? ∨
    s'.transitionLeases[x]? = none
  revisions : ∀ x, s'.revision x = s.revision x ∨
    x = claim.instanceId ∧ s'.revision x = newRevision claim start
  snapshots : ∀ (x : Uuid) (envelope : SnapshotEnvelope), s'.snapshots[x]? = some envelope →
    s.snapshots[x]? = some envelope ∨ envelope.revision ≤ 2 ^ 63

namespace Touches

variable {claim : Claim} {start : Bool} {s s₁ s₂ : Store}

theorem of_lineage (h : s₁.lineage = s.lineage) : Touches claim start s s₁ := by
  simp only [lineage, Prod.mk.injEq] at h
  obtain ⟨hinstances, hleases, hrevisions, hsnapshots⟩ := h
  refine ⟨fun x hx => hinstances ▸ hx, fun x => .inl (by rw [hleases]),
    fun x => .inl (by rw [revision, hrevisions, revision]), fun x envelope hx => .inl ?_⟩
  rwa [hsnapshots] at hx

theorem refl (s : Store) : Touches claim start s s := of_lineage rfl

theorem trans (h₁ : Touches claim start s s₁) (h₂ : Touches claim start s₁ s₂) :
    Touches claim start s s₂ := by
  refine ⟨fun x hx => h₂.instances x (h₁.instances x hx), fun x => ?_, fun x => ?_,
    fun x envelope hx => ?_⟩
  · rcases h₂.leases x with h | h
    · rw [h]
      exact h₁.leases x
    · exact .inr h
  · rcases h₂.revisions x with h | h
    · rw [h]
      exact h₁.revisions x
    · exact .inr h
  · rcases h₂.snapshots x envelope hx with h | h
    · exact h₁.snapshots x envelope h
    · exact .inr h

end Touches

section Phases

variable (H : StoreHost) (now : Timestamp) (activationId : Uuid) (claim : Claim) (t : Transition)
  (start : Bool)

theorem keeps_touches_of_fixes {α : Type} {x : Commit α} (h : Fixes lineage x) :
    Abort.Keeps (Touches claim start) x :=
  h.mono fun _ _ => Touches.of_lineage

theorem keeps_touches_bind {α β : Type} {x : Commit α} {f : α → Commit β}
    (hx : Abort.Keeps (Touches claim start) x) (hf : ∀ a, Abort.Keeps (Touches claim start) (f a)) :
    Abort.Keeps (Touches claim start) (x >>= f) :=
  Abort.Keeps.bind (fun h h' => h.trans h') hx hf

theorem keeps_touches_modify {f : Store → Store} (h : ∀ s, Touches claim start s (f s)) :
    Abort.Keeps (Touches claim start) (modify f : Commit Unit) := h

theorem appendJournal_touches (instanceId : Uuid) {envelope : SnapshotEnvelope}
    (record : JournalRecord) (hrevision : envelope.revision ≤ 2 ^ 63) (s : Store) :
    Touches claim start s (appendJournal instanceId envelope record s) := by
  refine ⟨fun _ hx => hx, fun _ => .inl rfl, fun _ => .inl rfl, fun x envelope' hx => ?_⟩
  have hx' : (s.snapshots.insert instanceId envelope)[x]? = some envelope' := hx
  rw [getElem?_insert] at hx'
  split at hx'
  · obtain rfl := Option.some.inj hx'
    exact .inr hrevision
  · exact .inl hx'

theorem writeChildRows_revision (child : ChildStart) (s : Store) (x : Uuid) :
    (writeChildRows child s).revision x = s.revision x := by
  change (s.revisions.insertIfNew child.inst.instanceId 0).getD x 0 = s.revisions.getD x 0
  rw [Std.ExtTreeMap.getD_insertIfNew]
  split
  · rename_i hnew
    obtain ⟨heq, habsent⟩ := hnew
    obtain rfl := Std.LawfulEqCmp.eq_of_compare heq
    exact (Std.ExtTreeMap.getD_eq_fallback habsent).symm
  · rfl

theorem writeChildRows_touches (child : ChildStart) (s : Store) :
    Touches claim start s (writeChildRows child s) := by
  refine ⟨fun x hx => ?_, fun x => .inl rfl, fun x => .inl (writeChildRows_revision child s x),
    fun x envelope hx => .inl hx⟩
  exact Std.ExtTreeMap.mem_insert.mpr (.inr hx)

theorem writeChild_touches (child : ChildStart) :
    Abort.Keeps (Touches claim start) (writeChild H child) := by
  apply keeps_touches_bind
  · exact keeps_touches_modify claim start (writeChildRows_touches claim start child)
  intro _
  apply keeps_touches_bind
  · exact keeps_touches_of_fixes claim start (hashEnvelope_fixes H lineage _)
  intro digest
  apply keeps_touches_modify claim start
  exact appendJournal_touches claim start _ _ (Nat.zero_le _)

theorem writeRevision_touches (s : Store) :
    Touches claim start s (writeRevision claim t start s) := by
  have hevents := appendEvents_exceptEvents claim.instanceId t.events s
  have hinstances : (writeRevision claim t start s).instances = s.instances :=
    (congrArg Store.instances hevents :)
  have hleases : (writeRevision claim t start s).transitionLeases = s.transitionLeases :=
    (congrArg Store.transitionLeases hevents :)
  have hsnapshots : (writeRevision claim t start s).snapshots = s.snapshots :=
    (congrArg Store.snapshots hevents :)
  have hrevisions : (writeRevision claim t start s).revisions =
      s.revisions.insert claim.instanceId (newRevision claim start) :=
    (congrArg (fun s => s.revisions.insert claim.instanceId (newRevision claim start)) hevents :)
  refine ⟨fun x hx => hinstances ▸ hx, fun x => .inl (by rw [hleases]), fun x => ?_,
    fun x envelope hx => .inl (hsnapshots ▸ hx)⟩
  rw [revision, hrevisions, Std.ExtTreeMap.getD_insert]
  split
  · rename_i heq
    exact .inr ⟨(Std.LawfulEqCmp.eq_of_compare heq).symm, rfl⟩
  · exact .inl rfl

theorem settleLease_touches (snapshot : ProcessInstance) (revision : ℕ) (s : Store) :
    Touches claim start s (settleLease H claim now activationId snapshot revision s) := by
  unfold settleLease
  split
  · refine ⟨fun _ hx => hx, fun x => ?_, fun _ => .inl rfl, fun _ _ hx => .inl hx⟩
    change (s.transitionLeases.erase claim.instanceId)[x]? = _ ∨
      (s.transitionLeases.erase claim.instanceId)[x]? = _
    rw [getElem?_erase]
    split
    · exact .inr rfl
    · exact .inl rfl
  · apply Touches.of_lineage
    unfold enqueueActivation
    split <;> rfl

theorem newRevision_le (h : ¬ (¬ start = true ∧ 2 ^ 63 ≤ claim.expectedRevision)) :
    newRevision claim start ≤ 2 ^ 63 := by
  unfold newRevision
  split
  · exact Nat.zero_le _
  · rename_i hstart
    have hbound := not_le.mp fun hle => h ⟨hstart, hle⟩
    omega

theorem finish_touches (snapshot : ProcessInstance) :
    Abort.Keeps (Touches claim start) (finish H claim t now activationId start snapshot) := by
  unfold finish
  apply keeps_touches_bind
  · exact keeps_touches_modify claim start (writeRevision_touches claim t start)
  intro _
  apply keeps_touches_bind
  · exact fun s => Touches.refl s
  intro s
  apply keeps_touches_bind
  · exact keeps_touches_of_fixes claim start (hashEnvelope_fixes H lineage _)
  intro digest
  by_cases hrange : ¬ start = true ∧ 2 ^ 63 ≤ claim.expectedRevision
  · simp only [if_pos hrange]
    exact fun s => Touches.refl s
  · simp only [if_neg hrange]
    apply keeps_touches_bind
    · apply keeps_touches_modify claim start
      exact appendJournal_touches claim start _ _ (newRevision_le claim start hrange)
    intro _
    apply keeps_touches_bind
    · exact keeps_touches_modify claim start
        (settleLease_touches H now activationId claim start snapshot _)
    exact fun _ s => Touches.refl s

theorem jobsStaged_touches (s : Store) : Touches claim start s (jobsStaged H claim t s) := by
  have hjobs := congrArg lineage (jobsStaged_exceptJobs H claim t s)
  have hstaged : Touches claim start
      (writeInstance claim t (committedInstance H claim t s) s) (jobsStaged H claim t s) :=
    .of_lineage hjobs
  refine Touches.trans ?_ hstaged
  refine ⟨fun x hx => ?_, fun _ => .inl rfl, fun _ => .inl rfl, fun _ _ hx => .inl hx⟩
  exact Std.ExtTreeMap.mem_insert.mpr (.inr hx)

theorem writeStaged_touches (snapshot : ProcessInstance) :
    Abort.Keeps (Touches claim start) (writeStaged H now activationId claim t start snapshot) := by
  unfold writeStaged
  apply keeps_touches_bind
  · refine keeps_touches_of_fixes claim start
      (writeRows_fixes claim t (fun _ => rfl) (fun s => ?_) (fun _ => rfl) fun _ => rfl)
    unfold cleanUp
    split_ifs <;> rfl
  intro _
  apply keeps_touches_bind
  · exact Abort.Keeps.forM (fun s => Touches.refl s) (fun h h' => h.trans h')
      fun child _ => writeChild_touches H claim start child
  intro _
  exact finish_touches H now activationId claim t start snapshot

theorem writeTransition_touches (s : Store) :
    Touches claim (s.isStart claim) s (leaves (writeTransition H now activationId claim t) s) ∧
      claim.instanceId ∈ (leaves (writeTransition H now activationId claim t) s).instances := by
  have hstaged := writeStaged_touches H now activationId claim t (s.isStart claim)
    (committedInstance H claim t s) (jobsStaged H claim t s)
  have hfirst := jobsStaged_touches H claim t (s.isStart claim) s
  have hrow : (jobsStaged H claim t s).instances =
      s.instances.insert claim.instanceId (committedInstance H claim t s) :=
    (congrArg instances (jobsStaged_exceptJobs H claim t s) :)
  rw [leaves_writeTransition]
  exact ⟨hfirst.trans hstaged, hstaged.instances _ (by simp [hrow])⟩

end Phases

section Commit

variable (H : StoreHost) (now : Timestamp) (activationId : Uuid) (claim : Claim) (t : Transition)

theorem lookupPending_fixes (executionId : Uuid) :
    Fixes exceptPending (lookupPending claim executionId) :=
  (lookupPending_keeps claim executionId).mono fun _ _ h => congrArg exceptPending h

theorem insertPending_fixes (write : PendingInvocationWrite) :
    Fixes exceptPending (insertPending H claim write) := by
  apply keeps_of_results
  · intro s _ s' h
    obtain ⟨-, rfl⟩ := (insertPending_takes H claim write s s').mp h
    exact insertPendingRow_exceptPending s (pendingRow claim write)
  · intro s stop s' h
    rw [insertPending_error H claim h]

theorem takePending_fixes (executionId : Uuid) :
    Fixes exceptPending (takePending claim executionId) := by
  apply keeps_of_results
  · intro s _ s' h
    obtain ⟨-, rfl⟩ := (takePending_takes claim executionId s s').mp h
    exact dropExecution_exceptPending claim s executionId
  · intro s stop s' h
    simp only [takePending, get_bind] at h
    cases hcallout : s.calloutOf claim.tenantId executionId with
    | some calloutId =>
      rw [hcallout] at h
      cases h
    | none =>
      rw [hcallout] at h
      obtain ⟨-, rfl⟩ := EStateM.Result.error.inj h
      rfl

variable {τ : Type} {Q : τ → τ → Prop} {g : Store → τ}

theorem commitTransition_stops (hQ : ∀ p, Q p p) (hpending : ∀ s, g s.exceptPending = g s)
    (hwrite : Stops Q g (writeTransition H now activationId claim t)) :
    Stops Q g (commitTransition H now activationId claim t) := by
  unfold commitTransition
  apply Fixes.bind_stops hQ
  · exact Fixes.forM fun executionId _ => (lookupPending_fixes claim executionId).through hpending
  intro _
  apply Fixes.bind_stops hQ
  · exact Fixes.forM fun write _ => (insertPending_fixes H claim write).through hpending
  intro _
  apply Fixes.bind_stops hQ
  · exact Fixes.forM fun executionId _ => (takePending_fixes claim executionId).through hpending
  intro _
  apply Fixes.bind_stops hQ
  · exact (runCheck_keeps claim t).mono fun _ _ h => congrArg g h
  exact fun _ => hwrite

/-- The end of a commit stops, if at all, before the journal is written. -/
theorem finish_stops (hQ : ∀ p, Q p p) (start : Bool) (snapshot : ProcessInstance)
    (hrevision : ∀ s, g (writeRevision claim t start s) = g s) :
    Stops Q g (finish H claim t now activationId start snapshot) := by
  unfold finish
  apply Fixes.bind_stops hQ (fixes_modify hrevision)
  intro _
  apply Fixes.bind_stops hQ (fun _ => rfl)
  intro s
  apply Fixes.bind_stops hQ (hashEnvelope_fixes H g _)
  intro digest
  by_cases hrange : ¬ start = true ∧ 2 ^ 63 ≤ claim.expectedRevision
  · simp only [if_pos hrange]
    exact Fixes.stops hQ fun _ => rfl
  · simp only [if_neg hrange]
    intro s e s' h
    cases h

/-- However the computation ends, the lineage is as it was, or the store passed the checks, was
touched as the claim allows and has the row of the instance. -/
def KeepsLineage {α : Type} (x : Commit α) : Prop :=
  Abort.Keeps (fun s s' => s'.lineage = s.lineage ∨
    s.Admits claim t ∧ Touches claim (s.isStart claim) s s' ∧ claim.instanceId ∈ s'.instances) x

theorem checkAndWrite_lineage : KeepsLineage claim t (checkAndWrite H now activationId claim t) := by
  intro s
  cases hcheck : runCheck claim t s with
  | error stop s₁ =>
    have hs₁ := (runCheck_keeps claim t).error hcheck
    unfold checkAndWrite leaves
    rw [bind_error hcheck]
    exact .inl (congrArg lineage hs₁)
  | ok _ s₁ =>
    obtain ⟨hadmits, hs₁⟩ := (runCheck_takes claim t s s₁).mp hcheck
    obtain rfl : s = s₁ := hs₁.symm
    refine .inr ⟨hadmits, ?_⟩
    have hwrite := writeTransition_touches H now activationId claim t s
    unfold checkAndWrite leaves
    rw [bind_ok hcheck]
    exact hwrite

theorem KeepsLineage.after_pending {α β : Type} {x : Commit α} {f : α → Commit β}
    (hf : ∀ a, KeepsLineage claim t (f a)) (hx : Fixes exceptPending x) :
    KeepsLineage claim t (x >>= f) := by
  intro s
  have hleft := hx s
  cases hfirst : x s with
  | error stop s₁ =>
    rw [leaves_error hfirst] at hleft
    unfold leaves
    rw [bind_error hfirst]
    exact .inl (congrArg lineage hleft :)
  | ok a s₁ =>
    rw [leaves_ok hfirst] at hleft
    have hlineage : s₁.lineage = s.lineage := (congrArg lineage hleft :)
    have hstart : s₁.isStart claim = s.isStart claim := (congrArg (isStart · claim) hleft :)
    have hrest := hf a s₁
    unfold leaves at hrest ⊢
    rw [bind_ok hfirst]
    rcases hrest with hsame | ⟨hadmits, htouches, hpresent⟩
    · exact .inl (hsame.trans hlineage)
    · rw [hstart] at htouches
      exact .inr ⟨(admits_congr claim t hleft).mp hadmits,
        (Touches.of_lineage hlineage).trans htouches, hpresent⟩

/-- A commit that gets past the checks touches the lineage as its claim allows; any other commit
leaves it alone. -/
theorem commit_lineage : KeepsLineage claim t (commitTransition H now activationId claim t) := by
  rw [commitTransition_eq]
  apply KeepsLineage.after_pending
  · intro _
    apply KeepsLineage.after_pending
    · intro _
      apply KeepsLineage.after_pending
      · exact fun _ => checkAndWrite_lineage H now activationId claim t
      · exact Fixes.forM fun executionId _ => takePending_fixes claim executionId
    · exact Fixes.forM fun write _ => insertPending_fixes H claim write
  · exact Fixes.forM fun executionId _ => lookupPending_fixes claim executionId

end Commit

end BpmnLite.Store
