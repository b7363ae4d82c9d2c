import BpmnLite.Kernel.Reference
import BpmnLite.Store.CommitSpec

/-!
# Which refused commits leave the store as it was

A commit that stops keeps what it has written. It stops without a trace when it stops before its
first write, and some of its refusals come later: pending invocations are taken and inserted before
the claim is checked, and jobs, effects and hashes are looked at among the writes.
-/

namespace BpmnLite.Store

open Abort Maps

variable {executionId calloutId : Uuid} {write : PendingInvocationWrite} {s' : Store}
  {row : PendingInvocation} {stop : CommitStop}

section Fixed

variable (H : StoreHost) (claim : Claim)

theorem takeClaimedJob_fixes (jobKey : JobKey) (workerId claimToken : String) :
    Fixes exceptJobs (takeClaimedJob jobKey workerId claimToken) := by
  intro s
  simp only [leaves, takeClaimedJob, get_bind]
  cases s.inflightJobs[jobKey]? with
  | none => rfl
  | some job =>
    by_cases hheld : job.workerId ≠ workerId ∨ job.claimToken ≠ claimToken
    · simp only [if_pos hheld]
      rfl
    · simp only [if_neg hheld]
      rfl

theorem writeJobMutation_fixes (mutation : JobMutation) :
    Fixes exceptJobs (writeJobMutation mutation) := by
  cases mutation with
  | ackClaimed jobKey workerId claimToken | retryClaimed jobKey workerId claimToken =>
    exact (takeClaimedJob_fixes jobKey workerId claimToken).bind fun _ => fixes_modify fun _ => rfl
  | deadLetterClaimed jobKey workerId claimToken errorClass errorMessage incidentId =>
    exact (takeClaimedJob_fixes jobKey workerId claimToken).bind fun _ _ => rfl
  | cancel jobKey => exact fixes_modify fun _ => rfl

theorem writeEffect_fixes (effect : DurableEffect) :
    Fixes exceptEffects (writeEffect claim effect) := by
  intro s
  cases effect with
  | scheduleTimer timerId fiberId dueAt kind repeatSpec =>
    simp only [leaves, writeEffect, get_bind]
    cases s.timers[timerId]? with
    | none => rfl
    | some existing =>
      dsimp only
      split_ifs <;> rfl
  | invoke effectId fiberId pc operation templateId input idempotencyKey =>
    simp only [leaves, writeEffect, get_bind]
    cases s.durableEffects[effectId]? with
    | none => rfl
    | some existing =>
      dsimp only
      split_ifs <;> rfl

theorem writeEffectMutation_fixes (mutation : EffectMutation) :
    Fixes exceptEffects (writeEffectMutation claim mutation) := by
  intro s
  simp only [leaves, writeEffectMutation, get_bind]
  cases s.durableEffects[mutation.effectId]? with
  | none => rfl
  | some effect =>
    dsimp only
    split_ifs <;> rfl

theorem hashEnvelope_fixes {τ : Type} (g : Store → τ) (envelope : SnapshotEnvelope) :
    Fixes g (hashEnvelope H envelope) :=
  fun s => congrArg g (hashEnvelope_keeps H envelope s)

theorem writeChild_fixes (child : ChildStart) : Fixes exceptInstances (writeChild H child) := by
  dsimp only [writeChild]
  apply Fixes.bind (fixes_modify (by intro s; rfl))
  intro _
  apply Fixes.bind (hashEnvelope_fixes H exceptInstances _)
  intro _
  exact fixes_modify (by intro s; rfl)

theorem writeChild_fixes_row {child : ChildStart} {instanceId : Uuid}
    (hchild : child.inst.instanceId ≠ instanceId) :
    Fixes (fun s => s.instances[instanceId]?) (writeChild H child) := by
  dsimp only [writeChild]
  apply Fixes.bind
  · apply fixes_modify
    intro s
    simp [writeChildRows, appendEvent, getElem?_insert, hchild]
  intro _
  apply Fixes.bind (hashEnvelope_fixes H _ _)
  intro _
  exact fixes_modify fun _ => rfl

/-- The parts of the store that the end of a commit does not touch. -/
def settled (s : Store) : BTreeMap Uuid ProcessInstance × BTreeMap Uuid PendingInvocation :=
  (s.instances, s.pendingStore)

theorem writeRevision_settled (t : Transition) (start : Bool) (s : Store) :
    (writeRevision claim t start s).settled = s.settled := by
  have hevents := congrArg settled (appendEvents_exceptEvents claim.instanceId t.events s)
  exact hevents

theorem finish_fixes (now : Timestamp) (activationId : Uuid) (t : Transition) (start : Bool)
    (snapshot : ProcessInstance) :
    Fixes settled (finish H claim t now activationId start snapshot) := by
  unfold finish
  apply Fixes.bind (fixes_modify (writeRevision_settled claim t start))
  intro _
  apply Fixes.bind (fun _ => rfl)
  intro s
  apply Fixes.bind (hashEnvelope_fixes H settled _)
  intro digest
  by_cases hrange : ¬ start = true ∧ 2 ^ 63 ≤ claim.expectedRevision
  · simp only [if_pos hrange]
    exact fun _ => rfl
  · simp only [if_neg hrange]
    apply Fixes.bind (fixes_modify (by intro s; rfl))
    intro _
    refine Fixes.bind (fixes_modify fun s => ?_) fun _ _ => rfl
    exact (congrArg settled (settleLease_exceptLeases H claim s now activationId snapshot _) :)

end Fixed

section Written

variable (H : StoreHost) (now : Timestamp) (activationId : Uuid) (claim : Claim) (t : Transition)

/-- The phases of the writes between the staged jobs and the children. -/
def writeRows : Commit Unit := do
  t.jobMutations.forM writeJobMutation
  modify (cleanUp claim t)
  modify (writeRecords claim t)
  t.effects.forM (writeEffect claim)
  t.effectMutations.forM (writeEffectMutation claim)
  modify (writeTimers claim t)

/-- The phases of the writes that come after the jobs have been staged. -/
def writeStaged (start : Bool) (snapshot : ProcessInstance) : Commit ℕ := do
  writeRows claim t
  t.childStarts.forM (writeChild H)
  finish H claim t now activationId start snapshot

theorem writeTransition_apply (s : Store) : writeTransition H now activationId claim t s =
    writeStaged H now activationId claim t (s.isStart claim) (committedInstance H claim t s)
      (jobsStaged H claim t s) := by
  simp only [writeStaged, writeRows, bind_assoc]
  rfl

theorem leaves_writeTransition (s : Store) : leaves (writeTransition H now activationId claim t) s =
    leaves (writeStaged H now activationId claim t (s.isStart claim) (committedInstance H claim t s))
      (jobsStaged H claim t s) := by
  rw [leaves, writeTransition_apply]
  rfl

/-- The rows between the staged jobs and the children are not seen by `g`. -/
theorem writeRows_fixes {τ : Type} {g : Store → τ} (hjobs : ∀ s, g s.exceptJobs = g s)
    (hcleaned : ∀ s, g (cleanUp claim t s) = g s) (hrecords : ∀ s, g s.exceptRecords = g s)
    (heffects : ∀ s, g s.exceptEffects = g s) : Fixes g (writeRows claim t) := by
  unfold writeRows
  apply Fixes.bind
  · exact Fixes.forM fun mutation _ => (writeJobMutation_fixes mutation).through hjobs
  intro _
  apply Fixes.bind (fixes_modify hcleaned)
  intro _
  apply Fixes.bind
  · have hwritten : Fixes exceptRecords (modify (writeRecords claim t) : Commit Unit) :=
      fixes_modify (writeRecords_exceptRecords claim t)
    exact hwritten.through hrecords
  intro _
  apply Fixes.bind
  · exact Fixes.forM fun effect _ => (writeEffect_fixes claim effect).through heffects
  intro _
  apply Fixes.bind
  · exact Fixes.forM fun mutation _ => (writeEffectMutation_fixes claim mutation).through heffects
  intro _
  have htimers : Fixes exceptEffects (modify (writeTimers claim t) : Commit Unit) :=
    fixes_modify fun _ => rfl
  exact htimers.through heffects

theorem cleanUp_settled (s : Store) : (cleanUp claim t s).settled = s.settled := by
  unfold cleanUp
  split_ifs <;> rfl

theorem writeStaged_fixes {τ : Type}
    (g : BTreeMap Uuid ProcessInstance × BTreeMap Uuid PendingInvocation → τ)
    (hchildren : ∀ child ∈ t.childStarts, Fixes (fun s => g s.settled) (writeChild H child))
    (start : Bool) (snapshot : ProcessInstance) :
    Fixes (fun s => g s.settled) (writeStaged H now activationId claim t start snapshot) := by
  unfold writeStaged
  apply Fixes.bind
  · exact (writeRows_fixes claim t (g := settled) (fun _ => rfl) (cleanUp_settled claim t)
      (fun _ => rfl) fun _ => rfl).map g
  intro _
  apply Fixes.bind (Fixes.forM hchildren)
  intro _
  exact (finish_fixes H claim now activationId t start snapshot).map g

theorem writeTransition_fixes_pending :
    Fixes pendingStore (writeTransition H now activationId claim t) := by
  intro s
  have hstaged := writeStaged_fixes H now activationId claim t Prod.snd
    (fun child _ => (writeChild_fixes H child).map pendingStore) (s.isStart claim)
    (committedInstance H claim t s) (jobsStaged H claim t s)
  have hjobs := congrArg pendingStore (jobsStaged_exceptJobs H claim t s)
  rw [leaves_writeTransition]
  exact hstaged.trans hjobs

theorem writeTransition_row
    (hchildren : ∀ child ∈ t.childStarts, child.inst.instanceId ≠ claim.instanceId) (s : Store) :
    (leaves (writeTransition H now activationId claim t) s).instances[claim.instanceId]? =
      some (committedInstance H claim t s) := by
  have hstaged := writeStaged_fixes H now activationId claim t
    (fun parts => parts.1[claim.instanceId]?)
    (fun child hmem => writeChild_fixes_row H (hchildren child hmem)) (s.isStart claim)
    (committedInstance H claim t s) (jobsStaged H claim t s)
  have hjobs := congrArg instances (jobsStaged_exceptJobs H claim t s)
  calc (leaves (writeTransition H now activationId claim t) s).instances[claim.instanceId]?
      = (jobsStaged H claim t s).instances[claim.instanceId]? := by
        rw [leaves_writeTransition]
        exact hstaged
    _ = (s.instances.insert claim.instanceId (committedInstance H claim t s))[claim.instanceId]? :=
        congrArg (fun rows => rows[claim.instanceId]?) hjobs
    _ = some (committedInstance H claim t s) := by simp

end Written

section PendingRows

variable (H : StoreHost) (claim : Claim)

theorem calloutOf_eq_some {s : Store} {tenantId : String}
    (h : s.calloutOf tenantId executionId = some calloutId) :
    ∃ row, s.pendingStore[calloutId]? = some row ∧ row.executionId = some executionId := by
  obtain ⟨⟨key, row⟩, hfound, rfl⟩ := Option.map_eq_some_iff.mp h
  have hrow := Std.ExtTreeMap.mem_toList_iff_getElem?_eq_some.mp (List.mem_of_find?_eq_some hfound)
  have hmatches := List.find?_some hfound
  simp only [Bool.and_eq_true, decide_eq_true_eq] at hmatches
  exact ⟨row, hrow, hmatches.2⟩

theorem insertPending_error {s : Store} (h : insertPending H claim write s = .error stop s') :
    s' = s := by
  simp only [insertPending, Commit.fail] at h
  by_cases hsubmitted : H.isTimestampMillis write.submittedAt = true
  · by_cases hack : write.ackReceivedAt.all H.isTimestampMillis = true
    · by_cases htimeout : write.timeoutAt.all H.isTimestampMillis = true
      · simp [hsubmitted, hack, htimeout] at h
      · simp [hsubmitted, hack, htimeout] at h
        exact h.2.symm
    · simp [hsubmitted, hack] at h
      exact h.2.symm
  · simp [hsubmitted] at h
    exact h.2.symm

def HasRow (calloutId : Uuid) (row : PendingInvocation) (s : Store) : Prop :=
  s.pendingStore[calloutId]? = some row

theorem HasRow.insertPendingRow {s : Store} (h : HasRow calloutId row s)
    (row' : PendingInvocation) : HasRow calloutId row (insertPendingRow row' s) := by
  unfold Store.insertPendingRow
  split
  · exact h
  · rename_i hnew
    have hother : row'.calloutId ≠ calloutId := by
      rintro rfl
      refine hnew ?_
      have hmem : row'.calloutId ∈ s.pendingStore := by
        rw [Std.ExtTreeMap.mem_iff_isSome_getElem?, h]
        rfl
      simp [hmem]
    unfold HasRow at h ⊢
    simpa [getElem?_insert, hother] using h

theorem insertPending_keeps_row (calloutId : Uuid) (row : PendingInvocation)
    (write : PendingInvocationWrite) :
    Preserves (HasRow calloutId row) (insertPending H claim write) := by
  apply keeps_of_results
  · intro s a s' h hrow
    obtain ⟨-, rfl⟩ := (insertPending_takes H claim write s s').mp h
    exact hrow.insertPendingRow _
  · intro s stop s' h hrow
    obtain rfl := insertPending_error H claim h
    exact hrow

theorem takePending_keeps_row
    (hother : row.executionId ≠ some executionId) :
    Preserves (HasRow calloutId row) (takePending claim executionId) := by
  intro s hrow
  simp only [leaves, takePending, get_bind]
  cases hcallout : s.calloutOf claim.tenantId executionId with
  | none => exact hrow
  | some found =>
    obtain ⟨row', hrow', hexecution⟩ := calloutOf_eq_some hcallout
    have hne : found ≠ calloutId := by
      rintro rfl
      obtain rfl := Option.mem_unique hrow' hrow
      exact hother hexecution
    unfold HasRow at hrow ⊢
    simpa [getElem?_erase, hne] using hrow

theorem takePending_keeps_absence (calloutId executionId : Uuid) :
    Preserves (fun s => s.pendingStore[calloutId]? = none) (takePending claim executionId) := by
  intro s habsent
  simp only [leaves, takePending, get_bind]
  cases s.calloutOf claim.tenantId executionId with
  | none => exact habsent
  | some found =>
    simp only [set_apply, getElem?_erase, habsent, ite_self]

end PendingRows

section Atomic

variable (H : StoreHost) (now : Timestamp) (activationId : Uuid) (claim : Claim) (t : Transition)
  (s : Store)

/-- A commit that ends without committing leaves the store as it was. -/
def Atomic : Prop :=
  ∀ stop s', commitTransition H now activationId claim t s = .error stop s' → s' = s

/-- The commit gets as far as its first write. -/
def Begins : Prop :=
  (∀ executionId ∈ t.pendingTake, HasExecution claim executionId s) ∧
    match t.pendingInvocations with
    | write :: _ => ValidDates H write
    | [] => t.pendingTake = [] → s.Admits claim t

/-- The first write shows: the first pending invocation gets a row that is not taken again, and the
instance row is not yet the one written and does not go to a child. -/
def Visible : Prop :=
  match t.pendingInvocations with
  | write :: _ => insertPendingRow (pendingRow claim write) s ≠ s ∧
      ∀ executionId ∈ t.pendingTake, write.executionId ≠ some executionId
  | [] => t.pendingTake = [] →
      s.instances[claim.instanceId]? ≠ some (committedInstance H claim t s) ∧
        ∀ child ∈ t.childStarts, child.inst.instanceId ≠ claim.instanceId

/-- What remains of a commit when the pending invocations are written. -/
def checkAndWrite : Commit ℕ := do
  runCheck claim t
  writeTransition H now activationId claim t

theorem checkAndWrite_fixes_pending :
    Fixes pendingStore (checkAndWrite H now activationId claim t) :=
  Fixes.bind ((runCheck_keeps claim t).mono fun _ _ h => congrArg pendingStore h) fun _ =>
    writeTransition_fixes_pending H now activationId claim t

/-- What remains of a commit when the executions to take are known. -/
def writePending : Commit ℕ := do
  t.pendingInvocations.forM (insertPending H claim)
  t.pendingTake.forM (takePending claim)
  checkAndWrite H now activationId claim t

theorem commitTransition_eq : commitTransition H now activationId claim t =
    (t.pendingTake.forM (lookupPending claim) >>= fun _ =>
      writePending H now activationId claim t) := rfl

theorem writePending_cons {rest : List PendingInvocationWrite}
    (h : t.pendingInvocations = write :: rest) : writePending H now activationId claim t =
      (insertPending H claim write >>= fun _ => rest.forM (insertPending H claim) >>= fun _ =>
        t.pendingTake.forM (takePending claim) >>= fun _ =>
          checkAndWrite H now activationId claim t) := by
  unfold writePending
  rw [h, forM_cons, bind_assoc]

theorem writePending_nil (h : t.pendingInvocations = []) : writePending H now activationId claim t =
    (t.pendingTake.forM (takePending claim) >>= fun _ =>
      checkAndWrite H now activationId claim t) := by
  unfold writePending
  rw [h, forM_nil, pure_bind]

theorem writePending_none (h : t.pendingInvocations = []) (htake : t.pendingTake = []) :
    writePending H now activationId claim t = checkAndWrite H now activationId claim t := by
  rw [writePending_nil H now activationId claim t h, htake, forM_nil, pure_bind]

theorem unchanged_of_not_begins (hbegins : ¬ Begins H claim t s)
    (h : commitTransition H now activationId claim t s = .error stop s') : s' = s := by
  have hlookups : Abort.Keeps (fun s s' => s' = s) (t.pendingTake.forM (lookupPending claim)) :=
    Abort.Keeps.forM (R := fun s s' => s' = s) (fun _ => rfl) (fun h h' => h'.trans h)
      fun executionId _ => lookupPending_keeps claim executionId
  rw [commitTransition_eq] at h
  rcases bind_eq_error.mp h with hlookup | ⟨_, s₁, hlookup, hrest⟩
  · exact hlookups.error hlookup
  obtain ⟨hknown, hs₁⟩ := (lookups_takes claim t.pendingTake s s₁).mp hlookup
  obtain rfl : s = s₁ := hs₁.symm
  cases hpending : t.pendingInvocations with
  | cons write rest =>
    have hdates : ¬ ValidDates H write := fun hdates => hbegins ⟨hknown, by simpa [hpending]⟩
    obtain ⟨stop', s₂, hinsert⟩ := (insertPending_takes H claim write).stops (s := s) hdates
    rw [writePending_cons H now activationId claim t hpending, bind_error hinsert] at hrest
    obtain ⟨-, rfl⟩ := EStateM.Result.error.inj hrest
    exact insertPending_error H claim hinsert
  | nil =>
    have hrefused : t.pendingTake = [] ∧ ¬ s.Admits claim t := by
      by_contra hno
      push Not at hno
      exact hbegins ⟨hknown, by simpa [hpending] using hno⟩
    rw [writePending_none H now activationId claim t hpending hrefused.1] at hrest
    rcases bind_eq_error.mp hrest with hcheck | ⟨_, s₂, hcheck, -⟩
    · exact (runCheck_keeps claim t).error hcheck
    · exact absurd ((runCheck_takes claim t s s₂).mp hcheck).1 hrefused.2

theorem preserves_row
    (hother : ∀ executionId ∈ t.pendingTake, row.executionId ≠ some executionId)
    (writes : List PendingInvocationWrite) :
    Preserves (HasRow calloutId row)
      (writes.forM (insertPending H claim) >>= fun _ =>
        t.pendingTake.forM (takePending claim) >>= fun _ =>
          checkAndWrite H now activationId claim t) := by
  apply Preserves.bind
  · exact Preserves.forM fun write _ => insertPending_keeps_row H claim calloutId row write
  intro _
  apply Preserves.bind
  · exact Preserves.forM fun executionId hmem =>
      takePending_keeps_row claim (hother executionId hmem)
  intro _
  exact (checkAndWrite_fixes_pending H now activationId claim t).preserves
    fun rows => rows[calloutId]? = some row

theorem preserves_absence (calloutId : Uuid) (executionIds : List Uuid) :
    Preserves (fun s => s.pendingStore[calloutId]? = none)
      (executionIds.forM (takePending claim) >>= fun _ =>
        checkAndWrite H now activationId claim t) := by
  apply Preserves.bind
  · exact Preserves.forM fun executionId _ => takePending_keeps_absence claim calloutId executionId
  intro _
  exact (checkAndWrite_fixes_pending H now activationId claim t).preserves
    fun rows => rows[calloutId]? = none

theorem hasRow_insertPendingRow (h : insertPendingRow row s ≠ s) :
    HasRow row.calloutId row (insertPendingRow row s) ∧ s.pendingStore[row.calloutId]? = none := by
  unfold insertPendingRow at h ⊢
  split at h
  · exact absurd rfl h
  · rename_i hnew
    rw [if_neg hnew]
    simp only [Bool.or_eq_true, decide_eq_true_eq, not_or] at hnew
    refine ⟨?_, Std.ExtTreeMap.getElem?_eq_none hnew.1⟩
    unfold HasRow
    simp

theorem changed_of_begins (hvisible : Visible H claim t s) (hbegins : Begins H claim t s)
    (h : commitTransition H now activationId claim t s = .error stop s') : s' ≠ s := by
  rintro rfl
  obtain ⟨hknown, hfirst⟩ := hbegins
  have hlookup := (lookups_takes claim t.pendingTake s' s').mpr ⟨hknown, rfl⟩
  rw [commitTransition_eq, bind_ok hlookup] at h
  cases hpending : t.pendingInvocations with
  | cons write rest =>
    simp only [hpending] at hfirst
    simp only [Visible, hpending] at hvisible
    have hinsert := (insertPending_takes H claim write s' _).mpr ⟨hfirst, rfl⟩
    obtain ⟨hrow, habsent⟩ := hasRow_insertPendingRow s' hvisible.1
    rw [writePending_cons H now activationId claim t hpending, bind_ok hinsert] at h
    have hstays := (preserves_row H now activationId claim t hvisible.2 rest).error h hrow
    rw [HasRow, habsent] at hstays
    cases hstays
  | nil =>
    simp only [hpending] at hfirst
    simp only [Visible, hpending] at hvisible
    cases htake : t.pendingTake with
    | cons executionId executionIds =>
      have hexecution : HasExecution claim executionId s' := hknown _ (by simp [htake])
      have htaken := (takePending_takes claim executionId s' _).mpr ⟨hexecution, rfl⟩
      obtain ⟨calloutId, hcallout⟩ := Option.isSome_iff_exists.mp hexecution
      obtain ⟨row, hrow, -⟩ := calloutOf_eq_some hcallout
      have habsent : (dropExecution claim executionId s').pendingStore[calloutId]? = none := by
        simp [dropExecution, hcallout]
      rw [writePending_nil H now activationId claim t hpending, htake, forM_cons, bind_assoc,
        bind_ok htaken] at h
      have hstays : s'.pendingStore[calloutId]? = none :=
        (preserves_absence H now activationId claim t calloutId executionIds).error h habsent
      rw [hrow] at hstays
      cases hstays
    | nil =>
      obtain ⟨hrow, hchildren⟩ := hvisible htake
      have hcheck := (runCheck_takes claim t s' s').mpr ⟨hfirst htake, rfl⟩
      rw [writePending_none H now activationId claim t hpending htake, checkAndWrite,
        bind_ok hcheck] at h
      have hwritten := writeTransition_row H now activationId claim t hchildren s'
      rw [leaves_error h] at hwritten
      exact hrow hwritten

theorem not_commits_of_error (h : commitTransition H now activationId claim t s = .error stop s') :
    ¬ Commits H claim t s := by
  intro hcommits
  have hok := (commitTransition_eq_ok H now activationId claim t s).mpr ⟨hcommits, rfl, rfl⟩
  cases h.symm.trans hok

/-- Exactly the commits that, once they have begun to write, meet every condition still to come are
atomic, where the first write shows. -/
theorem atomic_iff_commits :
    ((Begins H claim t s → Commits H claim t s) → Atomic H now activationId claim t s) ∧
      (Visible H claim t s → Atomic H now activationId claim t s → Begins H claim t s →
        Commits H claim t s) := by
  refine ⟨?_, ?_⟩
  · intro hcondition stop s' h
    by_cases hbegins : Begins H claim t s
    · exact absurd (hcondition hbegins) (not_commits_of_error H now activationId claim t s h)
    · exact unchanged_of_not_begins H now activationId claim t s hbegins h
  · intro hvisible hatomic hbegins
    by_contra hrefused
    cases h : commitTransition H now activationId claim t s with
    | ok revision s' =>
      exact hrefused ((commitTransition_eq_ok H now activationId claim t s).mp h).1
    | error stop s' =>
      exact changed_of_begins H now activationId claim t s hvisible hbegins h (hatomic stop s' h)

end Atomic

end BpmnLite.Store

namespace BpmnLite.Reference

open Store

/-- A host whose digests number revisions and whose calendar has every date. -/
def storeHost : StoreHost where
  toHost := host
  stateHash envelope := .ok envelope.revision
  integrityHash _ := 0
  isTimestampMillis _ := true

def heldClaim : Claim := ⟨"", 0, 0, 1, "token"⟩

def parked : Fiber := { fiberId := 1, pc := 0, wait := .job (.text "job") }

def resumed : Fiber := { fiberId := 1, pc := 1 }

/-- An instance with a fibre that waits for a job which is no longer in flight. -/
def parkedStore : Store where
  instances := (∅ : BTreeMap Uuid ProcessInstance).insert 0 inst
  fibers := (∅ : BTreeMap (Uuid × Uuid) Fiber).insert (0, 1) parked
  revisions := (∅ : BTreeMap Uuid ℕ).insert 0 0
  transitionLeases := (∅ : BTreeMap Uuid TransitionLease).insert 0 ⟨"engine", 0, 1, "token"⟩

/-- A worker acknowledges the job and the fibre goes on. -/
def acknowledged : Transition where
  nextSnapshot := inst
  fibersUpsert := [resumed]
  jobMutations := [.ackClaimed (.text "job") "worker" "token"]

def stopped : EStateM.Result CommitStop Store ℕ → Option (CommitStop × Store)
  | .ok _ _ => none
  | .error stop s => some (stop, s)

theorem eq_error_of_stopped {r : EStateM.Result CommitStop Store ℕ} {p : CommitStop × Store → Bool}
    (h : (stopped r).any p) : ∃ stop s, r = .error stop s ∧ p (stop, s) := by
  cases r with
  | ok revision s => simp [stopped] at h
  | error stop s => exact ⟨stop, s, rfl, h⟩

/-- The acknowledgement is refused, and the fibre has gone on all the same. -/
theorem refused_ack_moves_fiber :
    ∃ stop s', commitTransition storeHost 0 0 heldClaim acknowledged parkedStore = .error stop s' ∧
      stop = .failed .conflict ∧ parkedStore.fibers[((0, 1) : Uuid × Uuid)]? = some parked ∧
      s'.fibers[((0, 1) : Uuid × Uuid)]? = some resumed := by
  have hstopped : (stopped
      (commitTransition storeHost 0 0 heldClaim acknowledged parkedStore)).any (fun result =>
        result.1 = .failed .conflict ∧ result.2.fibers[((0, 1) : Uuid × Uuid)]? = some resumed) := by
    decide +kernel
  obtain ⟨stop, s', hcommit, hresult⟩ := eq_error_of_stopped hstopped
  simp only [decide_eq_true_eq] at hresult
  exact ⟨stop, s', hcommit, hresult.1, by decide +kernel, hresult.2⟩

def moved : Transition := { acknowledged with jobMutations := [] }

/-- Without the acknowledgement the commit begins and meets every condition. -/
theorem moved_atomic : Begins storeHost heldClaim moved parkedStore ∧
    Commits storeHost heldClaim moved parkedStore ∧
    Atomic storeHost 0 0 heldClaim moved parkedStore := by
  have hcommits : Commits storeHost heldClaim moved parkedStore := by
    have hok : (stopped (commitTransition storeHost 0 0 heldClaim moved parkedStore)).isNone := by
      decide +kernel
    cases h : commitTransition storeHost 0 0 heldClaim moved parkedStore with
    | ok => exact ((commitTransition_eq_ok storeHost 0 0 heldClaim moved parkedStore).mp h).1
    | error => simp [stopped, h] at hok
  exact ⟨⟨hcommits.known, fun _ => hcommits.admits⟩, hcommits,
    (atomic_iff_commits storeHost 0 0 heldClaim moved parkedStore).1 fun _ => hcommits⟩

end BpmnLite.Reference
