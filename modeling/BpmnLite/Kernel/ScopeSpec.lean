import BpmnLite.Kernel.TickSpec

/-!
# What the scope words rest on

Arming an error route, reconciling members, rolling a scope back and forking: what each leaves in
the mutations or in the transition.
-/

namespace BpmnLite

open Maps

variable {r : RecordId} {changes changes' : Changes} {restored : RollbackSnapshot}

section
variable {H : Host} {workflow : ExecutableWorkflow} {snapshot : Snapshot}
  {context : DeterministicContext} {ts ts' : TickState} {t : Transition}

theorem armErrorRoute_eq_ok (T : ConcurrencyTable) {route : Option String × Addr}
    {ms ms' : List ConcurrencyMutation} (h : armErrorRoute r route ms = .ok ms')
    (hremove : ∀ y, .remove y ∉ ms) :
    (∀ y, .remove y ∉ ms') ∧
    ∃ record, (ConcurrencyTable.applyMutations T ms.reverse)[r]? = some record ∧
      ∀ y, (ConcurrencyTable.applyMutations T ms'.reverse)[y]? =
        if r = y then some { record with errorRoutes := insertErrorRoute route record.errorRoutes }
        else (ConcurrencyTable.applyMutations T ms.reverse)[y]? := by
  have hcons : ∀ (m : ConcurrencyMutation) (ms : List ConcurrencyMutation),
      ConcurrencyTable.applyMutations T (m :: ms).reverse =
        ConcurrencyTable.applyMutation (ConcurrencyTable.applyMutations T ms.reverse) m := by
    intro m ms
    rw [List.reverse_cons, applyMutations_append]
    rfl
  induction ms generalizing ms' with
  | nil => simp [armErrorRoute] at h
  | cons m ms ih =>
    have hremove' : ∀ y, .remove y ∉ ms := fun y hy => hremove y (List.mem_cons_of_mem _ hy)
    cases m with
    | insert new =>
      simp only [armErrorRoute] at h
      by_cases hid : new.id = r
      · rw [if_pos hid] at h
        split at h
        · simp only [Except.ok.injEq] at h
          subst h
          refine ⟨by simpa using hremove', new, ?_, fun y => ?_⟩
          · rw [hcons, getElem?_applyInsert, if_pos hid]
          · rw [hcons, getElem?_applyInsert, hcons, getElem?_applyInsert]
            by_cases hy : r = y
            · simp [hid, hy]
            · simp [hid, hy]
        · simp at h
      · rw [if_neg hid] at h
        obtain ⟨earlier, he, h⟩ := bind_eq_ok.mp h
        rw [pure_eq_ok] at h
        subst h
        obtain ⟨hno, record, hrecord, hall⟩ := ih he hremove'
        refine ⟨by simpa using hno, record, ?_, fun y => ?_⟩
        · rw [hcons, getElem?_applyInsert, if_neg hid, hrecord]
        · rw [hcons, getElem?_applyInsert, hcons, getElem?_applyInsert, hall]
          by_cases hy : r = y
          · subst hy
            simp [hid]
          · simp [hy]
    | retire id =>
      obtain ⟨earlier, he, h⟩ := bind_eq_ok.mp h
      rw [pure_eq_ok] at h
      subst h
      obtain ⟨hno, record, hrecord, hall⟩ := ih he hremove'
      have hrec : (ConcurrencyTable.applyMutations T (.retire id :: ms).reverse)[r]? =
          some (if id = r then record.asRetired else record) := by
        rw [hcons, getElem?_applyRetire, hrecord]
        by_cases hr : id = r <;> simp [hr]
      refine ⟨by simpa using hno, _, hrec, fun y => ?_⟩
      rw [hcons, getElem?_applyRetire, hcons, getElem?_applyRetire, hall]
      by_cases hy : r = y
      · subst hy
        by_cases hr : id = r <;> simp [hr, ConcurrencyRecord.asRetired]
      · simp [hy]
    | remove id => exact absurd List.mem_cons_self (hremove id)

theorem reconcile_mutations_congr {ops : List (RecordId × MembershipOp)} {exclude : List RecordId}
    (h : changes.concurrencyMutations = changes'.concurrencyMutations) :
    (v2ReconcileAncestorMembership snapshot ops exclude changes).concurrencyMutations =
      (v2ReconcileAncestorMembership snapshot ops exclude changes').concurrencyMutations := by
  have htouch : touchRecord snapshot exclude changes = touchRecord snapshot exclude changes' := by
    funext touched op
    simp only [touchRecord, fetchRecordInTransition, h]
  simp only [v2ReconcileAncestorMembership, Changes.mutateAll, h, htouch]

theorem rollbackSnapshotOf_eq_ok {record : ConcurrencyRecord}
    (h : rollbackSnapshotOf H record = .ok restored) : record.rollbackDomainPayload.isSome := by
  unfold rollbackSnapshotOf at h
  split at h
  · simp_all
  · simp at h

theorem v2RollbackGuardScope_eq_ok {caller : RollbackCaller}
    (h : v2RollbackGuardScope H snapshot r caller changes = .ok (restored, changes')) :
    ∃ record, fetchRecordInTransition snapshot changes r = some record ∧
      record.rollbackDomainPayload.isSome ∧
      changes' = (v2ReconcileAncestorMembership snapshot
          (removalOps snapshot (caller.resolve (v2CancelGuardScope snapshot r).2).2)
          (v2CancelGuardScope snapshot r).1
          ((changes.mutateAll ((v2CancelGuardScope snapshot r).1.map .retire)).delete
            (caller.resolve (v2CancelGuardScope snapshot r).2).2)).event
        (.v2ScopeCancelled r (caller.resolve (v2CancelGuardScope snapshot r).2).1
          (v2CancelGuardScope snapshot r).1
          (caller.resolve (v2CancelGuardScope snapshot r).2).2) := by
  unfold v2RollbackGuardScope at h
  split at h
  · simp at h
  · rename_i record hrecord
    obtain ⟨restored', hrestored, h⟩ := bind_eq_ok.mp h
    simp only [pure_eq_ok, Prod.mk.injEq] at h
    exact ⟨record, hrecord, rollbackSnapshotOf_eq_ok hrestored, h.2.symm⟩

/-- What the transition of an instruction that ends the fibre keeps. -/
structure Ended (ts : TickState) (upserts : List Fiber) (mutations : List ConcurrencyMutation)
    (t : Transition) : Prop where
  upserts : t.fibersUpsert = ts.changes.fibersUpsert ++ upserts
  deletes : t.fibersDelete = ts.changes.fibersDelete ++ [ts.fiber.fiberId]
  mutations : t.concurrencyMutations = mutations
  timers : raceTimers t.effects = raceTimers ts.changes.effects
  joins : joinLog t.events = joinLog ts.changes.events
  instanceId : t.nextSnapshot.instanceId = ts.inst.instanceId
  override : t.stateOverride = none

/-- The ids of a fork's children, in the order of the targets. -/
def forkIds (H : Host) (context : DeterministicContext) (ordinal : ℕ) (targets : List Addr) :
    List Uuid :=
  (List.range targets.length).map (fun n => context.derivedId H (ordinal + n))

theorem forkChildren_eq (controlStack : List Handle) (ordinal : ℕ) (targets : List Addr) :
    forkChildren H context controlStack ordinal targets =
      ((forkIds H context ordinal targets).zip targets).map
        (fun child => { Fiber.new child.1 child.2 with controlStack }) := by
  induction targets generalizing ordinal with
  | nil => rfl
  | cons target rest ih =>
    simp only [forkChildren, ih, forkIds, List.length_cons, List.range_succ_eq_map, List.map_cons,
      List.map_map, List.zip_cons_cons, Nat.add_zero, Function.comp_def]
    simp only [Nat.add_assoc, Nat.add_comm 1, Nat.succ_eq_add_one]

def forkRecord (recordId : RecordId) (ids : List Uuid) : ConcurrencyRecord :=
  { ConcurrencyRecord.new recordId .barrier with
    counters := ⟨ids.length, ids.length⟩
    members := ids.foldl (fun members id => members.insert id) ∅ }

theorem fork_eq_done {targets : List Addr} (h : fork H snapshot context ts targets = .done t) :
    let r := context.derivedId H ts.ordinal
    let ids := forkIds H context (ts.ordinal + 1) targets
    Ended ts ((ids.zip targets).map (fun child =>
        { Fiber.new child.1 child.2 with controlStack := ts.fiber.controlStack ++ [r] }))
      (v2ReconcileAncestorMembership snapshot
        (ts.fiber.controlStack.flatMap (fun ancestor =>
          (ancestor, .remove ts.fiber.fiberId) :: ids.map (fun id => (ancestor, .add id)))) []
        (ts.changes.mutate (.insert (forkRecord r ids)))).concurrencyMutations t ∧
      t.terminalCleanup = ts.changes.cleanup.getD {} ∧ t.nextSnapshot.state = ts.inst.state := by
  have hfst : ((forkIds H context (ts.ordinal + 1) targets).zip targets).map
      (fun child => child.1) = forkIds H context (ts.ordinal + 1) targets :=
    List.map_fst_zip (by simp [forkIds])
  have hlength : (forkIds H context (ts.ordinal + 1) targets).length = targets.length := by
    simp [forkIds]
  simp only [fork, TickOutcome.done.injEq, forkChildren_eq, List.map_map, Function.comp_def,
    Fiber.new, hfst] at h
  subst h
  refine ⟨?_, rfl, rfl⟩
  constructor
  · rfl
  · rfl
  · refine reconcile_mutations_congr ?_
    simp [Changes.mutate, forkRecord, hlength]
  · rfl
  · simp [Changes.finish, Changes.delete, v2ReconcileAncestorMembership, Changes.mutateAll,
      Changes.mutate, joinLog]
  · rfl
  · rfl

end

end BpmnLite
