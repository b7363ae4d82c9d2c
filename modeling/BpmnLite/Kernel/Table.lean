import BpmnLite.Kernel.Apply
import BpmnLite.Maps

/-!
# Records seen through the mutations of a transition

How the lookups of the concurrency table change under a list of mutations, what
`fetchRecordInTransition` finds, and what reconciling the membership of records does to them.
-/

namespace BpmnLite

open Maps ConcurrencyTable

variable {y : RecordId} {ms : List ConcurrencyMutation} {record : ConcurrencyRecord}
  {ops : List (RecordId × MembershipOp)}

def ConcurrencyRecord.asRetired (record : ConcurrencyRecord) : ConcurrencyRecord :=
  { record with state := .retired }

@[simp] theorem ConcurrencyRecord.asRetired_state (record : ConcurrencyRecord) :
    record.asRetired.state = .retired := rfl

@[simp] theorem ConcurrencyRecord.asRetired_asRetired (record : ConcurrencyRecord) :
    record.asRetired.asRetired = record.asRetired := rfl

section Mutations

variable (T : ConcurrencyTable)

theorem applyMutations_append (ms ms' : List ConcurrencyMutation) :
    applyMutations T (ms ++ ms') =
      applyMutations (applyMutations T ms) ms' :=
  List.foldl_append

theorem getElem?_retire (id y : RecordId) :
    (retire T id)[y]? =
      if id = y then T[y]?.map ConcurrencyRecord.asRetired else T[y]? := by
  unfold retire
  cases h : T[id]? with
  | none =>
    by_cases hy : id = y
    · simp [← hy, h]
    · simp [hy]
  | some record =>
    by_cases hy : id = y
    · simp [← hy, h, ConcurrencyRecord.asRetired]
    · simp [getElem?_insert, hy]

theorem getElem?_applyInsert (record : ConcurrencyRecord) (y : RecordId) :
    (applyMutation T (.insert record))[y]? =
      if record.id = y then some record else T[y]? :=
  getElem?_insert T record.id y record

theorem getElem?_applyRetire (id y : RecordId) :
    (applyMutation T (.retire id))[y]? =
      if id = y then T[y]?.map ConcurrencyRecord.asRetired else T[y]? :=
  getElem?_retire T id y

theorem getElem?_applyRemove (id y : RecordId) :
    (applyMutation T (.remove id))[y]? = if id = y then none else T[y]? :=
  getElem?_erase T id y

theorem keyed_applyMutations {T : ConcurrencyTable} (hT : Keyed ConcurrencyRecord.id T)
    (ms : List ConcurrencyMutation) :
    Keyed ConcurrencyRecord.id (applyMutations T ms) := by
  induction ms generalizing T with
  | nil => exact hT
  | cons m ms ih =>
    refine ih ?_
    cases m with
    | insert record => exact hT.insert rfl
    | remove id => exact hT.erase id
    | retire id =>
      intro y record h
      rw [getElem?_applyRetire] at h
      by_cases hy : id = y
      · simp only [hy, if_true, Option.map_eq_some_iff] at h
        obtain ⟨before, hb, rfl⟩ := h
        exact hT y before hb
      · exact hT y record (by simpa [hy] using h)

theorem getElem?_retireAll (ids : List RecordId) (y : RecordId) :
    (applyMutations T (ids.map .retire))[y]? =
      if y ∈ ids then T[y]?.map ConcurrencyRecord.asRetired else T[y]? := by
  induction ids generalizing T with
  | nil => simp [applyMutations]
  | cons id ids ih =>
    have hstep : applyMutations T ((id :: ids).map .retire) =
        applyMutations (retire T id) (ids.map .retire) := rfl
    rw [hstep, ih, getElem?_retire]
    by_cases hy : id = y
    · subst hy
      by_cases hmem : id ∈ ids <;> simp [hmem, Function.comp_def]
    · simp [hy, Ne.symm hy]

theorem fetchRecord_eq_or (y : RecordId) (ms : List ConcurrencyMutation) :
    fetchRecord T y ms = (applyMutations T ms.reverse)[y]? ∨ fetchRecord T y ms = none ∧
      ∀ record ∈ (applyMutations T ms.reverse)[y]?, record.state ≠ .armed := by
  induction ms with
  | nil => exact .inl rfl
  | cons m ms ih =>
    rw [List.reverse_cons, applyMutations_append]
    change _ = (applyMutation _ m)[y]? ∨ _ ∧ ∀ record ∈ (applyMutation _ m)[y]?, _
    cases m with
    | insert new =>
      rw [getElem?_applyInsert, fetchRecord]
      by_cases hy : new.id = y
      · simp [hy]
      · simpa [hy] using ih
    | retire id =>
      rw [getElem?_applyRetire, fetchRecord]
      by_cases hy : id = y
      · simp [hy]
      · simpa [hy] using ih
    | remove id =>
      rw [getElem?_applyRemove, fetchRecord]
      by_cases hy : id = y
      · simp [hy]
      · simpa [hy] using ih

theorem getElem?_of_fetchRecord (h : fetchRecord T y ms = some record) :
    (applyMutations T ms.reverse)[y]? = some record := by
  rcases fetchRecord_eq_or T y ms with heq | ⟨hnone, -⟩
  · exact heq.symm.trans h
  · simp [hnone] at h

theorem fetchRecord_of_armed (h : (applyMutations T ms.reverse)[y]? = some record)
    (harmed : record.state = .armed) : fetchRecord T y ms = some record := by
  rcases fetchRecord_eq_or T y ms with heq | ⟨-, hretired⟩
  · exact heq.trans h
  · exact absurd harmed (hretired record h)

end Mutations

section Reconcile

def applyOps (ops : List (RecordId × MembershipOp)) (y : RecordId) (record : ConcurrencyRecord) :
    ConcurrencyRecord :=
  (ops.filter (fun op => op.1 = y)).foldl (fun record op => op.2.apply record) record

theorem applyOps_concat (ops : List (RecordId × MembershipOp)) (op : RecordId × MembershipOp)
    (y : RecordId) (record : ConcurrencyRecord) :
    applyOps (ops ++ [op]) y record =
      if op.1 = y then op.2.apply (applyOps ops y record) else applyOps ops y record := by
  by_cases h : op.1 = y <;> simp [applyOps, h]

theorem applyOps_of_forall_ne (h : ¬ ∃ op ∈ ops, op.1 = y) (record : ConcurrencyRecord) :
    applyOps ops y record = record := by
  have hnil : ops.filter (fun op => op.1 = y) = [] :=
    List.filter_eq_nil_iff.mpr (fun op hop he => h ⟨op, hop, by simpa using he⟩)
  simp [applyOps, hnil]

theorem MembershipOp.apply_eq (op : MembershipOp) (record : ConcurrencyRecord) :
    op.apply record = { record with members := (op.apply record).members } := by
  cases op <;> rfl

theorem applyOps_eq (ops : List (RecordId × MembershipOp)) (y : RecordId)
    (record : ConcurrencyRecord) :
    applyOps ops y record = { record with members := (applyOps ops y record).members } := by
  induction ops using List.reverseRecOn with
  | nil => rfl
  | append_singleton ops op ih =>
    rw [applyOps_concat]
    by_cases h : op.1 = y
    · rw [if_pos h, MembershipOp.apply_eq, ih]
    · rw [if_neg h, ← ih]

theorem applyOps_append (ops ops' : List (RecordId × MembershipOp)) (y : RecordId)
    (record : ConcurrencyRecord) :
    applyOps (ops ++ ops') y record = applyOps ops' y (applyOps ops y record) := by
  simp [applyOps]

theorem mem_apply_add (record : ConcurrencyRecord) (a m : Uuid) :
    m ∈ (MembershipOp.apply record (.add a)).members ↔ m ∈ record.members ∨ m = a := by
  simp only [MembershipOp.apply, Std.ExtTreeSet.mem_insert, Nat.compare_eq_eq, eq_comm (a := a)]
  tauto

theorem mem_apply_remove (record : ConcurrencyRecord) (a m : Uuid) :
    m ∈ (MembershipOp.apply record (.remove a)).members ↔ m ∈ record.members ∧ m ≠ a := by
  simp only [MembershipOp.apply, Std.ExtTreeSet.mem_erase, ne_eq, Nat.compare_eq_eq,
    eq_comm (a := a)]
  tauto

/-- Operations of one kind on the members of a record, put together into one. -/
theorem mem_applyOps_of {make : Uuid → MembershipOp} {C : Prop → Prop → Prop} {m : Uuid}
    (hmake : ∀ a, make m = make a → m = a) (hnone : ∀ p, C p False ↔ p)
    (hor : ∀ p q q', C (C p q) q' ↔ C p (q ∨ q'))
    (hstep : ∀ record a, m ∈ ((make a).apply record).members ↔ C (m ∈ record.members) (m = a))
    (h : ∀ op ∈ ops, ∃ a, op.2 = make a) (y : RecordId) (record : ConcurrencyRecord) :
    m ∈ (applyOps ops y record).members ↔ C (m ∈ record.members) ((y, make m) ∈ ops) := by
  induction ops using List.reverseRecOn with
  | nil => simp [applyOps, hnone]
  | append_singleton ops op ih =>
    have ih := ih (fun o ho => h o (List.mem_append_left _ ho))
    obtain ⟨z, kind⟩ := op
    obtain ⟨a, rfl⟩ : ∃ a, kind = make a := h (z, kind) (by simp)
    have hlast : make m = make a ↔ m = a := ⟨hmake a, fun h => h ▸ rfl⟩
    rw [applyOps_concat]
    by_cases hz : z = y
    · rw [if_pos hz, hstep, ih, hor]
      simp [hz, hlast]
    · rw [if_neg hz, ih]
      simp [Ne.symm hz]

theorem mem_applyOps_removes (h : ∀ op ∈ ops, ∃ a, op.2 = .remove a) (y : RecordId)
    (record : ConcurrencyRecord) (m : Uuid) :
    m ∈ (applyOps ops y record).members ↔ m ∈ record.members ∧ (y, .remove m) ∉ ops :=
  mem_applyOps_of (C := fun p q => p ∧ ¬ q) (by simp) (by simp) (by tauto)
    (fun record a => mem_apply_remove record a m) h y record

theorem mem_applyOps_adds (h : ∀ op ∈ ops, ∃ a, op.2 = .add a) (y : RecordId)
    (record : ConcurrencyRecord) (m : Uuid) :
    m ∈ (applyOps ops y record).members ↔ m ∈ record.members ∨ (y, .add m) ∈ ops :=
  mem_applyOps_of (by simp) (by simp) (by tauto) (fun record a => mem_apply_add record a m) h y record

theorem mem_of_mem_applyOps {m : Uuid} (h : m ∈ (applyOps ops y record).members) :
    m ∈ record.members ∨ (y, .add m) ∈ ops := by
  induction ops using List.reverseRecOn with
  | nil => exact Or.inl h
  | append_singleton ops op ih =>
    obtain ⟨z, kind⟩ := op
    rw [applyOps_concat] at h
    have hold : m ∈ (applyOps ops y record).members →
        m ∈ record.members ∨ (y, .add m) ∈ ops ++ [(z, kind)] := fun h =>
      (ih h).imp_right (List.mem_append_left _)
    by_cases hz : z = y
    · subst hz
      rw [if_pos rfl] at h
      cases kind with
      | add a =>
        rcases (mem_apply_add _ a m).mp h with h | rfl
        · exact hold h
        · exact Or.inr (by simp)
      | remove a => exact hold ((mem_apply_remove _ a m).mp h).1
    · rw [if_neg hz] at h
      exact hold h

theorem mem_applyOps_replace {i : Uuid} {ids : List Uuid} (hi : i ∉ ids) (stack : List RecordId)
    (y : RecordId) (record : ConcurrencyRecord) (m : Uuid) :
    m ∈ (applyOps (stack.flatMap (fun a => (a, .remove i) :: ids.map (fun id => (a, .add id))))
      y record).members ↔
      if y ∈ stack then (m ∈ record.members ∧ m ≠ i) ∨ m ∈ ids else m ∈ record.members := by
  induction stack using List.reverseRecOn with
  | nil => simp [applyOps]
  | append_singleton stack a ih =>
    rw [List.flatMap_append, applyOps_append, List.flatMap_singleton]
    have hsplit : ∀ record, applyOps ((a, .remove i) :: ids.map (fun id => (a, .add id))) y record =
        applyOps (ids.map (fun id => (a, .add id))) y (applyOps [(a, .remove i)] y record) :=
      fun record => applyOps_append [(a, .remove i)] _ y record
    rw [hsplit, mem_applyOps_adds (by simp), mem_applyOps_removes (by simp), ih]
    by_cases hy : y ∈ stack <;> by_cases ha : a = y
    · subst ha
      simp only [hy, if_true, List.mem_append, true_or, List.mem_singleton, Prod.mk.injEq, true_and,
        MembershipOp.remove.injEq, List.mem_map, MembershipOp.add.injEq, exists_eq_right]
      by_cases hm : m = i
      · subst hm
        simp [hi]
      · simp [hm]
    · simp [hy, ha, Ne.symm ha]
    · subst ha
      simp [hy]
    · simp [hy, ha, Ne.symm ha]

variable (snapshot : Snapshot) (exclude : List RecordId) (changes : Changes)

theorem getElem?_touched (ops : List (RecordId × MembershipOp)) (y : RecordId) :
    (ops.foldl (touchRecord snapshot exclude changes) ∅)[y]? =
      if y ∉ exclude ∧ ∃ op ∈ ops, op.1 = y then
        (fetchRecordInTransition snapshot changes y).map (applyOps ops y)
      else none := by
  induction ops using List.reverseRecOn with
  | nil => simp
  | append_singleton ops op ih =>
    rw [List.foldl_concat]
    set touched := ops.foldl (touchRecord snapshot exclude changes) ∅ with htouched
    by_cases hy : op.1 = y
    · subst hy
      by_cases hex : op.1 ∈ exclude
      · simpa [touchRecord, hex] using ih
      · -- The record is fetched only where no earlier operation touched it.
        have hcurrent : (touched[op.1]?).or (fetchRecordInTransition snapshot changes op.1) =
            (fetchRecordInTransition snapshot changes op.1).map (applyOps ops op.1) := by
          rw [ih]
          by_cases hmem : ∃ o ∈ ops, o.1 = op.1
          · rw [if_pos ⟨hex, hmem⟩]
            cases fetchRecordInTransition snapshot changes op.1 <;> simp
          · rw [if_neg (fun h => hmem h.2)]
            cases fetchRecordInTransition snapshot changes op.1 <;>
              simp [applyOps_of_forall_ne hmem]
        rw [if_pos ⟨hex, op, by simp, rfl⟩]
        simp only [touchRecord, hex, if_false, hcurrent]
        cases hf : fetchRecordInTransition snapshot changes op.1 with
        | none => simp [ih, hf]
        | some record => simp [applyOps_concat]
    · have hex : (∃ o ∈ ops ++ [op], o.1 = y) ↔ ∃ o ∈ ops, o.1 = y := by
        constructor
        · rintro ⟨o, ho, rfl⟩
          rcases List.mem_append.mp ho with ho | ho
          · exact ⟨o, ho, rfl⟩
          · exact absurd (by simp [List.mem_singleton.mp ho]) hy
        · rintro ⟨o, ho, rfl⟩
          exact ⟨o, List.mem_append_left _ ho, rfl⟩
      have hops : applyOps (ops ++ [op]) y = applyOps ops y := by
        funext record
        rw [applyOps_concat, if_neg hy]
      rw [hops]
      simp only [hex]
      rw [← ih, touchRecord]
      split
      · rfl
      · split
        · rw [getElem?_insert, if_neg hy]
        · rfl

theorem getElem?_reconcile (hkeyed : Keyed ConcurrencyRecord.id snapshot.concurrencyTable)
    (ops : List (RecordId × MembershipOp)) (y : RecordId) :
    (applyMutations snapshot.concurrencyTable
        (v2ReconcileAncestorMembership snapshot ops exclude changes).concurrencyMutations)[y]? =
      ((ops.foldl (touchRecord snapshot exclude changes) ∅)[y]?).or
        (applyMutations snapshot.concurrencyTable
          changes.concurrencyMutations)[y]? := by
  set touched := ops.foldl (touchRecord snapshot exclude changes) ∅ with htouched
  have hids : Keyed ConcurrencyRecord.id touched := by
    intro k record h
    rw [htouched, getElem?_touched] at h
    split at h
    · obtain ⟨before, hb, rfl⟩ := Option.map_eq_some_iff.mp h
      rw [applyOps_eq]
      have hmutated := getElem?_of_fetchRecord snapshot.concurrencyTable hb
      rw [List.reverse_reverse] at hmutated
      exact keyed_applyMutations hkeyed changes.concurrencyMutations k before hmutated
    · simp at h
  have hinsert : ∀ (records : List ConcurrencyRecord) (T : ConcurrencyTable),
      applyMutations T (records.map .insert) =
        records.foldl (fun T record => T.insert record.id record) T := by
    intro records T
    simp [applyMutations, List.foldl_map, applyMutation]
  have hrebuilt := foldl_insert_values hids
  unfold v2ReconcileAncestorMembership
  rw [show (changes.mutateAll (touched.values.map .insert)).concurrencyMutations =
    changes.concurrencyMutations ++ touched.values.map .insert from rfl, applyMutations_append,
    hinsert, getElem?_foldl_insert, ← hrebuilt, getElem?_foldl_insert, hrebuilt]
  simp

/-- Reconciling keeps every record but for its members, and rewrites the members of the armed
records that are not excluded by the operations on them. -/
theorem reconcile_spec (hkeyed : Keyed ConcurrencyRecord.id snapshot.concurrencyTable)
    (ops : List (RecordId × MembershipOp)) (y : RecordId) :
    (applyMutations snapshot.concurrencyTable
        (v2ReconcileAncestorMembership snapshot ops exclude changes).concurrencyMutations)[y]? =
      (applyMutations snapshot.concurrencyTable
        changes.concurrencyMutations)[y]?.map (fun record => { record with
          members := if y ∉ exclude ∧ fetchRecordInTransition snapshot changes y ≠ none then
            (applyOps ops y record).members else record.members }) := by
  rw [getElem?_reconcile snapshot exclude changes hkeyed, getElem?_touched]
  cases hf : fetchRecordInTransition snapshot changes y with
  | none => simp
  | some record =>
    have hmutated := getElem?_of_fetchRecord snapshot.concurrencyTable hf
    rw [List.reverse_reverse] at hmutated
    by_cases hex : y ∈ exclude
    · simp [hex]
    · by_cases hops : ∃ op ∈ ops, op.1 = y
      · simp [hex, hops, hmutated, ← applyOps_eq]
      · simp [hops, hmutated, applyOps_of_forall_ne hops]

end Reconcile

end BpmnLite
