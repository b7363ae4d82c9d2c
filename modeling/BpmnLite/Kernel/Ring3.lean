import BpmnLite.Kernel.Apply
import BpmnLite.Maps

/-!
# What Ring 3 accepts

A frame passes the shadow check exactly when it is sound: the K-invariants hold, no barrier is out
of reach, no effect has two owners, the changed fibres are within bounds, and a frame without fibres
belongs to an instance that has ended.
-/

namespace BpmnLite

open Maps

variable {table table' : ConcurrencyTable} {y : RecordId} {r : ConcurrencyRecord} {m : Uuid}
  {owners : BTreeMap EffectId Uuid} {pairs : List (EffectId × Uuid)} {workflow : ExecutableWorkflow}
  {snapshot : Snapshot} {t : Transition}

/-- K-1 and K-2 in both directions, and K-3. -/
structure KInvariant (fibers : BTreeMap Uuid Fiber) (table : ConcurrencyTable) : Prop where
  live : ∀ (y : RecordId) (r : ConcurrencyRecord), table[y]? = some r → r.state = .armed →
    ∀ m ∈ r.members, m ∈ fibers
  counts : ∀ (y : RecordId) (r : ConcurrencyRecord), table[y]? = some r → r.state = .armed →
    r.kind = .barrier → 0 < r.counters.count ∧ r.counters.count ≤ r.counters.arity
  held : ∀ (m : Uuid) (f : Fiber), fibers[m]? = some f → ∀ y ∈ effectiveControlStack f,
    ∃ r, table[y]? = some r ∧ r.state = .armed ∧ m ∈ r.members
  onStack : ∀ (y : RecordId) (r : ConcurrencyRecord), table[y]? = some r → r.state = .armed →
    ∀ m ∈ r.members, ∀ f, fibers[m]? = some f → y ∈ effectiveControlStack f

section
variable {fibers : BTreeMap Uuid Fiber}

theorem checkRecord_eq_none :
    checkRecord fibers y r = none ↔ (r.state = .armed → (∀ m ∈ r.members, m ∈ fibers) ∧
      (r.kind = .barrier → 0 < r.counters.count ∧ r.counters.count ≤ r.counters.arity)) := by
  unfold checkRecord
  by_cases harmed : r.state = .armed
  · simp only [harmed, ne_eq, not_true_eq_false, if_false, true_imp_iff]
    cases hfind : r.members.toList.find? (fun member => member ∉ fibers) with
    | some m =>
      have hm := List.find?_some hfind
      have hmem := Std.ExtTreeSet.mem_toList.mp (List.mem_of_find?_eq_some hfind)
      simp only [reduceCtorEq, false_iff, not_and]
      intro hall
      simp [hall m hmem] at hm
    | none =>
      have hall : ∀ m ∈ r.members, m ∈ fibers := by
        intro m hm
        have := List.find?_eq_none.mp hfind m (Std.ExtTreeSet.mem_toList.mpr hm)
        simpa using this
      simp only [ite_eq_right_iff, reduceCtorEq, imp_false, not_and, not_or, not_lt,
        Nat.pos_iff_ne_zero]
      exact ⟨fun h => ⟨hall, h⟩, And.right⟩
  · simp [harmed]

theorem checkHandle_eq_none :
    checkHandle table m y = none ↔
      ∃ r, table[y]? = some r ∧ r.state = .armed ∧ m ∈ r.members := by
  unfold checkHandle
  cases hr : table[y]? with
  | none => simp
  | some r => by_cases harmed : r.state = .armed <;> simp [harmed]

theorem checkMember_eq_none :
    checkMember fibers y m = none ↔
      ∀ f, fibers[m]? = some f → y ∈ effectiveControlStack f := by
  unfold checkMember
  cases hf : fibers[m]? with
  | none => simp
  | some f => simp

theorem checkMembers_eq_none :
    checkMembers fibers y r = none ↔ (r.state = .armed → ∀ m ∈ r.members, ∀ f,
      fibers[m]? = some f → y ∈ effectiveControlStack f) := by
  unfold checkMembers
  by_cases harmed : r.state = .armed
  · simp [harmed, List.findSome?_eq_none_iff, checkMember_eq_none, Std.ExtTreeSet.mem_toList]
  · simp [harmed]

theorem checkKInvariants_eq_none :
    checkKInvariants fibers table = none ↔ KInvariant fibers table := by
  simp only [checkKInvariants, Option.or_eq_none_iff, List.findSome?_eq_none_iff, Prod.forall,
    Std.ExtTreeMap.mem_toList_iff_getElem?_eq_some, checkRecord_eq_none, checkHandle_eq_none,
    checkMembers_eq_none]
  constructor
  · rintro ⟨hrecords, hheld, hmembers⟩
    exact ⟨fun y r hr harmed => (hrecords y r hr harmed).1,
      fun y r hr harmed => (hrecords y r hr harmed).2, hheld, hmembers⟩
  · intro h
    exact ⟨fun y r hr harmed => ⟨h.live y r hr harmed, h.counts y r hr harmed⟩, h.held, h.onStack⟩

theorem checkBarrier_eq_none :
    checkBarrier fibers y r = none ↔ (r.state = .armed → r.kind = .barrier →
      r.counters.count ≤ (r.members.toList.filter (stillDue fibers y)).length) := by
  unfold checkBarrier
  by_cases harmed : r.state = .armed
  · by_cases hkind : r.kind = .barrier <;> simp [harmed, hkind]
  · simp [harmed]

theorem checkEffectOwners_cons {e : EffectId} :
    checkEffectOwners owners ((e, m) :: pairs) = none ↔
      (∀ o, owners[e]? = some o → o = m) ∧
        checkEffectOwners (owners.insert e m) pairs = none := by
  rw [checkEffectOwners]
  cases ho : owners[e]? with
  | none => simp
  | some other => by_cases hom : other = m <;> simp [hom]

theorem checkEffectOwners_eq_none :
    checkEffectOwners owners pairs = none ↔
      (∀ p ∈ pairs, ∀ o, owners[p.1]? = some o → o = p.2) ∧
      ∀ p ∈ pairs, ∀ q ∈ pairs, p.1 = q.1 → p.2 = q.2 := by
  induction pairs generalizing owners with
  | nil => simp [checkEffectOwners]
  | cons p pairs ih =>
    obtain ⟨e, m⟩ := p
    rw [checkEffectOwners_cons, ih]
    simp only [List.forall_mem_cons, getElem?_insert]
    constructor
    · rintro ⟨howner, hrest, hpairs⟩
      have hsame : ∀ q ∈ pairs, e = q.1 → m = q.2 := fun q hq he => hrest q hq m (by rw [if_pos he])
      refine ⟨⟨howner, fun q hq o ho => ?_⟩, ⟨fun _ => trivial, hsame⟩, fun q hq =>
        ⟨fun he => (hsame q hq he.symm).symm, hpairs q hq⟩⟩
      by_cases he : e = q.1
      · exact (howner o (by rw [he]; exact ho)).trans (hsame q hq he)
      · exact hrest q hq o (by rw [if_neg he]; exact ho)
    · rintro ⟨⟨howner, hrest⟩, ⟨-, hsame⟩, hpairs⟩
      refine ⟨howner, fun q hq o ho => ?_, fun q hq => (hpairs q hq).2⟩
      split at ho
      · rename_i he
        exact (Option.some.inj ho) ▸ hsame q hq he
      · exact hrest q hq o ho

structure Sound (workflow : ExecutableWorkflow) (snapshot : Snapshot) (t : Transition) : Prop where
  live : (derivePostTransitionFrame snapshot t).1.isEmpty →
    (t.stateOverride.getD t.nextSnapshot.state).isTerminal
  upserts : ∀ f ∈ t.fibersUpsert, f.pc < workflow.instructions.length ∧
    f.stack.length ≤ workflow.limits.maxStack ∧
    f.controlStack.length ≤ workflow.limits.maxControlDepth
  invariant : KInvariant (derivePostTransitionFrame snapshot t).1
    (derivePostTransitionFrame snapshot t).2
  barriers : ∀ (y : RecordId) (r : ConcurrencyRecord),
    (derivePostTransitionFrame snapshot t).2[y]? = some r → r.state = .armed → r.kind = .barrier →
      r.counters.count ≤
        (r.members.toList.filter (stillDue (derivePostTransitionFrame snapshot t).1 y)).length
  owners : ∀ p ∈ effectOwnerPairs (derivePostTransitionFrame snapshot t).1,
    ∀ q ∈ effectOwnerPairs (derivePostTransitionFrame snapshot t).1, p.1 = q.1 → p.2 = q.2

theorem checkUpsert_eq_none {f : Fiber} :
    checkUpsert workflow f = none ↔ f.pc < workflow.instructions.length ∧
      f.stack.length ≤ workflow.limits.maxStack ∧
      f.controlStack.length ≤ workflow.limits.maxControlDepth := by
  unfold checkUpsert
  by_cases hpc : workflow.instructions.length ≤ f.pc
  · simp [hpc, not_lt.mpr hpc]
  · by_cases hstack : workflow.limits.maxStack < f.stack.length
    · simp [hpc, hstack, not_le.mpr hstack]
    · simp [not_le.mp hpc, hpc, not_lt.mp hstack, hstack]

/-- Ring 3 accepts exactly the sound transitions. -/
theorem ring3ShadowCheck_eq_none :
    ring3ShadowCheck workflow snapshot t = none ↔ Sound workflow snapshot t := by
  have hlive : ring3ShadowCheck workflow snapshot t = none ↔
      ((derivePostTransitionFrame snapshot t).1.isEmpty →
        (t.stateOverride.getD t.nextSnapshot.state).isTerminal) ∧
      (∀ f ∈ t.fibersUpsert, checkUpsert workflow f = none) ∧
      checkKInvariants (derivePostTransitionFrame snapshot t).1
        (derivePostTransitionFrame snapshot t).2 = none ∧
      (∀ entry ∈ (derivePostTransitionFrame snapshot t).2.toList,
        checkBarrier (derivePostTransitionFrame snapshot t).1 entry.1 entry.2 = none) ∧
      checkEffectOwners ∅ (effectOwnerPairs (derivePostTransitionFrame snapshot t).1) = none := by
    simp only [ring3ShadowCheck]
    split
    · rename_i h
      simp [h.1, h.2]
    · rename_i h
      simp only [Option.or_eq_none_iff, List.findSome?_eq_none_iff]
      exact ⟨fun h' => ⟨by simpa using h, h'⟩, And.right⟩
  rw [hlive]
  simp only [checkUpsert_eq_none, checkKInvariants_eq_none, checkBarrier_eq_none,
    checkEffectOwners_eq_none, Prod.forall, Std.ExtTreeMap.mem_toList_iff_getElem?_eq_some,
    Std.ExtTreeMap.getElem?_empty, reduceCtorEq, false_imp_iff, implies_true, true_and]
  exact ⟨fun ⟨h₁, h₂, h₃, h₄, h₅⟩ => ⟨h₁, h₂, h₃, h₄, by simpa using h₅⟩,
    fun h => ⟨h.live, h.upserts, h.invariant, h.barriers, by simpa using h.owners⟩⟩

structure SoundFrame (fibers : BTreeMap Uuid Fiber) (table : ConcurrencyTable) : Prop where
  invariant : KInvariant fibers table
  barriers : ∀ (y : RecordId) (r : ConcurrencyRecord), table[y]? = some r → r.state = .armed →
    r.kind = .barrier →
      r.counters.count ≤ (r.members.toList.filter (stillDue fibers y)).length
  owners : ∀ p ∈ effectOwnerPairs fibers, ∀ q ∈ effectOwnerPairs fibers, p.1 = q.1 → p.2 = q.2

theorem Sound.frame (h : Sound workflow snapshot t) :
    SoundFrame (derivePostTransitionFrame snapshot t).1
      (derivePostTransitionFrame snapshot t).2 :=
  ⟨h.invariant, h.barriers, h.owners⟩

theorem SoundFrame.sound {fibers : BTreeMap Uuid Fiber} {table : ConcurrencyTable} {m : Uuid}
    {f : Fiber} (h : SoundFrame fibers table)
    (hframe : derivePostTransitionFrame snapshot t = (fibers, table)) (hf : fibers[m]? = some f)
    (hupserts : ∀ f ∈ t.fibersUpsert, f.pc < workflow.instructions.length ∧
      f.stack.length ≤ workflow.limits.maxStack ∧
      f.controlStack.length ≤ workflow.limits.maxControlDepth) : Sound workflow snapshot t := by
  obtain ⟨rfl, rfl⟩ := Prod.ext_iff.mp hframe
  refine ⟨fun hempty => ?_, hupserts, h.invariant, h.barriers, h.owners⟩
  rw [Std.ExtTreeMap.isEmpty_iff] at hempty
  simp [hempty] at hf

theorem mem_effectOwnerPairs {p : EffectId × Uuid} :
    p ∈ effectOwnerPairs fibers ↔ ∃ (m : Uuid) (f : Fiber), fibers[m]? = some f ∧
      p.1 ∈ referencedEffects f ∧ p.2 = f.fiberId := by
  obtain ⟨e, i⟩ := p
  simp only [effectOwnerPairs, List.mem_flatMap, mem_values, List.mem_map, Prod.mk.injEq]
  constructor
  · rintro ⟨f, ⟨m, hf⟩, e', he, rfl, rfl⟩
    exact ⟨m, f, hf, he, rfl⟩
  · rintro ⟨m, f, hf, he, rfl⟩
    exact ⟨f, ⟨m, hf⟩, e, he, rfl, rfl⟩

theorem SoundFrame.insert (h : SoundFrame fibers table) {f f' : Fiber} (hf : fibers[m]? = some f)
    (hid : f'.fiberId = f.fiberId) (heffects : ∀ e ∈ referencedEffects f', e ∈ referencedEffects f)
    (hdue : ∀ y, f'.wait = .v2Barrier y → f.wait = .v2Barrier y)
    (harmed : ∀ (y : RecordId) (r : ConcurrencyRecord), table'[y]? = some r → r.state = .armed →
      table[y]? = some r ∧ (y ∈ effectiveControlStack f → y ∈ effectiveControlStack f'))
    (hheld : ∀ (k : Uuid) (g : Fiber), (fibers.insert m f')[k]? = some g →
      ∀ y ∈ effectiveControlStack g, table'[y]? = table[y]? ∧
      (y ∈ effectiveControlStack f' → y ∈ effectiveControlStack f)) :
    SoundFrame (fibers.insert m f') table' := by
  have hlookup : ∀ (k : Uuid) (g : Fiber), (fibers.insert m f')[k]? = some g →
      (fibers[k]? = some f ∧ g = f') ∨ fibers[k]? = some g := by
    intro k g hg
    rw [getElem?_insert] at hg
    split at hg
    · rename_i hk
      exact Or.inl ⟨hk ▸ hf, (Option.some.inj hg).symm⟩
    · exact Or.inr hg
  have hstill : ∀ y k, stillDue fibers y k → stillDue (fibers.insert m f') y k := by
    intro y k hk
    unfold stillDue at hk ⊢
    rw [getElem?_insert]
    by_cases hm : m = k
    · subst hm
      simp only [hf, decide_eq_true_eq] at hk
      simpa using fun hwait => hk (hdue y hwait)
    · rwa [if_neg hm]
  have howned : ∀ p ∈ effectOwnerPairs (fibers.insert m f'), p ∈ effectOwnerPairs fibers := by
    intro p hp
    obtain ⟨k, g, hg, he, hpid⟩ := mem_effectOwnerPairs.mp hp
    rcases hlookup k g hg with ⟨hk, rfl⟩ | hk
    · exact mem_effectOwnerPairs.mpr ⟨k, f, hk, heffects _ he, hpid.trans hid⟩
    · exact mem_effectOwnerPairs.mpr ⟨k, g, hk, he, hpid⟩
  refine ⟨⟨fun y r hr hstate k hk => ?_, fun y r hr hstate => ?_, fun k g hg y hy => ?_,
    fun y r hr hstate k hk g hg => ?_⟩, fun y r hr hstate hkind => ?_, fun p hp q hq =>
    h.owners p (howned p hp) q (howned q hq)⟩
  · exact Std.ExtTreeMap.mem_insert.mpr
      (Or.inr (h.invariant.live y r (harmed y r hr hstate).1 hstate k hk))
  · exact h.invariant.counts y r (harmed y r hr hstate).1 hstate
  · obtain ⟨hsame, hback⟩ := hheld k g hg y hy
    rw [hsame]
    rcases hlookup k g hg with ⟨hk, rfl⟩ | hk
    · exact h.invariant.held k f hk y (hback hy)
    · exact h.invariant.held k g hk y hy
  · obtain ⟨hold, hstay⟩ := harmed y r hr hstate
    rcases hlookup k g hg with ⟨hk', rfl⟩ | hk'
    · exact hstay (h.invariant.onStack y r hold hstate k hk f hk')
    · exact h.invariant.onStack y r hold hstate k hk g hk'
  · refine (h.barriers y r (harmed y r hr hstate).1 hstate hkind).trans ?_
    exact (List.monotone_filter_right _ (fun k => hstill y k)).length_le

end

end BpmnLite
