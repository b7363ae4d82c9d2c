import BpmnLite.Kernel.ScopeSpec
import BpmnLite.ScopeTree

/-!
# From the kernel to the scope machine

The configuration a world stands for, the configuration of a tick in progress, and the one a
transition leads to. The lemmas on mutated tables put what the kernel does to records in the terms
of the machine.
-/

namespace BpmnLite

open Maps Forest

variable {y : RecordId} {m : Uuid} {t : Transition} {snapshot : Snapshot} {cancelled : List Uuid}
  {gone : RecordId → Uuid → Prop}

/-- The ids commands may have derived up to a revision. -/
def handedOut (H : Host) (revision : ℕ) : Set Uuid :=
  {id | ∃ commandId rev ordinal, rev ≤ revision ∧ id = H.forCommand commandId rev ordinal}

/-- The records of a table after mutations. -/
def lookup (T : ConcurrencyTable) (ms : List ConcurrencyMutation) (y : RecordId) :
    Option ConcurrencyRecord :=
  (ConcurrencyTable.applyMutations T ms)[y]?

section
variable (H : Host) (w : World) (s : Stimulus) (opened : List (RecordId × Addr))

def World.config : Config where
  fibers m := w.state.fibers[m]?
  table y := w.state.concurrencyTable[y]?
  old := handedOut H w.revision
  focus := none
  arms := []
  timers := raceTimers w.effects
  opened := w.openings
  joins := joinLog w.events

/-- A tick in progress: the fibre being ticked is in focus, with the changes made so far. -/
def World.during (ts : TickState) : Config where
  fibers m := if m = ts.fiber.fiberId then some ts.fiber
    else if m ∈ ts.changes.fibersDelete then none else w.state.fibers[m]?
  table := lookup w.state.concurrencyTable ts.changes.concurrencyMutations
  old := handedOut H w.revision ∪
    {id | ∃ ordinal < ts.ordinal, id = (w.context s).derivedId H ordinal}
  focus := some ts.fiber.fiberId
  arms := ts.raceArms
  timers := raceTimers (w.effects ++ ts.changes.effects)
  opened := w.openings ++ opened
  joins := joinLog (w.events ++ ts.changes.events)

/-- What a transition leads to, with the ids known to have been handed out. -/
def World.after (old : Set Uuid) (t : Transition) : Config where
  fibers m := (applyFiberDeltas w.state.fibers t.fibersUpsert t.fibersDelete
    t.terminalCleanup.deleteAllFibers)[m]?
  table := lookup w.state.concurrencyTable t.concurrencyMutations
  old := old
  focus := none
  arms := []
  timers := raceTimers (w.effects ++ t.effects)
  opened := w.openings ++ opened
  joins := joinLog (w.events ++ t.events)

end

/-- What the refinement needs of a world, and every accepted command restores. -/
structure World.Coherent (H : Host) (w : World) : Prop where
  formed : (w.config H).Formed
  members : ∀ (y : RecordId) (r : ConcurrencyRecord), w.state.concurrencyTable[y]? = some r →
    r.state = .armed → ∀ m ∈ r.members, ∃ f, w.state.fibers[m]? = some f ∧
      y ∈ effectiveControlStack f
  noChild : ∀ a b, w.state.inst.state ≠ .waitingOnSubmission a b ∧
    w.state.inst.state ≠ .waitingOnInvocation a b

section Worlds
variable {H : Host} {workflow : ExecutableWorkflow} {w : World} {s : Stimulus}

theorem World.Coherent.keyed (hw : w.Coherent H) : Keyed Fiber.fiberId w.state.fibers :=
  fun m f hf => hw.formed.keyed m f hf

theorem World.Coherent.keyedTable (hw : w.Coherent H) :
    Keyed ConcurrencyRecord.id (w.snapshot s).concurrencyTable :=
  fun y r hr => hw.formed.ids y r hr

theorem snapshot_fibers (hkeyed : Keyed Fiber.fiberId w.state.fibers) :
    (w.snapshot s).fibers = w.state.fibers :=
  foldl_insert_values hkeyed

theorem World.Coherent.fibers (hw : w.Coherent H) : (w.snapshot s).fibers = w.state.fibers :=
  snapshot_fibers hw.keyed

theorem World.Coherent.tree (hw : w.Coherent H) :
    IsTree (chains (fun m => (w.snapshot s).fibers[m]?)) := by
  rw [hw.fibers]
  exact hw.formed.tree

theorem World.Coherent.dead_iff (hw : w.Coherent H) {r : RecordId} :
    y ∈ (v2CancelGuardScope (w.snapshot s) r).1 ↔
      y = r ∨ ∃ (m : Uuid) (f : Fiber), w.state.fibers[m]? = some f ∧ Above f r y := by
  rw [mem_v2CancelGuardScope_records hw.tree (hw.fibers ▸ hw.keyed), hw.fibers]

theorem World.Coherent.cancelled_iff (hw : w.Coherent H) {r : RecordId} :
    m ∈ (v2CancelGuardScope (w.snapshot s) r).2 ↔ (w.config H).Holds m r := by
  rw [mem_v2CancelGuardScope_fibers hw.tree (hw.fibers ▸ hw.keyed), hw.fibers]
  rfl

theorem World.Coherent.inside (hw : w.Coherent H) {r : RecordId} {g : Fiber}
    (hdead : y ∈ (v2CancelGuardScope (w.snapshot s) r).1) (hg : w.state.fibers[m]? = some g)
    (hy : y ∈ effectiveControlStack g) : r ∈ effectiveControlStack g := by
  rcases hw.dead_iff.mp hdead with rfl | ⟨k, f, hf, p, q, hpq, hyq⟩
  · exact hy
  · obtain ⟨u, v, rfl⟩ := List.append_of_mem hyq
    obtain ⟨p', q', hsplit, hmem⟩ := hw.formed.tree.mem_below (x := r) (y := y)
      ⟨k, f, hf, rfl⟩ ⟨m, g, hg, rfl⟩ (p := p ++ r :: u) (q := v) (by simp [hpq]) (by simp) hy
    rw [hsplit]
    exact List.mem_append_left _ hmem

theorem derivedId_injective (hH : Function.Injective H.uuidOfSeed) {a b : ℕ}
    (h : (w.context s).derivedId H a = (w.context s).derivedId H b) : a = b := by
  have := hH h
  simpa using this

theorem derivedId_not_handedOut (hH : Function.Injective H.uuidOfSeed) (ordinal : ℕ) :
    (w.context s).derivedId H ordinal ∉ handedOut H w.revision := by
  rintro ⟨commandId, rev, ordinal', hrev, he⟩
  have hseed := hH he
  simp only [World.context, IdSeed.command.injEq] at hseed
  omega

theorem derivedId_handedOut (ordinal : ℕ) :
    (w.context s).derivedId H ordinal ∈ handedOut H (w.revision + 1) :=
  ⟨_, _, _, le_rfl, rfl⟩

theorem handedOut_mono {a b : ℕ} (h : a ≤ b) : handedOut H a ⊆ handedOut H b := by
  rintro id ⟨commandId, rev, ordinal, hrev, rfl⟩
  exact ⟨commandId, rev, ordinal, hrev.trans h, rfl⟩

theorem getElem?_deleteFibers (fibers : BTreeMap Uuid Fiber) (deletes : List Uuid) (m : Uuid) :
    (deleteFibers fibers deletes)[m]? = if m ∈ deletes then none else fibers[m]? :=
  getElem?_foldl_erase deletes fibers m

theorem getElem?_upsertFibers (fibers : BTreeMap Uuid Fiber) (upserts : List Fiber) (m : Uuid) :
    (upsertFibers fibers upserts)[m]? =
      (upserts.reverse.find? (fun f => f.fiberId = m)).or fibers[m]? :=
  getElem?_foldl_insert Fiber.fiberId upserts fibers m

theorem keyed_applyFiberDeltas {fibers : BTreeMap Uuid Fiber} (h : Keyed Fiber.fiberId fibers)
    (upserts : List Fiber) (deletes : List Uuid) (all : Bool) :
    Keyed Fiber.fiberId (applyFiberDeltas fibers upserts deletes all) := by
  have hups : Keyed Fiber.fiberId (upsertFibers fibers upserts) := keyed_foldl_insert upserts h
  cases all with
  | true => exact keyed_empty _
  | false =>
    intro m f hf
    change (deleteFibers (upsertFibers fibers upserts) deletes)[m]? = some f at hf
    rw [getElem?_deleteFibers] at hf
    by_cases hm : m ∈ deletes
    · simp [hm] at hf
    · exact hups m f (by simpa [hm] using hf)

theorem getElem?_applyFiberDeltas (fibers : BTreeMap Uuid Fiber) (upserts : List Fiber)
    (deletes : List Uuid) (m : Uuid) :
    (applyFiberDeltas fibers upserts deletes false)[m]? =
      if m ∈ deletes then none
      else (upserts.reverse.find? (fun f => f.fiberId = m)).or fibers[m]? := by
  change (deleteFibers (upsertFibers fibers upserts) deletes)[m]? = _
  rw [getElem?_deleteFibers, getElem?_upsertFibers]

theorem commit_fibers_of_keyed (hkeyed : Keyed Fiber.fiberId w.state.fibers) :
    (w.commit H workflow s t).state.fibers = applyFiberDeltas w.state.fibers t.fibersUpsert
      t.fibersDelete t.terminalCleanup.deleteAllFibers :=
  foldl_insert_values (keyed_applyFiberDeltas hkeyed t.fibersUpsert t.fibersDelete
    t.terminalCleanup.deleteAllFibers)

theorem commit_fibers (workflow : ExecutableWorkflow) (s : Stimulus) (hw : w.Coherent H)
    (t : Transition) :
    (w.commit H workflow s t).state.fibers = applyFiberDeltas w.state.fibers t.fibersUpsert
      t.fibersDelete t.terminalCleanup.deleteAllFibers :=
  commit_fibers_of_keyed hw.keyed

theorem commit_envelope (t : Transition) (envelope : Option CommandEnvelope) :
    w.commit H workflow s { t with commandEnvelope := envelope } = w.commit H workflow s t := rfl

theorem commit_inst (hoverride : t.stateOverride = none) :
    (w.commit H workflow s t).state.inst = { t.nextSnapshot with integrityHash := none } := by
  simp only [World.commit, materializeSnapshot, PersistedSnapshotState.new, hoverride]

theorem World.config_commit (hw : w.Coherent H) (t : Transition) :
    (w.commit H workflow s t).config H =
      w.after (w.opens H workflow s) (handedOut H (w.revision + 1)) t := by
  have hfibers := commit_fibers workflow s hw t
  simp only [World.config, World.after, hfibers]
  rfl

end Worlds

section Lookups
variable (T : ConcurrencyTable) (ms : List ConcurrencyMutation)

theorem lookup_insert (record : ConcurrencyRecord) :
    lookup T (ms ++ [.insert record]) = Function.update (lookup T ms) record.id (some record) := by
  funext y
  rw [lookup, applyMutations_append]
  by_cases hy : y = record.id
  · subst hy
    rw [Function.update_self]
    exact (getElem?_applyInsert _ record _).trans (if_pos rfl)
  · rw [Function.update_of_ne hy]
    exact (getElem?_applyInsert _ record _).trans (if_neg (Ne.symm hy))

theorem lookup_retireAll (ids : List RecordId) (y : RecordId) :
    lookup T (ms ++ ids.map .retire) y =
      if y ∈ ids then (lookup T ms y).map ConcurrencyRecord.asRetired else lookup T ms y := by
  rw [lookup, applyMutations_append]
  exact getElem?_retireAll _ ids y

theorem lookup_reconcile (hkeyed : Keyed ConcurrencyRecord.id snapshot.concurrencyTable)
    (ops : List (RecordId × MembershipOp)) (exclude : List RecordId) (changes : Changes)
    {r : ConcurrencyRecord}
    (hr : lookup snapshot.concurrencyTable changes.concurrencyMutations y = some r) :
    ∃ r', lookup snapshot.concurrencyTable
        (v2ReconcileAncestorMembership snapshot ops exclude changes).concurrencyMutations y =
          some r' ∧ r.SameScope r' ∧ r'.state = r.state ∧
      (∀ m ∈ r'.members, m ∈ r.members ∨ (y, .add m) ∈ ops) ∧
      (r.state = .armed → y ∉ exclude → r'.members = (applyOps ops y r).members) := by
  have hspec := reconcile_spec snapshot exclude changes hkeyed ops y
  unfold lookup at hr ⊢
  rw [hr] at hspec
  refine ⟨_, hspec, rfl, rfl, fun m hm => ?_, fun harmed hy => ?_⟩
  · simp only at hm
    split at hm
    · exact mem_of_mem_applyOps hm
    · exact Or.inl hm
  have hfetch : fetchRecordInTransition snapshot changes y = some r :=
    fetchRecord_of_armed _ (by rwa [List.reverse_reverse]) harmed
  simp [hy, hfetch]

theorem lookup_reconcile_none (hkeyed : Keyed ConcurrencyRecord.id snapshot.concurrencyTable)
    (ops : List (RecordId × MembershipOp)) (exclude : List RecordId) (changes : Changes)
    (hr : lookup snapshot.concurrencyTable changes.concurrencyMutations y = none) :
    lookup snapshot.concurrencyTable
      (v2ReconcileAncestorMembership snapshot ops exclude changes).concurrencyMutations y =
        none := by
  have hspec := reconcile_spec snapshot exclude changes hkeyed ops y
  unfold lookup at hr ⊢
  rw [hspec, hr]
  rfl

theorem lookup_of_fetch {changes : Changes} {r : ConcurrencyRecord}
    (h : fetchRecordInTransition snapshot changes y = some r) :
    lookup snapshot.concurrencyTable changes.concurrencyMutations y = some r := by
  have := getElem?_of_fetchRecord snapshot.concurrencyTable h
  rwa [List.reverse_reverse] at this

theorem mem_removalOps :
    (y, .remove m) ∈ removalOps snapshot cancelled ↔
      m ∈ cancelled ∧ ∃ f, snapshot.fibers[m]? = some f ∧ y ∈ f.controlStack := by
  simp only [removalOps, List.mem_flatMap]
  constructor
  · rintro ⟨k, hk, hmem⟩
    split at hmem
    · rename_i f hf
      simp only [List.mem_map, Prod.mk.injEq, MembershipOp.remove.injEq] at hmem
      obtain ⟨a, ha, rfl, rfl⟩ := hmem
      exact ⟨hk, f, hf, ha⟩
    · simp at hmem
  · rintro ⟨hm, f, hf, hy⟩
    exact ⟨m, hm, by simp [hf, hy]⟩

theorem removalOps_remove : ∀ op ∈ removalOps snapshot cancelled, ∃ a, op.2 = .remove a := by
  intro op hop
  simp only [removalOps, List.mem_flatMap] at hop
  obtain ⟨k, -, hmem⟩ := hop
  split at hmem
  · obtain ⟨a, -, rfl⟩ := List.mem_map.mp hmem
    exact ⟨k, rfl⟩
  · simp at hmem

end Lookups

theorem ConcurrencyRecord.SameScope.refl (r : ConcurrencyRecord) : r.SameScope r := rfl

theorem ConcurrencyRecord.SameScope.trans {a b c : ConcurrencyRecord} (hab : a.SameScope b)
    (hbc : b.SameScope c) : a.SameScope c := by
  unfold ConcurrencyRecord.SameScope at *
  rw [hbc, hab]

theorem sameScope_asRetired (r : ConcurrencyRecord) : r.SameScope r.asRetired := rfl

section Rewriting
variable {live : Uuid → Prop}

theorem Rewrites.intro {dead : RecordId → Prop} {added : RecordId → Uuid → Prop}
    {T T' : RecordId → Option ConcurrencyRecord} (habsent : ∀ y, T y = none → T' y = none)
    (hdead : ∀ y r, T y = some r → dead y → ∃ r', T' y = some r' ∧ r.SameScope r' ∧
      (∀ m ∈ r'.members, m ∈ r.members ∨ added y m) ∧ r'.state = .retired)
    (hkeep : ∀ y r, T y = some r → ¬ dead y → ∃ r', T' y = some r' ∧ r.SameScope r' ∧
      (∀ m ∈ r'.members, m ∈ r.members ∨ added y m) ∧ r'.state = r.state ∧
      (r.state = .armed → (∀ m ∈ r'.members, (m ∈ r.members ∧ ¬ gone y m) ∨ added y m) ∧
      (∀ m ∈ r.members, live m → ¬ gone y m → m ∈ r'.members) ∧ ∀ m, added y m → m ∈ r'.members)) :
    Rewrites live dead gone added T T' where
  absent := habsent
  present y r hr := by
    by_cases hy : dead y
    · obtain ⟨r', hr', hscope, hsub, hstate⟩ := hdead y r hr hy
      exact ⟨r', hr', hscope, fun _ => hstate, fun h => absurd hy h, hsub,
        fun h => by simp [hstate] at h⟩
    · obtain ⟨r', hr', hscope, hsub, hstate, hmembers⟩ := hkeep y r hr hy
      exact ⟨r', hr', hscope, fun h => absurd h hy, fun _ => hstate, hsub,
        fun h => hmembers (hstate ▸ h)⟩

theorem rewrites_retireAll (T : ConcurrencyTable) (ms : List ConcurrencyMutation)
    (ids : List RecordId) :
    Rewrites live (· ∈ ids) (fun _ _ => False) (fun _ _ => False) (lookup T ms)
      (lookup T (ms ++ ids.map .retire)) := by
  refine .intro (fun y hy => ?_) (fun y r hr hy => ?_) (fun y r hr hy => ?_)
  · rw [lookup_retireAll, hy]
    simp
  · exact ⟨r.asRetired, by rw [lookup_retireAll, if_pos hy, hr]; rfl, sameScope_asRetired r,
      fun m => Or.inl, rfl⟩
  · exact ⟨r, by rw [lookup_retireAll, if_neg hy, hr], .refl r, fun m => Or.inl, rfl, fun _ =>
      ⟨fun m hm => Or.inl ⟨hm, id⟩, fun m hm _ _ => hm, fun m h => h.elim⟩⟩

theorem rewrites_retire (T : ConcurrencyTable) (ms : List ConcurrencyMutation) (r : RecordId) :
    Rewrites live (· = r) (fun _ _ => False) (fun _ _ => False) (lookup T ms)
      (lookup T (ms ++ [.retire r])) := by
  have h : Rewrites live (· ∈ [r]) (fun _ _ => False) (fun _ _ => False) (lookup T ms)
      (lookup T (ms ++ [r].map .retire)) := rewrites_retireAll T ms [r]
  simpa using h

theorem removed_members
    (hgone : ∀ y m, live m → ((y, .remove m) ∈ removalOps snapshot cancelled ↔ gone y m))
    (hlive : ∀ y m, gone y m → live m) (y : RecordId) (r r' : ConcurrencyRecord)
    (h : r'.members = (applyOps (removalOps snapshot cancelled) y r).members) :
    (∀ m ∈ r'.members, m ∈ r.members ∧ ¬ gone y m) ∧
      ∀ m ∈ r.members, live m → ¬ gone y m → m ∈ r'.members := by
  simp only [h, mem_applyOps_removes removalOps_remove]
  exact ⟨fun m hm => ⟨hm.1, fun hg => hm.2 ((hgone y m (hlive y m hg)).mpr hg)⟩,
    fun m hm hl hg => ⟨hm, fun hop => hg ((hgone y m hl).mp hop)⟩⟩

theorem subset_of_removal {r r' : ConcurrencyRecord} {added : Uuid → Prop}
    (h : ∀ m ∈ r'.members, m ∈ r.members ∨ (y, .add m) ∈ removalOps snapshot cancelled) :
    ∀ m ∈ r'.members, m ∈ r.members ∨ added m := by
  intro m hm
  rcases h m hm with hm | hop
  · exact Or.inl hm
  · obtain ⟨a, ha⟩ := removalOps_remove _ hop
    simp at ha

variable (hkeyed : Keyed ConcurrencyRecord.id snapshot.concurrencyTable)
  (hgone : ∀ y m, live m → ((y, .remove m) ∈ removalOps snapshot cancelled ↔ gone y m))
  (hlive : ∀ y m, gone y m → live m)
include hkeyed hgone hlive

theorem rewrites_cancel (changes : Changes) (dead : List RecordId) :
    Rewrites live (· ∈ dead) gone (fun _ _ => False)
      (lookup snapshot.concurrencyTable changes.concurrencyMutations)
      (lookup snapshot.concurrencyTable (v2ReconcileAncestorMembership snapshot
        (removalOps snapshot cancelled) dead
        (changes.mutateAll (dead.map .retire))).concurrencyMutations) := by
  have hretire : ∀ y, lookup snapshot.concurrencyTable
      (changes.mutateAll (dead.map .retire)).concurrencyMutations y = _ := fun y =>
    lookup_retireAll _ changes.concurrencyMutations dead y
  refine .intro (fun y hy => ?_) (fun y r hr hy => ?_) (fun y r hr hy => ?_)
  · refine lookup_reconcile_none hkeyed _ _ _ ?_
    rw [hretire, hy]
    simp
  · obtain ⟨r', hr', hscope, hstate, hsub, -⟩ := lookup_reconcile hkeyed
      (removalOps snapshot cancelled) dead _
      (show _ = some r.asRetired by rw [hretire, if_pos hy, hr]; rfl)
    exact ⟨r', hr', (sameScope_asRetired r).trans hscope, subset_of_removal hsub, hstate⟩
  · obtain ⟨r', hr', hscope, hstate, hsub, hmembers⟩ := lookup_reconcile hkeyed
      (removalOps snapshot cancelled) dead _ (show _ = some r by rw [hretire, if_neg hy, hr])
    refine ⟨r', hr', hscope, subset_of_removal hsub, hstate, fun harmed => ?_⟩
    obtain ⟨hin, hout⟩ := removed_members hgone hlive y r r' (hmembers harmed hy)
    exact ⟨fun m hm => Or.inl (hin m hm), hout, fun m h => h.elim⟩

theorem rewrites_release (changes : Changes) (r : RecordId) :
    Rewrites live (· = r) gone (fun _ _ => False)
      (lookup snapshot.concurrencyTable changes.concurrencyMutations)
      (lookup snapshot.concurrencyTable ((v2ReconcileAncestorMembership snapshot
        (removalOps snapshot cancelled) [r] changes).concurrencyMutations ++ [.retire r])) := by
  have hretire := lookup_retireAll snapshot.concurrencyTable
    (v2ReconcileAncestorMembership snapshot (removalOps snapshot cancelled) [r]
      changes).concurrencyMutations [r]
  rw [List.map_singleton] at hretire
  refine .intro (fun y hy => ?_) (fun y a ha hy => ?_) (fun y a ha hy => ?_)
  · rw [hretire, lookup_reconcile_none hkeyed _ _ _ hy]
    simp
  · obtain ⟨a', ha', hscope, -, hsub, -⟩ :=
      lookup_reconcile hkeyed (removalOps snapshot cancelled) [r] changes ha
    refine ⟨a'.asRetired, ?_, hscope.trans (sameScope_asRetired a'), subset_of_removal hsub, rfl⟩
    rw [hretire, if_pos (by simp [hy]), ha']
    rfl
  · obtain ⟨a', ha', hscope, hstate, hsub, hmembers⟩ :=
      lookup_reconcile hkeyed (removalOps snapshot cancelled) [r] changes ha
    refine ⟨a', ?_, hscope, subset_of_removal hsub, hstate, fun harmed => ?_⟩
    · rw [hretire, if_neg (by simpa using hy), ha']
    · obtain ⟨hin, hout⟩ := removed_members hgone hlive y a a' (hmembers harmed (by simpa using hy))
      exact ⟨fun m hm => Or.inl (hin m hm), hout, fun m hm => hm.elim⟩

end Rewriting

end BpmnLite
