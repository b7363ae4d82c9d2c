import BpmnLite.Kernel.RecordLifecycle
import BpmnLite.Kernel.Writes
import BpmnLite.Store.Journal

/-!
# The rows of the store and the snapshot of the kernel

A transition is folded three times: Ring 3 derives the frame it leads to, the kernel materializes the
next snapshot, and the store writes its rows one by one and takes the snapshot of a commit from them.
`Holds` says that the rows of an instance are a snapshot; a commit of what the kernel returned leads
from rows that are a snapshot to rows that are the materialized one.
-/

namespace BpmnLite.Store

open Maps

variable {inst row : ProcessInstance} {incident : Incident} {list : List Incident}
  {map : BTreeMap Uuid Incident} {x : Uuid} {state prior : PersistedSnapshotState}

/-- A list of incidents without repeated ids, and the map of its incidents. -/
structure Mirrors (list : List Incident) (map : BTreeMap Uuid Incident) : Prop where
  distinct : (list.map (·.incidentId)).Nodup
  lookup : ∀ (i : Uuid) (incident : Incident),
    map[i]? = some incident ↔ incident ∈ list ∧ incident.incidentId = i

/-- The rows that belong to the instance, but for its own row, are those of the state. -/
structure Rows (s : Store) (x : Uuid) (state : PersistedSnapshotState) : Prop where
  fibers : Slice s.fibers x state.fibers
  keyed : Keyed Fiber.fiberId state.fibers
  joins : Slice s.joinCounters x state.joinCounts
  incidents : Mirrors (s.incidents.getD x []) state.incidents
  table : s.concurrencyTables.getD x ∅ = state.concurrencyTable
  pending : state.pendingEffects = ∅

structure Holds (s : Store) (x : Uuid) (state : PersistedSnapshotState) : Prop extends
    Rows s x state where
  inst : ∃ row, s.instances[x]? = some row ∧ { row with integrityHash := none } = state.inst

section Incidents

theorem mem_upsertIncident {other : Incident} (hdistinct : (list.map (·.incidentId)).Nodup) :
    other ∈ upsertIncident incident list ↔
      other = incident ∨ other ∈ list ∧ other.incidentId ≠ incident.incidentId := by
  induction list with
  | nil => simp [upsertIncident]
  | cons existing rest ih =>
    rw [List.map_cons, List.nodup_cons] at hdistinct
    have hfirst : ∀ other ∈ rest, other.incidentId ≠ existing.incidentId := by
      intro other hother heq
      exact hdistinct.1 (heq ▸ List.mem_map_of_mem hother)
    unfold upsertIncident
    split
    · rename_i heq
      rw [List.mem_cons, List.mem_cons]
      constructor
      · rintro (rfl | hrest)
        · exact .inl rfl
        · exact .inr ⟨.inr hrest, heq ▸ hfirst other hrest⟩
      · rintro (rfl | ⟨rfl | hrest, hne⟩)
        · exact .inl rfl
        · exact absurd heq hne
        · exact .inr hrest
    · rename_i hne
      rw [List.mem_cons, List.mem_cons, ih hdistinct.2]
      constructor
      · rintro (rfl | rfl | ⟨hrest, hother⟩)
        · exact .inr ⟨.inl rfl, hne⟩
        · exact .inl rfl
        · exact .inr ⟨.inr hrest, hother⟩
      · rintro (rfl | ⟨rfl | hrest, hother⟩)
        · exact .inr (.inl rfl)
        · exact .inl rfl
        · exact .inr (.inr ⟨hrest, hother⟩)

theorem upsertIncident_distinct (hdistinct : (list.map (·.incidentId)).Nodup) :
    ((upsertIncident incident list).map (·.incidentId)).Nodup := by
  induction list with
  | nil => simp [upsertIncident]
  | cons existing rest ih =>
    rw [List.map_cons, List.nodup_cons] at hdistinct
    unfold upsertIncident
    split
    · rename_i heq
      rw [List.map_cons, List.nodup_cons, ← heq]
      exact hdistinct
    · rename_i hne
      rw [List.map_cons, List.nodup_cons]
      refine ⟨fun hmem => ?_, ih hdistinct.2⟩
      obtain ⟨other, hother, heq⟩ := List.mem_map.mp hmem
      rcases (mem_upsertIncident hdistinct.2).mp hother with rfl | ⟨hrest, -⟩
      · exact hne heq.symm
      · exact hdistinct.1 (heq ▸ List.mem_map_of_mem hrest)

theorem Mirrors.upsert (h : Mirrors list map) (incident : Incident) :
    Mirrors (upsertIncident incident list) (map.insert incident.incidentId incident) := by
  refine ⟨upsertIncident_distinct h.distinct, fun i other => ?_⟩
  rw [getElem?_insert, mem_upsertIncident h.distinct]
  split
  · rename_i hi
    constructor
    · intro heq
      obtain rfl := Option.some.inj heq
      exact ⟨.inl rfl, hi⟩
    · rintro ⟨rfl | ⟨-, hne⟩, hid⟩
      · rfl
      · exact absurd (hid.trans hi.symm) hne
  · rename_i hi
    rw [h.lookup]
    constructor
    · rintro ⟨hmem, hid⟩
      exact ⟨.inr ⟨hmem, fun heq => hi (heq.symm.trans hid)⟩, hid⟩
    · rintro ⟨rfl | ⟨hmem, -⟩, hid⟩
      · exact absurd hid hi
      · exact ⟨hmem, hid⟩

theorem Mirrors.upsertAll (h : Mirrors list map) (incidents : List Incident) :
    Mirrors (incidents.foldl (fun list incident => upsertIncident incident list) list)
      (incidents.foldl (fun map incident => map.insert incident.incidentId incident) map) := by
  induction incidents generalizing list map with
  | nil => exact h
  | cons incident rest ih => exact ih (h.upsert incident)

theorem Mirrors.keyed (h : Mirrors list map) : Keyed Incident.incidentId map :=
  fun i incident hincident => ((h.lookup i incident).mp hincident).2

theorem getD_writtenIncidents (x y : Uuid) (incidents : List Incident)
    (rows : BTreeMap Uuid (List Incident)) :
    (incidents.foldl (writeIncident x) rows).getD y [] =
      if x = y then incidents.foldl (fun list incident => upsertIncident incident list)
        (rows.getD y [])
      else rows.getD y [] := by
  induction incidents generalizing rows with
  | nil => simp
  | cons incident rest ih =>
    rw [List.foldl_cons, ih, writeIncident, Std.ExtTreeMap.getD_insert]
    by_cases hxy : x = y
    · subst hxy
      simp
    · simp [hxy]

end Incidents

section Envelope

variable {s : Store}

theorem Mirrors.fold (h : Mirrors list map) :
    list.foldl (fun m incident => m.insert incident.incidentId incident) ∅ = map := by
  refine Std.ExtTreeMap.ext_getElem? fun i => ?_
  refine getElem?_foldl_put_eq Incident.incidentId (fun incident => incident) fun incident => ?_
  rw [h.lookup]
  constructor
  · rintro ⟨hmem, hid⟩
    exact ⟨incident, hmem, hid, rfl⟩
  · rintro ⟨other, hmem, hid, rfl⟩
    exact ⟨hmem, hid⟩

theorem Rows.envelope_state {claim : Claim} (h : Rows s claim.instanceId state)
    (hrow : { row with integrityHash := none } = state.inst) (revision : ℕ) :
    (s.envelope claim row revision).state = state := by
  have hfibers : (s.instanceFibers claim.instanceId).foldl
      (fun m fiber => m.insert fiber.fiberId fiber) ∅ = state.fibers :=
    h.fibers.foldl_values h.keyed
  have hjoins : s.instanceJoins claim.instanceId = state.joinCounts := h.joins.foldl_toList
  unfold envelope PersistedSnapshotState.new
  dsimp only
  rw [hrow, hfibers, hjoins, h.incidents.fold, h.table, List.foldl_nil, ← h.pending]

end Envelope

section Writes

variable (claim : Claim) (t : Transition) (s : Store)

theorem writtenFibers_slice (hchildren : t.childStarts = []) {fibers : BTreeMap Uuid Fiber}
    (h : Slice s.fibers claim.instanceId fibers) :
    Slice (writtenFibers claim t s) claim.instanceId (applyFiberDeltas fibers t.fibersUpsert
      t.fibersDelete t.terminalCleanup.deleteAllFibers) := by
  have hupserted : Slice (upsertFiberRows claim.instanceId s.fibers t.fibersUpsert)
      claim.instanceId (upsertFibers fibers t.fibersUpsert) :=
    List.foldl_rel (r := fun rows m => Slice rows claim.instanceId m) h
      fun fiber _ rows m hm => hm.insert fiber.fiberId fiber
  have hframe : Slice (writeFrame claim t s).fibers claim.instanceId
      (deleteFibers (upsertFibers fibers t.fibersUpsert) t.fibersDelete) :=
    List.foldl_rel (r := fun rows m => Slice rows claim.instanceId m) hupserted
      fun fiberId _ rows m hm => hm.erase fiberId
  unfold writtenFibers applyFiberDeltas
  rw [hchildren, List.foldl_nil]
  split
  · exact Slice.clear _ _
  · exact hframe

theorem writtenJoins_slice (hjoins : t.joinMutations = []) {joins : BTreeMap JoinId ℕ}
    (h : Slice s.joinCounters claim.instanceId joins) :
    Slice (writtenJoins claim t s) claim.instanceId
      (if t.terminalCleanup.deleteAllJoins then ∅ else joins) := by
  have hframe : (writeFrame claim t s).joinCounters = s.joinCounters := by
    simp only [writeFrame, hjoins, List.foldl_nil]
  unfold writtenJoins
  rw [hframe]
  split
  · exact Slice.clear _ _
  · exact h

end Writes

section Commit

variable (H : StoreHost) (now : Timestamp) (activationId : Uuid) (claim : Claim) (t : Transition)
  (s : Store)

/-- The rows a snapshot of the store is taken from. -/
def aggregate (s : Store) :
    BTreeMap Uuid ProcessInstance × BTreeMap (Uuid × Uuid) Fiber × BTreeMap (Uuid × JoinId) ℕ ×
      BTreeMap Uuid (List Incident) × BTreeMap Uuid ConcurrencyTable :=
  (s.instances, s.fibers, s.joinCounters, s.incidents, s.concurrencyTables)

theorem finished_aggregate (start : Bool) (snapshot : ProcessInstance) :
    (finished H now activationId claim t start snapshot s).aggregate =
      (s.instances, s.fibers, s.joinCounters, s.incidents, writtenTables claim t s) := by
  have hevents := congrArg aggregate (appendEvents_exceptEvents claim.instanceId t.events s)
  have htables := writeRevision_concurrencyTables claim t s start
  simp only [aggregate, exceptEvents, Prod.mk.injEq] at hevents
  obtain ⟨hinstances, hfibers, hjoins, hincidents, -⟩ := hevents
  refine (congrArg aggregate (settleLease_exceptLeases ..)).trans ?_
  simp only [aggregate, exceptLeases, appendJournal, htables]
  simp only [writeRevision, hinstances, hfibers, hjoins, hincidents]

theorem committed_aggregate (hchildren : t.childStarts = []) :
    (committed H now activationId claim t s).aggregate =
      (s.instances.insert claim.instanceId (committedInstance H claim t s), writtenFibers claim t s,
        writtenJoins claim t s, writtenIncidents claim t s, writtenTables claim t s) := by
  have hchronicle := childrenStaged_chronicle H claim t s
  simp only [chronicle, Prod.mk.injEq] at hchronicle
  have hrows : (rowsWritten H claim t s).instances =
      s.instances.insert claim.instanceId (committedInstance H claim t s) := by
    unfold rowsWritten
    rw [hchildren]
    exact hchronicle.1
  have htables : writtenTables claim t (rowsWritten H claim t s) = writtenTables claim t s := by
    unfold writtenTables
    rw [rowsWritten_concurrencyTables]
  unfold committed
  rw [finished_aggregate, hrows, rowsWritten_fibers, rowsWritten_joinCounters,
    rowsWritten_incidents, htables]

theorem committedEnvelope_eq (hchildren : t.childStarts = []) :
    committedEnvelope H claim t s = (committed H now activationId claim t s).envelope claim
      (committedInstance H claim t s) (newRevision claim (s.isStart claim)) := by
  have haggregate := committed_aggregate H now activationId claim t s hchildren
  simp only [aggregate, Prod.mk.injEq] at haggregate
  obtain ⟨-, hfibers, hjoins, hincidents, htables⟩ := haggregate
  exact envelope_congr claim hfibers.symm hjoins.symm hincidents.symm htables.symm _ _

variable {claim t s}

/-- The state of the materialized snapshot, where the transition counts no join and does not override
the state. -/
theorem materializeSnapshot_state (hoverride : t.stateOverride = none) (hjoins : t.joinMutations = [])
    (h : Rows s claim.instanceId prior) (artifactAbi revision : ℕ) :
    (materializeSnapshot prior t artifactAbi revision).state =
      { inst := { t.nextSnapshot with integrityHash := none }
        fibers := applyFiberDeltas prior.fibers t.fibersUpsert t.fibersDelete
          t.terminalCleanup.deleteAllFibers
        joinCounts := if t.terminalCleanup.deleteAllJoins then ∅ else prior.joinCounts
        incidents := t.incidents.foldl
          (fun incidents incident => incidents.insert incident.incidentId incident) prior.incidents
        concurrencyTable :=
          ConcurrencyTable.applyMutations prior.concurrencyTable t.concurrencyMutations
        pendingEffects := ∅ } := by
  have hfibers := foldl_insert_values (keyed_applyFiberDeltas h.keyed t.fibersUpsert t.fibersDelete
    t.terminalCleanup.deleteAllFibers)
  have hfold := foldl_insert_values (keyed_foldl_insert t.incidents h.incidents.keyed)
  have heffects := foldl_insert_toList prior.pendingEffects
  rw [h.pending] at heffects
  unfold applyFiberDeltas at hfibers
  simp only [materializeSnapshot, PersistedSnapshotState.new, hoverride, hjoins,
    List.foldl_nil, hfold, heffects, h.pending, applyFiberDeltas, hfibers]

theorem Rows.committed (h : Rows s claim.instanceId prior) (hoverride : t.stateOverride = none)
    (hjoins : t.joinMutations = []) (hchildren : t.childStarts = []) (artifactAbi revision : ℕ) :
    Rows (Store.committed H now activationId claim t s) claim.instanceId
      (materializeSnapshot prior t artifactAbi revision).state := by
  have haggregate := committed_aggregate H now activationId claim t s hchildren
  simp only [aggregate, Prod.mk.injEq] at haggregate
  obtain ⟨-, hfibers, hcounters, hincidents, htables⟩ := haggregate
  rw [materializeSnapshot_state hoverride hjoins h]
  constructor
  · rw [hfibers]
    exact writtenFibers_slice claim t s hchildren h.fibers
  · exact keyed_applyFiberDeltas h.keyed _ _ _
  · rw [hcounters]
    exact writtenJoins_slice claim t s hjoins h.joins
  · rw [hincidents, writtenIncidents, getD_writtenIncidents, if_pos rfl]
    exact h.incidents.upsertAll t.incidents
  · rw [htables, writtenTables, Std.ExtTreeMap.getD_insert_self, h.table]
  · rfl

theorem committed_instances (hchildren : t.childStarts = []) :
    (Store.committed H now activationId claim t s).instances =
      s.instances.insert claim.instanceId (committedInstance H claim t s) :=
  (Prod.mk.inj (committed_aggregate H now activationId claim t s hchildren)).1

theorem committedInstance_forget (hoverride : t.stateOverride = none)
    (hquarantine : ∀ row, s.instances[claim.instanceId]? = some row →
      t.nextSnapshot.quarantineState = row.quarantineState) :
    { committedInstance H claim t s with integrityHash := none } =
      { t.nextSnapshot with integrityHash := none } := by
  unfold committedInstance
  rw [hoverride]
  cases hrow : s.instances[claim.instanceId]? with
  | none => rfl
  | some row =>
    dsimp only
    rw [← hquarantine row hrow]

theorem Holds.quarantineState (h : Holds s claim.instanceId prior) (ht : t.Tame prior.inst)
    (hrow : s.instances[claim.instanceId]? = some row) :
    t.nextSnapshot.quarantineState = row.quarantineState := by
  obtain ⟨row', hrow', hforget⟩ := h.inst
  obtain rfl := Option.mem_unique hrow' hrow
  have hidentity := ht.identity
  rw [← hforget] at hidentity
  simp only [ProcessInstance.identity, Prod.mk.injEq] at hidentity
  exact hidentity.2.2.2.2.2.2.2.2.2.1

theorem Holds.committed (h : Holds s claim.instanceId prior) (ht : t.Tame prior.inst)
    (artifactAbi revision : ℕ) :
    Holds (Store.committed H now activationId claim t s) claim.instanceId
      (materializeSnapshot prior t artifactAbi revision).state := by
  have hrows := h.toRows.committed H now activationId ht.plain.override ht.plain.joins
    ht.plain.children artifactAbi revision
  refine ⟨hrows, committedInstance H claim t s, ?_, ?_⟩
  · rw [committed_instances H now activationId ht.plain.children, getElem?_insert, if_pos rfl]
  · rw [materializeSnapshot_state ht.plain.override ht.plain.joins h.toRows]
    exact committedInstance_forget H ht.plain.override fun row => h.quarantineState ht

/-- The state an instance starts from, before the first commit has written anything. -/
def unstarted (inst : ProcessInstance) : PersistedSnapshotState where
  inst
  fibers := ∅
  joinCounts := ∅
  incidents := ∅
  concurrencyTable := ∅
  pendingEffects := ∅

theorem rows_empty (x : Uuid) (inst : ProcessInstance) : Rows {} x (unstarted inst) :=
  ⟨fun k => by simp [unstarted], keyed_empty _, fun k => by simp [unstarted],
    ⟨by simp, fun i incident => by simp [unstarted]⟩, by simp [unstarted], rfl⟩

theorem derivePostTransitionFrame_eq (hoverride : t.stateOverride = none)
    (hjoins : t.joinMutations = []) (h : Rows s claim.instanceId prior)
    (dedupe : JobKey → Option JobCompletion) (messages : List ClaimedBufferedMessage)
    (artifactAbi revision : ℕ) :
    derivePostTransitionFrame { prior.toRuntimeSnapshot with dedupe, bufferedMessages := messages } t =
      ((materializeSnapshot prior t artifactAbi revision).state.fibers,
        (materializeSnapshot prior t artifactAbi revision).state.concurrencyTable) := by
  have hfibers : prior.toRuntimeSnapshot.fibers = prior.fibers := foldl_insert_values h.keyed
  rw [materializeSnapshot_state hoverride hjoins h]
  unfold derivePostTransitionFrame
  dsimp only
  rw [hfibers]
  rfl

end Commit

section Agreement

variable {H : StoreHost} {now : Timestamp} {activationId : Uuid} {claim : Claim} {t : Transition}
  {s s' : Store} {revision : ℕ}

theorem committed_snapshot (h : commitTransition H now activationId claim t s = .ok revision s')
    (hchildren : t.childStarts = []) (hrows : Rows s' claim.instanceId state)
    (hforget : { committedInstance H claim t (pendingWritten claim t s) with integrityHash := none }
      = state.inst) :
    s'.snapshots[claim.instanceId]? =
        some ⟨currentArtifactAbi, state.inst.bytecodeVersion, revision, state⟩ ∧
      ∃ record, (s'.journals.getD claim.instanceId []).getLast? = some record ∧
        H.stateHash ⟨currentArtifactAbi, state.inst.bytecodeVersion, revision, state⟩ =
          .ok record.stateHash ∧
        record.newRevision = revision ∧ record.artifactHash = state.inst.bytecodeVersion := by
  obtain ⟨hcommits, hrevision, rfl⟩ := (commitTransition_eq_ok H now activationId claim t s).mp h
  set staged := pendingWritten claim t s with hstaged
  have hhashable := ((accepts_congr H claim t (pendingWritten_exceptPending claim t s)).mpr
    hcommits.accepts).hashable
  have hversion : (committedInstance H claim t staged).bytecodeVersion = state.inst.bytecodeVersion :=
    (congrArg ProcessInstance.bytecodeVersion hforget :)
  have henvelope : committedEnvelope H claim t staged =
      ⟨currentArtifactAbi, state.inst.bytecodeVersion, revision, state⟩ := by
    rw [committedEnvelope_eq H now activationId claim t staged hchildren, ← hrevision, ← hversion]
    exact congrArg (SnapshotEnvelope.mk _ _ _) (hrows.envelope_state hforget revision)
  have hhistory := committed_history_self H now activationId claim t staged
  rw [envelope_rowsWritten, henvelope] at hhistory
  rw [← hstaged, henvelope] at hhashable
  have hjournal := congrArg History.journal hhistory
  refine ⟨congrArg History.snapshot hhistory, _,
    (congrArg List.getLast? hjournal).trans List.getLast?_concat, ?_, hrevision.symm, hversion⟩
  change _ = Except.ok (digestOf H ((writeRevision claim t (staged.isStart claim)
    (rowsWritten H claim t staged)).envelope claim (committedInstance H claim t staged)
    (newRevision claim (staged.isStart claim))))
  rw [envelope_rowsWritten, henvelope]
  exact stateHash_of_hashable hhashable

theorem Rows.congr (h : Rows s x state) (hs : s.aggregate = s'.aggregate) : Rows s' x state := by
  simp only [aggregate, Prod.mk.injEq] at hs
  obtain ⟨-, hfibers, hjoins, hincidents, htables⟩ := hs
  exact ⟨hfibers ▸ h.fibers, h.keyed, hjoins ▸ h.joins, hincidents ▸ h.incidents,
    htables ▸ h.table, h.pending⟩

theorem Holds.congr (h : Holds s x state) (hs : s.aggregate = s'.aggregate) : Holds s' x state :=
  ⟨h.toRows.congr hs, (Prod.mk.inj hs).1 ▸ h.inst⟩

theorem pendingWritten_aggregate : (pendingWritten claim t s).aggregate = s.aggregate :=
  (congrArg aggregate (pendingWritten_exceptPending claim t s) :)

theorem Holds.of_commit (h : Holds s claim.instanceId prior) (ht : t.Tame prior.inst)
    (hcommit : commitTransition H now activationId claim t s = .ok revision s') (artifactAbi : ℕ) :
    Holds s' claim.instanceId (materializeSnapshot prior t artifactAbi revision).state := by
  obtain ⟨-, -, rfl⟩ := (commitTransition_eq_ok H now activationId claim t s).mp hcommit
  exact (h.congr pendingWritten_aggregate.symm).committed H now activationId ht artifactAbi _

theorem Rows.holds_of_start (h : Rows s claim.instanceId (unstarted inst))
    (hnew : s.instances[claim.instanceId]? = none) (hoverride : t.stateOverride = none)
    (hjoins : t.joinMutations = []) (hchildren : t.childStarts = [])
    (hcommit : commitTransition H now activationId claim t s = .ok revision s') (artifactAbi : ℕ) :
    Holds s' claim.instanceId (materializeSnapshot (unstarted inst) t artifactAbi revision).state := by
  obtain ⟨-, -, rfl⟩ := (commitTransition_eq_ok H now activationId claim t s).mp hcommit
  have hrows : Rows (pendingWritten claim t s) claim.instanceId (unstarted inst) :=
    h.congr pendingWritten_aggregate.symm
  have hinstances : (pendingWritten claim t s).instances = s.instances :=
    (Prod.mk.inj pendingWritten_aggregate).1
  refine ⟨hrows.committed H now activationId hoverride hjoins hchildren artifactAbi _,
    committedInstance H claim t (pendingWritten claim t s), ?_, ?_⟩
  · rw [committed_instances H now activationId hchildren, getElem?_insert, if_pos rfl]
  · rw [materializeSnapshot_state hoverride hjoins h]
    refine committedInstance_forget H hoverride fun row hrow => ?_
    rw [hinstances, hnew] at hrow
    cases hrow

theorem claim_aggregate {tenantId owner freshToken : String} {leaseMs now : ℕ} {c : Claim}
    (h : (s.perform H (.claim tenantId x owner freshToken leaseMs now)).1 = .granted c) :
    (s.perform H (.claim tenantId x owner freshToken leaseMs now)).2.aggregate = s.aggregate := by
  obtain ⟨l, hgrants⟩ := grants_of_perform (Prod.ext h rfl)
  exact (congrArg aggregate hgrants.store :)

/-- Whatever the kernel returns for a snapshot that the store holds: the frame Ring 3 derives, the
snapshot the kernel materializes and the rows the store writes are the same, and the journal gets the
hash of that snapshot. -/
theorem folds_agree {workflow : ExecutableWorkflow} {dedupe : JobKey → Option JobCompletion}
    {messages : List ClaimedBufferedMessage} {command : Command} {context : DeterministicContext}
    (happly : apply H.toHost workflow
      { prior.toRuntimeSnapshot with dedupe, bufferedMessages := messages } command context = .ok t)
    (hholds : Holds s claim.instanceId prior)
    (hcommit : commitTransition H now activationId claim t s = .ok revision s') :
    let next := materializeSnapshot prior t currentArtifactAbi revision
    derivePostTransitionFrame { prior.toRuntimeSnapshot with dedupe, bufferedMessages := messages } t =
        (next.state.fibers, next.state.concurrencyTable) ∧
      Holds s' claim.instanceId next.state ∧ s'.snapshots[claim.instanceId]? = some next ∧
      ∃ record, (s'.journals.getD claim.instanceId []).getLast? = some record ∧
        H.stateHash next = .ok record.stateHash := by
  intro next
  have ht : t.Tame prior.inst := apply_tame happly
  have hstaged : Holds (pendingWritten claim t s) claim.instanceId prior :=
    hholds.congr pendingWritten_aggregate.symm
  have hnext : Holds s' claim.instanceId next.state :=
    hholds.of_commit ht hcommit currentArtifactAbi
  have hinst : next.state.inst = { t.nextSnapshot with integrityHash := none } := by
    rw [materializeSnapshot_state ht.plain.override ht.plain.joins hholds.toRows]
  have hforget : { committedInstance H claim t (pendingWritten claim t s) with integrityHash := none } =
      next.state.inst := by
    rw [hinst]
    exact committedInstance_forget H ht.plain.override fun row => hstaged.quarantineState ht
  have henvelope : next =
      ⟨currentArtifactAbi, next.state.inst.bytecodeVersion, revision, next.state⟩ := by
    rw [hinst]
    simp only [next, materializeSnapshot, ht.plain.override]
  obtain ⟨hsnapshot, record, hlast, hhash, -⟩ :=
    committed_snapshot hcommit ht.plain.children hnext.toRows hforget
  rw [← henvelope] at hsnapshot hhash
  exact ⟨derivePostTransitionFrame_eq ht.plain.override ht.plain.joins hholds.toRows dedupe messages
    currentArtifactAbi revision, hnext, hsnapshot, record, hlast, hhash⟩

end Agreement

end BpmnLite.Store

namespace BpmnLite.Reference

open Store

/-- The store after the first commit of the instance and a claim on it. -/
def claimed : Store := Store.after storeHost [started, claimBy "a" 0] {}

def opened : PersistedSnapshotState :=
  (materializeSnapshot (unstarted inst)
    { nextSnapshot := inst, fibersUpsert := [{ fiberId := 1, pc := 0 }] } currentArtifactAbi 0).state

def forking : Except TransitionError Transition :=
  apply host joined opened.toRuntimeSnapshot (.tick none) ⟨0, 0, 1⟩

def outcome : EStateM.Result CommitStop Store ℕ → Option (ℕ × Store)
  | .ok revision s => some (revision, s)
  | .error _ _ => none

theorem eq_ok_of_outcome {r : EStateM.Result CommitStop Store ℕ} {p : ℕ × Store → Bool}
    (h : (outcome r).any p) : ∃ revision s, r = .ok revision s ∧ p (revision, s) := by
  cases r with
  | ok revision s => exact ⟨revision, s, rfl, h⟩
  | error stop s => simp [outcome] at h

theorem holds_opened : Holds claimed 0 opened := by
  let root : Transition := { nextSnapshot := inst, fibersUpsert := [{ fiberId := 1, pc := 0 }] }
  let c : Claim := ⟨"", 0, 0, 0, ""⟩
  obtain ⟨revision, begun, hbegun, hrevision⟩ := eq_ok_of_outcome
    (r := commitTransition storeHost 0 0 c root {}) (p := fun result => result.1 = 0)
    (by decide +kernel)
  obtain rfl : revision = 0 := by simpa using hrevision
  have hholds : Holds begun 0 opened :=
    (rows_empty c.instanceId inst).holds_of_start (by simp) rfl rfl rfl hbegun currentArtifactAbi
  have hclaimed : claimed = (begun.perform storeHost (claimBy "a" 0)).2 := by
    simp only [claimed, Store.after, List.foldl_cons, List.foldl_nil, started, Store.perform]
    rw [hbegun]
  have hgranted : (begun.perform storeHost (claimBy "a" 0)).1 = .granted ⟨"", 0, 0, 1, "a"⟩ := by
    have hrun : ((Store.after storeHost [started] {}).perform storeHost (claimBy "a" 0)).1 =
        .granted ⟨"", 0, 0, 1, "a"⟩ := by decide +kernel
    simp only [Store.after, List.foldl_cons, List.foldl_nil, started, Store.perform] at hrun
    rwa [hbegun] at hrun
  rw [hclaimed]
  exact hholds.congr (claim_aggregate hgranted).symm

/-- A fork deletes a fibre, starts two and inserts a record, in all three folds. -/
theorem forked_folds_agree : ∃ t s', forking = .ok t ∧ t.fibersDelete ≠ [] ∧
    t.concurrencyMutations.length = 1 ∧
    commitTransition storeHost 0 1 ⟨"", 0, 0, 1, "a"⟩ t claimed = .ok 1 s' ∧
    s'.snapshots[(0 : Uuid)]? = some (materializeSnapshot opened t currentArtifactAbi 1) := by
  obtain ⟨t, ht, hparts⟩ := ok_of_check (x := forking)
    (fun t => t.fibersDelete ≠ [] ∧ t.concurrencyMutations.length = 1) (by decide +kernel)
  have hran : (forking.toOption.map fun t => (outcome (commitTransition storeHost 0 1
      ⟨"", 0, 0, 1, "a"⟩ t claimed)).any (fun result => result.1 = 1)) = some true := by
    decide +kernel
  simp only [ht, Except.toOption, Option.map_some, Option.some.injEq] at hran
  obtain ⟨revision, s', hcommit, hrevision⟩ := eq_ok_of_outcome hran
  obtain rfl : revision = 1 := by simpa using hrevision
  obtain ⟨-, -, hsnapshot, -⟩ := folds_agree (H := storeHost) ht holds_opened hcommit
  obtain ⟨hdeletes, hrecords⟩ := of_decide_eq_true hparts
  exact ⟨t, s', ht, hdeletes, hrecords, hcommit, hsnapshot⟩

end BpmnLite.Reference
