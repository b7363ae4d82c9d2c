import BpmnLite.Store.Activations
import BpmnLite.Store.Journal
import BpmnLite.Kernel.Writes

/-!
# No runnable instance is forgotten

Schedulers claim activations, drain the instances they name and consume them, while others claim,
commit and release the same instances. An activation is queued under the revision whose commit left
a fibre running. No revision is committed twice, so the activation of the current revision is not
dropped as a repetition; and it is consumed only by a scheduler that has seen a snapshot in which
nothing runs, which is then the snapshot of a later revision or one that needs no activation.
-/

namespace BpmnLite

variable {s' : Store} {operation : Operation} {id x : Uuid} {r revision : ℕ}

/-- The instance is running and one of its fibres can go on at once. -/
def PersistedSnapshotState.Runnable (state : PersistedSnapshotState) : Prop :=
  state.inst.state = .running ∧ ∃ fiber ∈ state.fibers.values, fiber.wait = .running

/-- The engine finds nothing to do in the snapshot it has loaded. -/
def Snapshot.Quiescent (snapshot : Snapshot) : Prop :=
  snapshot.inst.state ≠ .running ∨ ∀ fiber ∈ snapshot.fibers.values, fiber.wait ≠ .running

namespace Store

open Maps Abort

def queue (s : Store) :
    BTreeMap Uuid MemoryActivation × BTreeMap (String × Uuid) Uuid × ℕ :=
  (s.activations, s.activationDedupe, s.activationSeqCounter)

def agenda (s : Store) : BTreeMap Uuid SnapshotEnvelope ×
    BTreeMap Uuid MemoryActivation × BTreeMap (String × Uuid) Uuid × ℕ :=
  (s.snapshots, s.queue)

theorem Calls.agenda {H : StoreHost} {s : Store} {reply : Reply} (h : Calls H s operation reply s')
    (hother : ∀ c t now id, operation ≠ .commit c t now id) : s'.agenda = s.agenda := by
  cases h with
  | commit => exact absurd rfl (hother _ _ _ _)
  | idle | quarantined | granted | released => rfl

section Commit

variable (H : StoreHost) (now : Timestamp) (activationId : Uuid) (claim : Claim) (t : Transition)

theorem writeRevision_agenda (start : Bool) (s : Store) :
    (writeRevision claim t start s).agenda = s.agenda :=
  (congrArg agenda (appendEvents_exceptEvents claim.instanceId t.events s) :)

theorem commitTransition_spares (hchildren : t.childStarts = []) :
    Stops (fun before after => after = before) agenda
      (commitTransition H now activationId claim t) := by
  refine commitTransition_stops H now activationId claim t
    (Q := fun before after => after = before) (fun _ => rfl) (fun _ => rfl) ?_
  intro s stop s' h
  rw [writeTransition_apply] at h
  have hrows : Fixes agenda (writeRows claim t) := by
    refine writeRows_fixes claim t (fun _ => rfl) (fun s => ?_) (fun _ => rfl) fun _ => rfl
    unfold cleanUp
    split_ifs <;> rfl
  have hstaged : s'.agenda = (jobsStaged H claim t s).agenda := by
    refine Fixes.bind_stops (Q := fun before after => after = before) (fun _ => rfl) hrows
      (fun _ => ?_) _ stop s' h
    rw [hchildren, forM_nil, pure_bind]
    exact finish_stops H now activationId claim t (Q := fun before after => after = before)
      (fun _ => rfl) _ _ (writeRevision_agenda claim t _)
  exact hstaged.trans (congrArg agenda (jobsStaged_exceptJobs H claim t s) :)

theorem rowsWritten_agenda (hchildren : t.childStarts = []) (s : Store) :
    (rowsWritten H claim t s).agenda = s.agenda := by
  have hstages := congrArg agenda (childrenStaged_exceptRecords H claim t s)
  have hcleaned : (cleanUp claim t (jobsWritten H claim t s)).agenda =
      (jobsWritten H claim t s).agenda := by
    unfold cleanUp
    split_ifs <;> rfl
  have hjobs := congrArg agenda (jobsWritten_exceptJobs H claim t s)
  unfold rowsWritten
  rw [hchildren]
  exact hstages.trans (hcleaned.trans hjobs)

theorem mem_foldl_fiber {fibers : List Fiber} {f : Fiber}
    (h : f ∈ (fibers.foldl (fun m (fiber : Fiber) => m.insert fiber.fiberId fiber)
      (∅ : BTreeMap Uuid Fiber)).values) : f ∈ fibers := by
  obtain ⟨k, hk⟩ := mem_values.mp h
  rw [getElem?_foldl_insert] at hk
  simp only [Std.ExtTreeMap.getElem?_empty, Option.or_none] at hk
  exact List.mem_reverse.mp (List.mem_of_find?_eq_some hk)

/-- The activation the commit queues when it leaves a fibre running. -/
def queueNext (revision : ℕ) (s : Store) : Store :=
  enqueueActivation now activationId claim.tenantId claim.instanceId
    (H.uuidOfSeed (.runnable claim.instanceId revision)) "tick" (.tick none) none s

theorem queueNext_snapshots (revision : ℕ) (s : Store) :
    (queueNext H now activationId claim revision s).snapshots = s.snapshots := by
  unfold queueNext enqueueActivation
  split <;> rfl

theorem queueNext_queue (revision : ℕ) {s : Store} (h : s.queue = s'.queue) :
    (queueNext H now activationId claim revision s).queue =
      (queueNext H now activationId claim revision s').queue := by
  simp only [queue, Prod.mk.injEq] at h
  obtain ⟨hactivations, hdedupe, hcounter⟩ := h
  unfold queueNext enqueueActivation
  rw [hdedupe]
  split
  · simp only [queue, hactivations, hdedupe, hcounter]
  · simp only [queue, hactivations, hcounter]

theorem settleLease_agenda (snapshot : ProcessInstance) (revision : ℕ) (s : Store) :
    (settleLease H claim now activationId snapshot revision s).snapshots = s.snapshots ∧
      (¬ (s.envelope claim snapshot revision).state.Runnable ∧
          (settleLease H claim now activationId snapshot revision s).queue = s.queue ∨
        (settleLease H claim now activationId snapshot revision s).queue =
          (queueNext H now activationId claim revision s).queue) := by
  unfold settleLease
  split
  · rename_i hidle
    refine ⟨rfl, .inl ⟨?_, rfl⟩⟩
    rintro ⟨hrunning, f, hf, hwait⟩
    rcases hidle with hstate | hfibers
    · exact hstate hrunning
    · apply hfibers
      rw [hasRunningFiber, List.any_eq_true]
      exact ⟨f, mem_foldl_fiber hf, by simpa using hwait⟩
  · exact ⟨queueNext_snapshots H now activationId claim revision s, .inr rfl⟩

theorem committed_agenda (hchildren : t.childStarts = []) (s : Store) :
    ∃ e : SnapshotEnvelope, e.revision = newRevision claim (s.isStart claim) ∧
      Keyed Fiber.fiberId e.state.fibers ∧
      (committed H now activationId claim t s).snapshots = s.snapshots.insert claim.instanceId e ∧
      (¬ e.state.Runnable ∧ (committed H now activationId claim t s).queue = s.queue ∨
        (committed H now activationId claim t s).queue =
          (queueNext H now activationId claim e.revision s).queue) := by
  let rows := writeRevision claim t (s.isStart claim) (rowsWritten H claim t s)
  have hrows : rows.agenda = s.agenda :=
    (writeRevision_agenda claim t _ _).trans (rowsWritten_agenda H claim t hchildren s)
  obtain ⟨hsnapshots, hqueue⟩ := Prod.mk.inj hrows
  let e := rows.envelope claim (committedInstance H claim t s) (newRevision claim (s.isStart claim))
  let journaled := appendJournal claim.instanceId e (commitRecord H claim t (s.isStart claim)
    (committedInstance H claim t s) rows) rows
  have hjournaled : journaled.snapshots = s.snapshots.insert claim.instanceId e :=
    congrArg (·.insert claim.instanceId e) hsnapshots
  obtain ⟨hkept, hsettled⟩ := settleLease_agenda H now activationId claim
    (committedInstance H claim t s) (newRevision claim (s.isStart claim)) journaled
  refine ⟨e, rfl, keyed_foldl_insert _ (keyed_empty _), hkept.trans hjournaled, ?_⟩
  rcases hsettled with ⟨hidle, hsame⟩ | hqueued
  · exact .inl ⟨hidle, hsame.trans hqueue⟩
  · exact .inr (hqueued.trans (queueNext_queue H now activationId claim _ hqueue))

end Commit

end Store

def MemoryActivation.IsQueued (activation : MemoryActivation) : Prop :=
  activation.status = .ready ∨ activation.status = .claimed

/-- The same activation later on, queued as long as nobody consumes it. -/
structure MemoryActivation.Becomes (a a' : MemoryActivation) : Prop where
  instanceId : a'.instanceId = a.instanceId
  commandId : a'.commandId = a.commandId
  queued : a.IsQueued → a'.IsQueued

theorem MemoryActivation.Becomes.refl (a : MemoryActivation) : a.Becomes a := ⟨rfl, rfl, id⟩

namespace Store

open Maps

/-- Activations change hands and none comes or goes. -/
structure Requeues (s s' : Store) : Prop where
  rest : { s' with activations := ∅ } = { s with activations := ∅ }
  rows : ∀ id : Uuid, Option.Rel MemoryActivation.Becomes s.activations[id]? s'.activations[id]?

theorem Requeues.refl (s : Store) : Requeues s s := by
  refine ⟨rfl, fun id => ?_⟩
  cases s.activations[id]? with
  | none => exact .none
  | some a => exact .some (.refl a)

theorem Requeues.insert {s : Store} (h : Requeues s s') {a a' : MemoryActivation}
    (ha : s.activations[id]? = some a) (hbecomes : a.Becomes a') :
    Requeues s { s' with activations := s'.activations.insert id a' } := by
  refine ⟨h.rest, fun other => ?_⟩
  simp only [getElem?_insert]
  split
  · rename_i hid
    subst hid
    rw [ha]
    exact .some hbecomes
  · exact h.rows other

section Calls

variable (s : Store)

theorem claimCandidates_requeue (owner : String) (limit : ℕ) (expiresAt : Timestamp)
    (freshToken : ℕ → String) (rows : List (Uuid × MemoryActivation))
    (hrows : ∀ row ∈ rows, s.activations[row.1]? = some row.2)
    (batch : List ClaimedActivation × Store) (hbatch : Requeues s batch.2)
    (hclaimed : ∀ c ∈ batch.1, ∃ a, s.activations[c.activationId]? = some a ∧
      a.instanceId = c.instanceId) :
    Requeues s (rows.foldl (claimCandidate owner limit expiresAt freshToken) batch).2 ∧
      ∀ c ∈ (rows.foldl (claimCandidate owner limit expiresAt freshToken) batch).1,
        ∃ a, s.activations[c.activationId]? = some a ∧ a.instanceId = c.instanceId := by
  induction rows generalizing batch with
  | nil => exact ⟨hbatch, hclaimed⟩
  | cons row rest ih =>
    have hrow := hrows row List.mem_cons_self
    rw [List.foldl_cons]
    apply ih (fun other hother => hrows other (List.mem_cons_of_mem _ hother))
    · unfold claimCandidate
      dsimp only
      split
      · exact hbatch
      · exact hbatch.insert hrow ⟨rfl, rfl, fun _ => .inr rfl⟩
    · unfold claimCandidate
      dsimp only
      split
      · exact hclaimed
      · intro c hc
        rcases List.mem_append.mp hc with hold | hnew
        · exact hclaimed c hold
        · obtain rfl := List.mem_singleton.mp hnew
          exact ⟨row.2, hrow, rfl⟩

theorem claimReadyActivations_requeue (tenantId owner : String) (limit leaseMs : ℕ)
    (now : Timestamp) (freshToken : ℕ → String) :
    Requeues s (s.claimReadyActivations tenantId owner limit leaseMs now freshToken).2 ∧
      ∀ c ∈ (s.claimReadyActivations tenantId owner limit leaseMs now freshToken).1,
        ∃ a, s.activations[c.activationId]? = some a ∧ a.instanceId = c.instanceId := by
  apply claimCandidates_requeue
  · intro row hrow
    have hmem := List.mem_mergeSort.mp hrow
    exact Std.ExtTreeMap.mem_toList_iff_getElem?_eq_some.mp (List.mem_filter.mp hmem).1
  · exact .refl s
  · simp

theorem releaseActivationToReady_requeue (activation : ClaimedActivation)
    (notBeforeMs : Option ℕ) (now : Timestamp) :
    Requeues s (s.releaseActivationToReady activation notBeforeMs now) := by
  unfold releaseActivationToReady
  split
  · rename_i row hrow
    split
    · exact (Requeues.refl s).insert hrow ⟨rfl, rfl, fun _ => .inl rfl⟩
    · exact .refl s
  · exact .refl s

theorem reclaimExpiredActivations_requeue (now : Timestamp) :
    Requeues s (s.reclaimExpiredActivations now).2 := by
  refine ⟨rfl, fun id => ?_⟩
  simp only [reclaimExpiredActivations, Std.ExtTreeMap.getElem?_map]
  cases s.activations[id]? with
  | none => exact .none
  | some a =>
    refine .some ?_
    dsimp only
    split
    · exact ⟨rfl, rfl, fun _ => .inl rfl⟩
    · exact .refl a

theorem consumeActivation_cases (activation : ClaimedActivation) :
    (s.consumeActivation activation).2 = s ∨ (s.consumeActivation activation).2 =
      { s with activations := s.activations.erase activation.activationId } := by
  unfold consumeActivation
  split
  · exact .inr rfl
  · exact .inl rfl

end Calls

end Store

/-- A claimed activation in the hands of a scheduler, which may have drained the instance. -/
structure Task where
  activation : ClaimedActivation
  drained : Bool := false

/-- The store, the calls it has answered and the tasks of all schedulers. -/
structure Scheduler where
  store : Store := {}
  seen : List Store.Turn := []
  tasks : List Task := []

namespace Scheduler

open Store Maps

variable (H : StoreHost)

/-- A commit starts no children, as no transition of the kernel does, and draws an activation id that
has not been used. -/
def Admits (σ : Scheduler) : Operation → Prop
  | .commit _ t _ activationId => t.childStarts = [] ∧ activationId ∉ σ.store.activations ∧
      ∀ task ∈ σ.tasks, task.activation.activationId ≠ activationId
  | _ => True

def perform (σ : Scheduler) (operation : Operation) : Scheduler :=
  { σ with
    store := (σ.store.perform H operation).2
    seen := σ.seen ++ [⟨σ.store, operation, (σ.store.perform H operation).1⟩] }

/-- One step of anybody: a claim, a commit or a release on an instance, a call that has to do with
neither instances nor activations, or a step of a scheduler. -/
inductive Step (σ : Scheduler) : Scheduler → Prop
  | call (operation : Operation) (owned : operation.Owned σ.seen) (admits : σ.Admits operation) :
      Step σ (σ.perform H operation)
  | aside (s : Store) (instances : s.instances = σ.store.instances)
      (revisions : s.revisions = σ.store.revisions) (agenda : s.agenda = σ.store.agenda) :
      Step σ { σ with store := s }
  | claimReady (tenantId owner : String) (limit leaseMs : ℕ) (now : Timestamp)
      (freshToken : ℕ → String) :
      Step σ { σ with
        store := (σ.store.claimReadyActivations tenantId owner limit leaseMs now freshToken).2
        tasks := σ.tasks ++ (σ.store.claimReadyActivations tenantId owner limit leaseMs now
          freshToken).1.map fun activation => { activation } }
  | drain (activation : ClaimedActivation) (drained : Bool) (mem : ⟨activation, drained⟩ ∈ σ.tasks)
      (envelope : SnapshotEnvelope)
      (loaded : σ.store.snapshots[activation.instanceId]? = some envelope)
      (quiescent : envelope.state.toRuntimeSnapshot.Quiescent) :
      Step σ { σ with tasks := σ.tasks ++ [⟨activation, true⟩] }
  | consume (activation : ClaimedActivation) (mem : ⟨activation, true⟩ ∈ σ.tasks) :
      Step σ { σ with store := (σ.store.consumeActivation activation).2 }
  | release (task : Task) (mem : task ∈ σ.tasks) (notBeforeMs : Option ℕ) (now : Timestamp) :
      Step σ { σ with
        store := σ.store.releaseActivationToReady task.activation notBeforeMs now }
  | reclaim (now : Timestamp) :
      Step σ { σ with store := (σ.store.reclaimExpiredActivations now).2 }
  | abandon (tasks : List Task) (mem : tasks ⊆ σ.tasks) : Step σ { σ with tasks }

def Reachable (σ : Scheduler) : Prop := Relation.ReflTransGen (Step H) {} σ

def committedRevisions (σ : Scheduler) (x : Uuid) : List ℕ :=
  σ.seen.filterMap (Turn.committedOn x)

/-- The command under which the tick of a revision is queued. -/
def commandOf (x : Uuid) (revision : ℕ) : Uuid := H.uuidOfSeed (.runnable x revision)

/-- What every step preserves. The last field is about schedulers that have drained an instance: the
activation they hold is not the one the current snapshot needs. -/
structure Invariant (σ : Scheduler) : Prop where
  numbered : Numbered σ.seen σ.store
  keyed : ∀ (x : Uuid) (e : SnapshotEnvelope), σ.store.snapshots[x]? = some e →
    Keyed Fiber.fiberId e.state.fibers
  dedupe : ∀ key ∈ σ.store.activationDedupe, ∃ x, ∃ r ∈ σ.committedRevisions x,
    key.2 = commandOf H x r
  rows : ∀ (id : Uuid) (a : MemoryActivation), σ.store.activations[id]? = some a →
    ∃ r ∈ σ.committedRevisions a.instanceId, a.commandId = commandOf H a.instanceId r
  scheduled : ∀ (x : Uuid) (e : SnapshotEnvelope), σ.store.snapshots[x]? = some e →
    e.state.Runnable → ∃ (id : Uuid) (a : MemoryActivation), σ.store.activations[id]? = some a ∧
      a.instanceId = x ∧ a.commandId = commandOf H x e.revision ∧ a.IsQueued
  tasks : ∀ task ∈ σ.tasks, ∀ a, σ.store.activations[task.activation.activationId]? = some a →
    a.instanceId = task.activation.instanceId
  drained : ∀ task ∈ σ.tasks, task.drained = true →
    ∀ a, σ.store.activations[task.activation.activationId]? = some a →
    ∀ e, σ.store.snapshots[a.instanceId]? = some e → e.state.Runnable →
      a.commandId ≠ commandOf H a.instanceId e.revision

variable {H} {σ σ' : Scheduler}

theorem commandOf_injective (hH : Function.Injective H.uuidOfSeed) {y : Uuid} {r' : ℕ}
    (h : commandOf H x r = commandOf H y r') : x = y ∧ r = r' := by
  have hseed := hH h
  simpa using hseed

theorem invariant_empty : Invariant H {} := by
  have hnumbered : Numbered [] ({} : Store) := numbered_of_owned (H := H) .nil
  refine ⟨hnumbered, ?_, ?_, ?_, ?_, ?_, ?_⟩ <;> simp

theorem numbered_congr {seen : List Turn} {s : Store} (h : Numbered seen s)
    (hinstances : s'.instances = s.instances) (hsnapshots : s'.snapshots = s.snapshots)
    (hrevisions : s'.revisions = s.revisions) : Numbered seen s' := by
  refine ⟨h.granted, fun x e he => h.snapshots x e (hsnapshots ▸ he), fun x r hr => ?_, h.distinct⟩
  rw [hinstances, revision, hrevisions]
  exact h.committed x r hr

theorem Invariant.requeue (h : Invariant H σ) (hnumbered : Numbered σ'.seen σ'.store)
    (hseen : ∀ x, ∀ r ∈ σ.committedRevisions x, r ∈ σ'.committedRevisions x)
    (hsnapshots : σ'.store.snapshots = σ.store.snapshots)
    (hdedupe : σ'.store.activationDedupe = σ.store.activationDedupe)
    (hrows : ∀ id : Uuid, Option.Rel MemoryActivation.Becomes σ.store.activations[id]?
      σ'.store.activations[id]?) (htasks : σ'.tasks = σ.tasks) : Invariant H σ' := by
  -- A row there is now was there before, with the same instance and command.
  have hback : ∀ (id : Uuid) (a' : MemoryActivation), σ'.store.activations[id]? = some a' →
      ∃ a, σ.store.activations[id]? = some a ∧ a.Becomes a' := by
    intro id a' ha'
    have hrel := hrows id
    rw [ha'] at hrel
    generalize σ.store.activations[id]? = before at hrel
    cases hrel with
    | some hbecomes => exact ⟨_, rfl, hbecomes⟩
  refine ⟨hnumbered, fun x e he => h.keyed x e (hsnapshots ▸ he), fun key hkey => ?_,
    fun id a' ha' => ?_, fun x e he hrunnable => ?_, fun task htask a' ha' => ?_,
    fun task htask hdrained a' ha' e he hrunnable => ?_⟩
  · obtain ⟨x, r, hr, hcommand⟩ := h.dedupe key (hdedupe ▸ hkey)
    exact ⟨x, r, hseen x r hr, hcommand⟩
  · obtain ⟨a, ha, hbecomes⟩ := hback id a' ha'
    obtain ⟨r, hr, hcommand⟩ := h.rows id a ha
    rw [hbecomes.instanceId, hbecomes.commandId]
    exact ⟨r, hseen _ r hr, hcommand⟩
  · obtain ⟨id, a, ha, hx, hcommand, hqueued⟩ := h.scheduled x e (hsnapshots ▸ he) hrunnable
    have hrel := hrows id
    rw [ha] at hrel
    generalize hafter : σ'.store.activations[id]? = after at hrel
    cases hrel with
    | some hbecomes =>
      exact ⟨id, _, hafter, hbecomes.instanceId.trans hx, hbecomes.commandId.trans hcommand,
        hbecomes.queued hqueued⟩
  · obtain ⟨a, ha, hbecomes⟩ := hback _ a' ha'
    rw [hbecomes.instanceId]
    exact h.tasks task (htasks ▸ htask) a ha
  · obtain ⟨a, ha, hbecomes⟩ := hback _ a' ha'
    rw [hbecomes.instanceId] at he ⊢
    rw [hbecomes.commandId]
    exact h.drained task (htasks ▸ htask) hdrained a ha e (hsnapshots ▸ he) hrunnable

theorem Invariant.of_requeues (h : Invariant H σ) {s : Store} (hrequeues : Requeues σ.store s) :
    Invariant H { σ with store := s } := by
  have hrest := hrequeues.rest
  have hsnapshots : s.snapshots = σ.store.snapshots := (congrArg Store.snapshots hrest :)
  have hnumbered : Numbered σ.seen s := numbered_congr h.numbered
    (congrArg Store.instances hrest :) hsnapshots (congrArg Store.revisions hrest :)
  exact h.requeue hnumbered (fun _ _ hr => hr) hsnapshots
    (congrArg Store.activationDedupe hrest :) hrequeues.rows rfl

theorem rel_of_eq {s : Store} (h : s'.activations = s.activations) (id : Uuid) :
    Option.Rel MemoryActivation.Becomes s.activations[id]? s'.activations[id]? := by
  rw [h]
  exact (Requeues.refl s).rows id

theorem Invariant.quiet (h : Invariant H σ)
    (hnumbered : Numbered (σ.perform H operation).seen (σ.perform H operation).store)
    (hagenda : (σ.store.perform H operation).2.agenda = σ.store.agenda) :
    Invariant H (σ.perform H operation) := by
  obtain ⟨hsnapshots, hqueue⟩ := Prod.mk.inj hagenda
  obtain ⟨hactivations, hdedupe⟩ := Prod.mk.inj hqueue
  refine h.requeue hnumbered (fun x r hr => ?_) hsnapshots (Prod.mk.inj hdedupe).1
    (rel_of_eq hactivations) rfl
  exact List.mem_filterMap.mpr ((List.mem_filterMap.mp hr).imp fun turn hturn =>
    ⟨List.mem_append_left _ hturn.1, hturn.2⟩)

theorem Invariant.retask (h : Invariant H σ) {tasks : List Task}
    (htasks : ∀ task ∈ tasks, ∀ a, σ.store.activations[task.activation.activationId]? = some a →
      a.instanceId = task.activation.instanceId)
    (hdrained : ∀ task ∈ tasks, task.drained = true → task ∈ σ.tasks ∨
      ∃ e, σ.store.snapshots[task.activation.instanceId]? = some e ∧ ¬ e.state.Runnable) :
    Invariant H { σ with tasks } := by
  refine ⟨h.numbered, h.keyed, h.dedupe, h.rows, h.scheduled, htasks,
    fun task htask hisDrained a ha e he hrunnable => ?_⟩
  rcases hdrained task htask hisDrained with hold | ⟨e', he', hidle⟩
  · exact h.drained task hold hisDrained a ha e he hrunnable
  · rw [htasks task htask a ha] at he
    obtain rfl := Option.mem_unique he he'
    exact absurd hrunnable hidle

theorem Invariant.consume (h : Invariant H σ) {activation : ClaimedActivation}
    (hmem : ⟨activation, true⟩ ∈ σ.tasks) :
    Invariant H { σ with store := (σ.store.consumeActivation activation).2 } := by
  rcases consumeActivation_cases σ.store activation with hsame | herased
  · rw [hsame]
    exact h
  · rw [herased]
    have hback : ∀ (id : Uuid) (a : MemoryActivation),
        (σ.store.activations.erase activation.activationId)[id]? = some a →
        σ.store.activations[id]? = some a := by
      intro id a ha
      rw [getElem?_erase] at ha
      split at ha
      · simp at ha
      · exact ha
    refine ⟨numbered_congr h.numbered rfl rfl rfl, h.keyed, h.dedupe,
      fun id a ha => h.rows id a (hback id a ha), fun x e he hrunnable => ?_,
      fun task htask a ha => h.tasks task htask a (hback _ a ha),
      fun task htask hdrained a ha => h.drained task htask hdrained a (hback _ a ha)⟩
    obtain ⟨id, a, ha, rfl, hcommand, hqueued⟩ := h.scheduled x e he hrunnable
    refine ⟨id, a, ?_, rfl, hcommand, hqueued⟩
    change (σ.store.activations.erase activation.activationId)[id]? = some a
    rw [getElem?_erase, if_neg, ha]
    rintro rfl
    exact h.drained _ hmem rfl a ha e he hrunnable hcommand

theorem quiescent_not_runnable {state : PersistedSnapshotState}
    (hkeyed : Keyed Fiber.fiberId state.fibers) (h : state.toRuntimeSnapshot.Quiescent) :
    ¬ state.Runnable := by
  have hfibers : state.toRuntimeSnapshot.fibers = state.fibers := foldl_insert_values hkeyed
  unfold Snapshot.Quiescent at h
  rw [hfibers] at h
  rintro ⟨hrunning, f, hf, hwait⟩
  rcases h with hstate | hwaits
  · exact hstate hrunning
  · exact hwaits f hf hwait

/-- What a commit that goes through leaves of the queue: the activation of its revision, unless
nothing runs or the command has been queued before. -/
theorem committed_queue {c : Claim} {t : Transition} {now : Timestamp} {activationId : Uuid}
    {s : Store} (hchildren : t.childStarts = [])
    (h : commitTransition H now activationId c t s = .ok revision s') :
    ∃ e : SnapshotEnvelope, e.revision = revision ∧ Keyed Fiber.fiberId e.state.fibers ∧
      s'.snapshots = s.snapshots.insert c.instanceId e ∧
      ((¬ e.state.Runnable ∨
          (c.tenantId, commandOf H c.instanceId revision) ∈ s.activationDedupe) ∧
          s'.activations = s.activations ∧ s'.activationDedupe = s.activationDedupe ∨
        ∃ a : MemoryActivation, a.instanceId = c.instanceId ∧
          a.commandId = commandOf H c.instanceId revision ∧ a.IsQueued ∧
          s'.activations = s.activations.insert activationId a ∧
          s'.activationDedupe = s.activationDedupe.insert
            (c.tenantId, commandOf H c.instanceId revision) activationId) := by
  obtain ⟨-, rfl, rfl⟩ := (commitTransition_eq_ok H now activationId c t s).mp h
  have hpending : (pendingWritten c t s).agenda = s.agenda :=
    (congrArg agenda (pendingWritten_exceptPending c t s) :)
  obtain ⟨hsnapshots, hqueue⟩ := Prod.mk.inj hpending
  obtain ⟨e, hrevision, hkeyed, hwritten, hcases⟩ :=
    committed_agenda H now activationId c t hchildren (pendingWritten c t s)
  refine ⟨e, hrevision, hkeyed, hwritten.trans (by rw [hsnapshots]), ?_⟩
  rw [← hrevision]
  rcases hcases with ⟨hidle, hsame⟩ | hqueued
  · have hkept := hsame.trans hqueue
    simp only [queue, Prod.mk.injEq] at hkept
    exact .inl ⟨.inl hidle, hkept.1, hkept.2.1⟩
  · have hnext := hqueued.trans (queueNext_queue H now activationId c _ hqueue)
    simp only [queue, Prod.mk.injEq] at hnext
    obtain ⟨hactivations, hdedupe, -⟩ := hnext
    rw [hactivations, hdedupe]
    unfold queueNext enqueueActivation
    split
    · rename_i hrepeated
      exact .inl ⟨.inr hrepeated, rfl, rfl⟩
    · exact .inr ⟨_, rfl, rfl, .inl rfl, rfl, rfl⟩

theorem mem_committedRevisions_perform :
    r ∈ (σ.perform H operation).committedRevisions x ↔ r ∈ σ.committedRevisions x ∨
      Turn.committedOn x ⟨σ.store, operation, (σ.store.perform H operation).1⟩ = some r := by
  simp only [committedRevisions, perform, List.filterMap_append, List.mem_append,
    List.mem_filterMap, List.mem_singleton, exists_eq_left]

theorem Invariant.committed (hH : Function.Injective H.uuidOfSeed) (h : Invariant H σ) {c : Claim}
    {t : Transition} {now : Timestamp} {activationId : Uuid}
    (howned : (Operation.commit c t now activationId).Owned σ.seen)
    (hadmits : σ.Admits (.commit c t now activationId))
    (hcommit : commitTransition H now activationId c t σ.store = .ok revision s') :
    Invariant H (σ.perform H (.commit c t now activationId)) := by
  obtain ⟨hchildren, hfresh, hunused⟩ := hadmits
  have hnumbered := h.numbered.commit (H := H) howned
  obtain ⟨e, hrevision, hkeyed, hsnapshots, hqueue⟩ := committed_queue hchildren hcommit
  have hperform : σ.store.perform H (.commit c t now activationId) = (.committed revision, s') := by
    simp only [Store.perform, hcommit]
  have hcommitted : Turn.committedOn c.instanceId ⟨σ.store, .commit c t now activationId,
      (σ.store.perform H (.commit c t now activationId)).1⟩ = some revision := by
    simp [Turn.committedOn, hperform]
  have hearlier : ∀ x, ∀ r ∈ σ.committedRevisions x,
      r ∈ (σ.perform H (.commit c t now activationId)).committedRevisions x :=
    fun x r hr => mem_committedRevisions_perform.mpr (.inl hr)
  -- The revision is new.
  have hnew : revision ∉ σ.committedRevisions c.instanceId := by
    intro hold
    have hdistinct := hnumbered.distinct c.instanceId
    rw [List.filterMap_append, List.nodup_append] at hdistinct
    exact hdistinct.2.2 revision hold revision
      (List.mem_filterMap.mpr ⟨_, List.mem_singleton_self _, hcommitted⟩) rfl
  have hrow : ∀ (id : Uuid) (a : MemoryActivation), σ.store.activations[id]? = some a →
      a.commandId ≠ commandOf H c.instanceId revision := by
    intro id a ha hcommand
    obtain ⟨r, hr, hold⟩ := h.rows id a ha
    obtain ⟨hx, rfl⟩ := commandOf_injective hH (hold.symm.trans hcommand)
    exact hnew (hx ▸ hr)
  have hstore : (σ.perform H (.commit c t now activationId)).store = s' := congrArg Prod.snd hperform
  have hlookup : ∀ (id : Uuid) (a : MemoryActivation), σ.store.activations[id]? = some a →
      s'.activations[id]? = some a := by
    intro id a ha
    rcases hqueue with ⟨-, hsame, -⟩ | ⟨new, -, -, -, hinserted, -⟩
    · rw [hsame, ha]
    · rw [hinserted, getElem?_insert, if_neg, ha]
      rintro rfl
      exact hfresh (Std.ExtTreeMap.mem_iff_isSome_getElem?.mpr (by simp [ha]))
  have hback : ∀ (id : Uuid) (a : MemoryActivation), s'.activations[id]? = some a →
      σ.store.activations[id]? = some a ∨ id = activationId ∧ a.instanceId = c.instanceId ∧
        a.commandId = commandOf H c.instanceId revision := by
    intro id a ha
    rcases hqueue with ⟨-, hsame, -⟩ | ⟨new, hx, hcommand, -, hinserted, -⟩
    · exact .inl (hsame ▸ ha)
    · rw [hinserted, getElem?_insert] at ha
      split at ha
      · rename_i hid
        obtain rfl := Option.some.inj ha
        exact .inr ⟨hid.symm, hx, hcommand⟩
      · exact .inl ha
  have htask : ∀ task ∈ σ.tasks, ∀ a, s'.activations[task.activation.activationId]? = some a →
      σ.store.activations[task.activation.activationId]? = some a := by
    intro task hmem a ha
    rcases hback _ a ha with hold | ⟨hid, -⟩
    · exact hold
    · exact absurd hid (hunused task hmem)
  have hsnapshot : ∀ (x : Uuid) (e' : SnapshotEnvelope), s'.snapshots[x]? = some e' →
      x = c.instanceId ∧ e' = e ∨ σ.store.snapshots[x]? = some e' := by
    intro x e' he'
    rw [hsnapshots, getElem?_insert] at he'
    split at he'
    · rename_i hx
      exact .inl ⟨hx.symm, (Option.some.inj he').symm⟩
    · exact .inr he'
  refine ⟨hnumbered, fun x e' he' => ?_, fun key hkey => ?_, fun id a ha => ?_,
    fun x e' he' hrunnable => ?_, fun task hmem a ha => ?_,
    fun task hmem hdrained a ha e' he' hrunnable => ?_⟩ <;> rw [hstore] at *
  · rcases hsnapshot x e' he' with ⟨-, rfl⟩ | hold
    · exact hkeyed
    · exact h.keyed x e' hold
  · have holder : ∀ key ∈ σ.store.activationDedupe, ∃ x,
        ∃ r ∈ (σ.perform H (.commit c t now activationId)).committedRevisions x,
          key.2 = commandOf H x r := by
      intro key hkey
      obtain ⟨x, r, hr, hcommand⟩ := h.dedupe key hkey
      exact ⟨x, r, hearlier x r hr, hcommand⟩
    rcases hqueue with ⟨-, -, hsame⟩ | ⟨new, -, -, -, -, hinserted⟩
    · exact holder key (hsame ▸ hkey)
    · rw [hinserted, Std.ExtTreeMap.mem_insert] at hkey
      rcases hkey with heq | hold
      · obtain rfl := Std.LawfulEqCmp.eq_of_compare heq
        exact ⟨c.instanceId, revision, mem_committedRevisions_perform.mpr (.inr hcommitted), rfl⟩
      · exact holder key hold
  · rcases hback id a ha with hold | ⟨-, hx, hcommand⟩
    · obtain ⟨r, hr, hcommand⟩ := h.rows id a hold
      exact ⟨r, hearlier _ r hr, hcommand⟩
    · rw [hx]
      exact ⟨revision, mem_committedRevisions_perform.mpr (.inr hcommitted), hcommand⟩
  · rcases hsnapshot x e' he' with ⟨rfl, rfl⟩ | hold
    · rw [hrevision]
      rcases hqueue with ⟨hidle | hrepeated, -, -⟩ | ⟨new, hx, hcommand, hqueued, hinserted, -⟩
      · exact absurd hrunnable hidle
      · obtain ⟨x, r, hr, hcommand⟩ := h.dedupe _ hrepeated
        obtain ⟨rfl, rfl⟩ := commandOf_injective hH hcommand
        exact absurd hr hnew
      · exact ⟨activationId, new, by simp [hinserted], hx, hcommand, hqueued⟩
    · obtain ⟨id, a, ha, hx, hcommand, hqueued⟩ := h.scheduled x e' hold hrunnable
      exact ⟨id, a, hlookup id a ha, hx, hcommand, hqueued⟩
  · exact h.tasks task hmem a (htask task hmem a ha)
  · have hold := htask task hmem a ha
    rcases hsnapshot _ e' he' with ⟨hx, rfl⟩ | hearlier
    · rw [hx, hrevision]
      exact hrow _ a hold
    · exact h.drained task hmem hdrained a hold e' hearlier hrunnable

theorem Invariant.step (hH : Function.Injective H.uuidOfSeed) (h : Invariant H σ)
    (hstep : Step H σ σ') : Invariant H σ' := by
  cases hstep with
  | call operation howned hadmits =>
    have hcalls := perform_calls H σ.store operation
    have hnumbered := hcalls.numbered h.numbered howned
    cases operation with
    | claim | release => exact h.quiet hnumbered (hcalls.agenda (by simp))
    | commit c t now activationId =>
      cases hcommit : commitTransition H now activationId c t σ.store with
      | ok revision s' => exact h.committed hH howned hadmits hcommit
      | error stop s' =>
        refine h.quiet hnumbered ?_
        have hspared := commitTransition_spares H now activationId c t hadmits.1 _ _ _ hcommit
        simp only [Store.perform, hcommit]
        exact hspared
  | aside s hinstances hrevisions hagenda =>
    obtain ⟨hsnapshots, hqueue⟩ := Prod.mk.inj hagenda
    obtain ⟨hactivations, hdedupe⟩ := Prod.mk.inj hqueue
    exact h.requeue (numbered_congr h.numbered hinstances hsnapshots hrevisions)
      (fun _ _ hr => hr) hsnapshots (Prod.mk.inj hdedupe).1 (rel_of_eq hactivations) rfl
  | claimReady tenantId owner limit leaseMs now freshToken =>
    obtain ⟨hrequeues, hclaimed⟩ := claimReadyActivations_requeue σ.store tenantId owner limit
      leaseMs now freshToken
    have hqueue := h.of_requeues hrequeues
    refine hqueue.retask (fun task htask a ha => ?_) fun task htask hdrained => ?_
    · rcases List.mem_append.mp htask with hold | hnew
      · exact hqueue.tasks task hold a ha
      · obtain ⟨activation, hmem, rfl⟩ := List.mem_map.mp hnew
        obtain ⟨before, hbefore, hx⟩ := hclaimed activation hmem
        have hrel := hrequeues.rows activation.activationId
        rw [hbefore, ha] at hrel
        cases hrel with
        | some hbecomes => exact hbecomes.instanceId.trans hx
    · rcases List.mem_append.mp htask with hold | hnew
      · exact .inl hold
      · obtain ⟨activation, -, rfl⟩ := List.mem_map.mp hnew
        cases hdrained
  | drain activation drained hmem envelope hloaded hquiescent =>
    refine h.retask (fun task htask a ha => ?_) fun task htask _ => ?_
    · rcases List.mem_append.mp htask with hold | hnew
      · exact h.tasks task hold a ha
      · obtain rfl := List.mem_singleton.mp hnew
        exact h.tasks _ hmem a ha
    · rcases List.mem_append.mp htask with hold | hnew
      · exact .inl hold
      · obtain rfl := List.mem_singleton.mp hnew
        exact .inr ⟨envelope, hloaded,
          quiescent_not_runnable (h.keyed _ envelope hloaded) hquiescent⟩
  | consume activation hmem => exact h.consume hmem
  | release task hmem notBeforeMs now =>
    exact h.of_requeues (releaseActivationToReady_requeue _ _ _ _)
  | reclaim now => exact h.of_requeues (reclaimExpiredActivations_requeue _ _)
  | abandon tasks hmem =>
    exact h.retask (fun task htask => h.tasks task (hmem htask))
      fun task htask _ => .inl (hmem htask)

theorem invariant_of_reachable (hH : Function.Injective H.uuidOfSeed) (h : Reachable H σ) :
    Invariant H σ := by
  induction h with
  | refl => exact invariant_empty
  | tail _ hstep ih => exact ih.step hH hstep

/-- However claims, commits, drains, releases and expiries interleave, an instance whose committed
state can go on has an activation that is ready or claimed. -/
theorem runnable_is_queued (hH : Function.Injective H.uuidOfSeed) (h : Reachable H σ) {x : Uuid}
    {e : SnapshotEnvelope} (he : σ.store.snapshots[x]? = some e) (hrunnable : e.state.Runnable) :
    ∃ (id : Uuid) (a : MemoryActivation), σ.store.activations[id]? = some a ∧ a.instanceId = x ∧
      (a.status = .ready ∨ a.status = .claimed) := by
  obtain ⟨id, a, ha, hx, -, hqueued⟩ := (invariant_of_reachable hH h).scheduled x e he hrunnable
  exact ⟨id, a, ha, hx, hqueued⟩

end Scheduler

namespace Reference

open Store

/-- The instance has been started and its activation is in the hands of a scheduler. -/
def batched : Scheduler :=
  let begun := ({} : Scheduler).perform storeHost started
  let batch := begun.store.claimReadyActivations "" "w" 1 10 0 (fun _ => "w")
  { begun with store := batch.2, tasks := batch.1.map fun activation => { activation } }

/-- The fibre of the instance is written back under a claim of the owner. -/
def writtenBack (owner : String) (revision : ℕ) (fiber : Fiber) (σ : Scheduler) : Scheduler :=
  (σ.perform storeHost (claimBy owner 0)).perform storeHost
    (.commit ⟨"", 0, revision, 1, owner⟩ { nextSnapshot := inst, fibersUpsert := [fiber] } 0
      (revision + 1))

theorem reachable_writtenBack {σ : Scheduler} {owner : String} {fiber : Fiber}
    (h : Scheduler.Reachable storeHost σ)
    (hgranted : (σ.store.perform storeHost (claimBy owner 0)).1 =
      .granted ⟨"", 0, revision, 1, owner⟩)
    (hfresh : revision + 1 ∉ (σ.perform storeHost (claimBy owner 0)).store.activations)
    (hunused : ∀ task ∈ σ.tasks, task.activation.activationId ≠ revision + 1) :
    Scheduler.Reachable storeHost (writtenBack owner revision fiber σ) := by
  have hclaimed := h.tail (.call (claimBy owner 0) trivial trivial)
  have hseen : ∃ turn ∈ (σ.perform storeHost (claimBy owner 0)).seen,
      turn.reply = .granted ⟨"", 0, revision, 1, owner⟩ :=
    ⟨_, List.mem_append_right _ (List.mem_singleton_self _), hgranted⟩
  exact hclaimed.tail (.call _ (.inl hseen) ⟨rfl, hfresh, hunused⟩)

def batch : ClaimedActivation :=
  (batched.tasks.head?.map (·.activation)).getD ⟨"", 0, 0, 0, "", .terminate, 0, ""⟩

theorem mem_batched : ⟨batch, false⟩ ∈ batched.tasks := by
  have hchecked : batched.tasks.head?.any (fun task => !task.drained) = true := by decide +kernel
  obtain ⟨⟨activation, drained⟩, htask, hdrained⟩ := (Option.any_eq_true ..).mp hchecked
  obtain rfl : drained = false := by simpa using hdrained
  have hbatch : batch = activation := by simp [batch, htask]
  rw [hbatch]
  exact List.mem_of_mem_head? htask

def waiting : Scheduler := writtenBack "a" 0 parked batched

/-- The scheduler has seen the instance parked. -/
def drained : Scheduler := { waiting with tasks := waiting.tasks ++ [⟨batch, true⟩] }

/-- The instance goes on under a claim of someone else, and then the scheduler consumes the activation
it holds. -/
def overtaken : Scheduler :=
  let goesOn := writtenBack "b" 1 resumed drained
  { goesOn with store := (goesOn.store.consumeActivation batch).2 }

/-- The activation of the later commit is still there. -/
theorem overtaken_is_queued : ∃ e, overtaken.store.snapshots[(0 : Uuid)]? = some e ∧
    e.state.Runnable ∧ (0 : Uuid) ∉ overtaken.store.activations ∧
    ∃ (id : Uuid) (a : MemoryActivation), overtaken.store.activations[id]? = some a ∧
      a.instanceId = 0 ∧ (a.status = .ready ∨ a.status = .claimed) := by
  have hbatched : Scheduler.Reachable storeHost batched := by
    have hbegun : Scheduler.Reachable storeHost (({} : Scheduler).perform storeHost started) :=
      .single (.call started (.inr ⟨rfl, rfl⟩) ⟨rfl, by simp, by simp⟩)
    exact hbegun.tail (.claimReady "" "w" 1 10 0 (fun _ => "w"))
  have hwaiting : Scheduler.Reachable storeHost waiting :=
    reachable_writtenBack hbatched (by decide +kernel) (by decide +kernel) (by decide +kernel)
  obtain ⟨parkedState, hloaded, hparked⟩ :
      ∃ e, waiting.store.snapshots[batch.instanceId]? = some e ∧
        e.state.toRuntimeSnapshot.Quiescent := by
    have hchecked : waiting.store.snapshots[batch.instanceId]?.any (fun e =>
        e.state.toRuntimeSnapshot.fibers.values.all (fun fiber => fiber.wait ≠ .running)) := by
      decide +kernel
    obtain ⟨e, he, hidle⟩ := (Option.any_eq_true ..).mp hchecked
    exact ⟨e, he, .inr (by simpa using hidle)⟩
  have hdrained : Scheduler.Reachable storeHost drained :=
    hwaiting.tail (.drain batch false mem_batched parkedState hloaded hparked)
  have hgoesOn : Scheduler.Reachable storeHost (writtenBack "b" 1 resumed drained) :=
    reachable_writtenBack hdrained (by decide +kernel) (by decide +kernel) (by decide +kernel)
  have hreached : Scheduler.Reachable storeHost overtaken :=
    hgoesOn.tail (.consume batch (List.mem_append_right _ (List.mem_singleton_self _)))
  have hchecked : overtaken.store.snapshots[(0 : Uuid)]?.any (fun e =>
      decide (e.state.inst.state = .running) &&
        e.state.fibers.values.any (fun fiber => fiber.wait = .running)) = true := by
    decide +kernel
  obtain ⟨e, he, hruns⟩ := (Option.any_eq_true ..).mp hchecked
  have hrunnable : e.state.Runnable := by
    simpa [PersistedSnapshotState.Runnable] using hruns
  exact ⟨e, he, hrunnable, by decide +kernel, Scheduler.runnable_is_queued host_injective hreached he
    hrunnable⟩

end Reference

end BpmnLite
