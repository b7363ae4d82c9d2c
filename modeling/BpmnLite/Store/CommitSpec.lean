import BpmnLite.Store.Phases

/-!
# When a commit goes through, and what it has written then

The phases put together. The conditions of the write phases are restated on the store before the
commit (`Accepts`), and the rows of the instance after it are read off that store too, so that
neither needs the intermediate states.
-/

namespace BpmnLite.Store

open Abort Maps

section Rows

variable (H : StoreHost) (now : Timestamp) (activationId : Uuid) (claim : Claim) (t : Transition)
  (s : Store)

def jobsStaged : Store :=
  t.jobsAck.foldl dropJob (t.jobsEnqueue.foldl enqueueJob
    (writeFrame claim t (writeInstance claim t (committedInstance H claim t s) s)))

def jobsWritten : Store :=
  t.jobMutations.foldl (fun s mutation => jobWritten mutation s) (jobsStaged H claim t s)

def effectsStaged : Store :=
  writeRecords claim t (cleanUp claim t (jobsWritten H claim t s))

def mutationsStaged : Store :=
  t.effects.foldl (fun s effect => effectWritten claim effect s) (effectsStaged H claim t s)

def childrenStaged : Store :=
  writeTimers claim t
    (t.effectMutations.foldl (fun s mutation => effectSettled mutation s)
      (mutationsStaged H claim t s))

/-- The store when all rows but those of the new revision are written. -/
def rowsWritten : Store :=
  t.childStarts.foldl (fun s child => childWritten H child s) (childrenStaged H claim t s)

/-- Every phase of the writes finds its turn ready. -/
structure Writable : Prop where
  jobs : Abort.Passes HoldsJob jobWritten t.jobMutations (jobsStaged H claim t s)
  effects : Abort.Passes (OwnsEffect claim) (effectWritten claim) t.effects (effectsStaged H claim t s)
  mutations : Abort.Passes (OwnsMutation claim) effectSettled t.effectMutations
    (mutationsStaged H claim t s)
  children : ∀ child ∈ t.childStarts, Hashable H (childEnvelope child)
  hashable : Hashable H ((writeRevision claim t (s.isStart claim) (rowsWritten H claim t s)).envelope
    claim (committedInstance H claim t s) (newRevision claim (s.isStart claim)))
  range : s.isStart claim = true ∨ claim.expectedRevision < 2 ^ 63

def committed : Store :=
  finished H now activationId claim t (s.isStart claim) (committedInstance H claim t s)
    (rowsWritten H claim t s)

theorem writeTransition_eq_ok {s' : Store} {revision : ℕ} :
    writeTransition H now activationId claim t s = .ok revision s' ↔
      Writable H claim t s ∧ revision = newRevision claim (s.isStart claim) ∧
        s' = committed H now activationId claim t s := by
  unfold writeTransition
  simp only [get_bind, modify_bind]
  rw [(Takes.forM writeJobMutation_takes t.jobMutations).bind_eq_ok]
  simp only [modify_bind]
  rw [(Takes.forM (writeEffect_takes claim) t.effects).bind_eq_ok,
    (Takes.forM (writeEffectMutation_takes claim) t.effectMutations).bind_eq_ok]
  simp only [modify_bind]
  rw [(Takes.forM (writeChild_takes H) t.childStarts).bind_eq_ok, passes_const, finish_eq_ok]
  constructor
  · rintro ⟨hjobs, heffects, hmutations, hchildren, hhashable, hrange, hrevision, hs'⟩
    exact ⟨⟨hjobs, heffects, hmutations, hchildren, hhashable, hrange⟩, hrevision, hs'⟩
  · rintro ⟨⟨hjobs, heffects, hmutations, hchildren, hhashable, hrange⟩, hrevision, hs'⟩
    exact ⟨hjobs, heffects, hmutations, hchildren, hhashable, hrange, hrevision, hs'⟩

end Rows

section Footprints

variable (H : StoreHost) (claim : Claim) (t : Transition) (s : Store)

def exceptJobs (s : Store) : Store := { s with jobQueue := [], inflightJobs := ∅ }

def exceptMessages (s : Store) : Store :=
  { s with messageBuffer := ∅, messageBufferClaims := ∅, messageBufferConsumed := ∅ }

/-- The store without its messages, completions, incidents and outbox. -/
def exceptRecords (s : Store) : Store :=
  { s.exceptMessages with dedupe := ∅, incidents := ∅, outbox := ∅ }

def exceptEffects (s : Store) : Store := { s with timers := ∅, durableEffects := ∅ }

def exceptEvents (s : Store) : Store := { s with events := ∅, eventSeq := ∅ }

def exceptLeases (s : Store) : Store :=
  { s with
    transitionLeases := ∅
    activations := ∅
    activationDedupe := ∅
    activationSeqCounter := 0 }

def exceptInstances (s : Store) : Store :=
  { s with
    instances := ∅
    revisions := ∅
    fibers := ∅
    events := ∅
    eventSeq := ∅
    snapshots := ∅
    journals := ∅ }

theorem enqueueJob_exceptJobs (job : JobActivation) :
    (enqueueJob s job).exceptJobs = s.exceptJobs := by
  unfold enqueueJob
  split <;> rfl

theorem enqueueJob_inflightJobs (job : JobActivation) :
    (enqueueJob s job).inflightJobs = s.inflightJobs := by
  unfold enqueueJob
  split <;> rfl

theorem dropJob_exceptJobs (jobKey : JobKey) : (dropJob s jobKey).exceptJobs = s.exceptJobs := rfl

theorem jobWritten_exceptJobs (mutation : JobMutation) :
    (jobWritten mutation s).exceptJobs = s.exceptJobs := by
  cases mutation <;> rfl

theorem writeMessage_exceptMessages (mutation : BufferedMessageMutation) :
    (writeMessage s mutation).exceptMessages = s.exceptMessages := by
  cases mutation <;> rfl

theorem effectWritten_exceptEffects (effect : DurableEffect) :
    (effectWritten claim effect s).exceptEffects = s.exceptEffects := by
  cases effect <;> rfl

theorem effectSettled_exceptEffects (mutation : EffectMutation) :
    (effectSettled mutation s).exceptEffects = s.exceptEffects := by
  unfold effectSettled
  split <;> rfl

theorem childWritten_exceptInstances (child : ChildStart) :
    (childWritten H child s).exceptInstances = s.exceptInstances := rfl

theorem jobsStaged_exceptJobs : (jobsStaged H claim t s).exceptJobs =
    (writeFrame claim t
      (writeInstance claim t (committedInstance H claim t s) s)).exceptJobs := by
  unfold jobsStaged
  rw [foldl_keeps exceptJobs dropJob_exceptJobs, foldl_keeps exceptJobs enqueueJob_exceptJobs]

theorem jobsStaged_inflightJobs : (jobsStaged H claim t s).inflightJobs =
    t.jobsAck.foldl (fun jobs jobKey => jobs.erase jobKey) s.inflightJobs := by
  have hdropped : ∀ (keys : List JobKey) (s : Store), (keys.foldl dropJob s).inflightJobs =
      keys.foldl (fun jobs jobKey => jobs.erase jobKey) s.inflightJobs := by
    intro keys
    induction keys with
    | nil => exact fun _ => rfl
    | cons key keys ih => exact fun s => ih (dropJob s key)
  unfold jobsStaged
  rw [hdropped, foldl_keeps inflightJobs enqueueJob_inflightJobs]
  rfl

theorem jobsWritten_exceptJobs : (jobsWritten H claim t s).exceptJobs =
    (writeFrame claim t
      (writeInstance claim t (committedInstance H claim t s) s)).exceptJobs := by
  unfold jobsWritten
  rw [foldl_keeps exceptJobs fun s mutation => jobWritten_exceptJobs s mutation]
  exact jobsStaged_exceptJobs H claim t s

theorem writeRecords_exceptRecords : (writeRecords claim t s).exceptRecords = s.exceptRecords := by
  have hmessages := fun s : Store =>
    foldl_keeps exceptMessages writeMessage_exceptMessages t.bufferedMessages s
  exact congrArg (fun s => { s with dedupe := ∅, incidents := ∅, outbox := ∅ }) (hmessages _)

theorem cleanUp_timers : (cleanUp claim t s).timers =
    if t.terminalCleanup.deleteAllFibers then
      cancelTimers (fun _ timer => timer.instanceId = claim.instanceId) s.timers
    else s.timers := by
  unfold cleanUp
  split_ifs <;> rfl

theorem cleanUp_durableEffects : (cleanUp claim t s).durableEffects = s.durableEffects := by
  unfold cleanUp
  split_ifs <;> rfl

theorem effectsStaged_durableEffects :
    (effectsStaged H claim t s).durableEffects = s.durableEffects := by
  have hrecords := congrArg durableEffects
    (writeRecords_exceptRecords claim t (cleanUp claim t (jobsWritten H claim t s)))
  have hjobs := congrArg durableEffects (jobsWritten_exceptJobs H claim t s)
  exact hrecords.trans ((cleanUp_durableEffects claim t _).trans hjobs)

theorem effectsStaged_timers : (effectsStaged H claim t s).timers =
    if t.terminalCleanup.deleteAllFibers then
      cancelTimers (fun _ timer => timer.instanceId = claim.instanceId) s.timers
    else s.timers := by
  have hrecords := congrArg timers
    (writeRecords_exceptRecords claim t (cleanUp claim t (jobsWritten H claim t s)))
  have hjobs : (jobsWritten H claim t s).timers = s.timers :=
    (congrArg timers (jobsWritten_exceptJobs H claim t s) :)
  rw [← hjobs]
  exact hrecords.trans (cleanUp_timers claim t _)

def writtenFibers : BTreeMap (Uuid × Uuid) Fiber :=
  t.childStarts.foldl
    (fun rows child =>
      rows.insert (child.inst.instanceId, child.rootFiber.fiberId) child.rootFiber)
    (if t.terminalCleanup.deleteAllFibers then
      (writeFrame claim t s).fibers.filter (fun row _ => row.1 ≠ claim.instanceId)
    else (writeFrame claim t s).fibers)

def writtenJoins : BTreeMap (Uuid × JoinId) ℕ :=
  if t.terminalCleanup.deleteAllJoins then
    (writeFrame claim t s).joinCounters.filter (fun row _ => row.1 ≠ claim.instanceId)
  else (writeFrame claim t s).joinCounters

def writtenIncidents : BTreeMap Uuid (List Incident) :=
  t.incidents.foldl (writeIncident claim.instanceId) s.incidents

def writtenTables : BTreeMap Uuid ConcurrencyTable :=
  s.concurrencyTables.insert claim.instanceId
    ((s.concurrencyTables.getD claim.instanceId ∅).applyMutations t.concurrencyMutations)

/-- The snapshot of the revision a commit creates, from the store before it. -/
def committedEnvelope : SnapshotEnvelope :=
  envelope
    { s with
      fibers := writtenFibers claim t s
      joinCounters := writtenJoins claim t s
      incidents := writtenIncidents claim t s
      concurrencyTables := writtenTables claim t s }
    claim (committedInstance H claim t s) (newRevision claim (s.isStart claim))

theorem cleanUp_fibers : (cleanUp claim t s).fibers =
    if t.terminalCleanup.deleteAllFibers then
      s.fibers.filter (fun row _ => row.1 ≠ claim.instanceId)
    else s.fibers := by
  unfold cleanUp
  split_ifs <;> rfl

theorem cleanUp_joinCounters : (cleanUp claim t s).joinCounters =
    if t.terminalCleanup.deleteAllJoins then
      s.joinCounters.filter (fun row _ => row.1 ≠ claim.instanceId)
    else s.joinCounters := by
  unfold cleanUp
  split_ifs <;> rfl

theorem cleanUp_incidents : (cleanUp claim t s).incidents = s.incidents := by
  unfold cleanUp
  split_ifs <;> rfl

theorem cleanUp_concurrencyTables : (cleanUp claim t s).concurrencyTables =
    s.concurrencyTables := by
  unfold cleanUp
  split_ifs <;> rfl

theorem childrenStaged_exceptEffects : (childrenStaged H claim t s).exceptEffects =
    (effectsStaged H claim t s).exceptEffects := by
  have hmutations := foldl_keeps exceptEffects
    (fun s mutation => effectSettled_exceptEffects s mutation) t.effectMutations
    (mutationsStaged H claim t s)
  have heffects := foldl_keeps exceptEffects
    (fun s effect => effectWritten_exceptEffects claim s effect) t.effects
    (effectsStaged H claim t s)
  exact hmutations.trans heffects

theorem childrenStaged_exceptRecords : (childrenStaged H claim t s).exceptEffects.exceptRecords =
    (cleanUp claim t (jobsWritten H claim t s)).exceptEffects.exceptRecords := by
  have heffects := congrArg exceptRecords (childrenStaged_exceptEffects H claim t s)
  have hrecords := writeRecords_exceptRecords claim t (cleanUp claim t (jobsWritten H claim t s))
  exact heffects.trans (congrArg exceptEffects hrecords)

theorem rowsWritten_exceptInstances : (rowsWritten H claim t s).exceptInstances =
    (childrenStaged H claim t s).exceptInstances :=
  foldl_keeps exceptInstances (fun s child => childWritten_exceptInstances H s child) _ _

theorem rowsWritten_fibers : (rowsWritten H claim t s).fibers = writtenFibers claim t s := by
  have hchildren : ∀ (children : List ChildStart) (s : Store),
      (children.foldl (fun s child => childWritten H child s) s).fibers =
        children.foldl (fun rows child => rows.insert
          (child.inst.instanceId, child.rootFiber.fiberId) child.rootFiber) s.fibers := by
    intro children
    induction children with
    | nil => exact fun _ => rfl
    | cons child children ih => exact fun s => ih (childWritten H child s)
  have hstages := congrArg fibers (childrenStaged_exceptRecords H claim t s)
  have hjobs := congrArg fibers (jobsWritten_exceptJobs H claim t s)
  have hstaged : (childrenStaged H claim t s).fibers = _ := hstages.trans (cleanUp_fibers claim t _)
  unfold rowsWritten writtenFibers
  rw [hchildren, hstaged, show (jobsWritten H claim t s).fibers = _ from hjobs]
  rfl

theorem rowsWritten_joinCounters :
    (rowsWritten H claim t s).joinCounters = writtenJoins claim t s := by
  have hrows := congrArg joinCounters (rowsWritten_exceptInstances H claim t s)
  have hstages := congrArg joinCounters (childrenStaged_exceptRecords H claim t s)
  have hjobs := congrArg joinCounters (jobsWritten_exceptJobs H claim t s)
  have hstaged : (rowsWritten H claim t s).joinCounters = _ :=
    hrows.trans (hstages.trans (cleanUp_joinCounters claim t _))
  rw [hstaged, show (jobsWritten H claim t s).joinCounters = _ from hjobs]
  rfl

theorem writeRecords_incidents : (writeRecords claim t s).incidents =
    t.incidents.foldl (writeIncident claim.instanceId) s.incidents := by
  have hmessages := fun s : Store =>
    congrArg incidents (foldl_keeps exceptMessages writeMessage_exceptMessages t.bufferedMessages s)
  exact hmessages _

theorem rowsWritten_incidents :
    (rowsWritten H claim t s).incidents = writtenIncidents claim t s := by
  have hrows := congrArg incidents (rowsWritten_exceptInstances H claim t s)
  have heffects := congrArg incidents (childrenStaged_exceptEffects H claim t s)
  have hrecords := writeRecords_incidents claim t (cleanUp claim t (jobsWritten H claim t s))
  have hjobs := congrArg incidents (jobsWritten_exceptJobs H claim t s)
  have hstaged : (rowsWritten H claim t s).incidents = _ := hrows.trans (heffects.trans hrecords)
  rw [hstaged, cleanUp_incidents, show (jobsWritten H claim t s).incidents = _ from hjobs]
  rfl

theorem rowsWritten_concurrencyTables :
    (rowsWritten H claim t s).concurrencyTables = s.concurrencyTables := by
  have hrows := congrArg concurrencyTables (rowsWritten_exceptInstances H claim t s)
  have hstages := congrArg concurrencyTables (childrenStaged_exceptRecords H claim t s)
  have hjobs := congrArg concurrencyTables (jobsWritten_exceptJobs H claim t s)
  have hstaged : (rowsWritten H claim t s).concurrencyTables = _ :=
    hrows.trans (hstages.trans (cleanUp_concurrencyTables claim t _))
  exact hstaged.trans hjobs

theorem appendEvent_exceptEvents (instanceId : Uuid) (event : RuntimeEvent) :
    (appendEvent instanceId s event).exceptEvents = s.exceptEvents := rfl

theorem appendEvents_exceptEvents (instanceId : Uuid) (events : List RuntimeEvent) (s : Store) :
    (events.foldl (appendEvent instanceId) s).exceptEvents = s.exceptEvents :=
  foldl_keeps exceptEvents (fun s event => appendEvent_exceptEvents s instanceId event) events s

theorem settleLease_exceptLeases (now : Timestamp) (activationId : Uuid)
    (snapshot : ProcessInstance) (revision : ℕ) :
    (settleLease H claim now activationId snapshot revision s).exceptLeases = s.exceptLeases := by
  unfold settleLease enqueueActivation
  split_ifs <;> rfl

theorem writeRevision_concurrencyTables (start : Bool) :
    (writeRevision claim t start s).concurrencyTables = writtenTables claim t s := by
  have hevents := congrArg concurrencyTables
    (appendEvents_exceptEvents claim.instanceId t.events s)
  unfold writeRevision writtenTables
  dsimp only
  rw [show (t.events.foldl (appendEvent claim.instanceId) s).concurrencyTables =
    s.concurrencyTables from hevents]

theorem envelope_congr {s s' : Store} (hfibers : s.fibers = s'.fibers)
    (hjoins : s.joinCounters = s'.joinCounters) (hincidents : s.incidents = s'.incidents)
    (htables : s.concurrencyTables = s'.concurrencyTables) (snapshot : ProcessInstance)
    (revision : ℕ) : s.envelope claim snapshot revision = s'.envelope claim snapshot revision := by
  unfold envelope instanceFibers instanceJoins
  rw [hfibers, hjoins, hincidents, htables]

theorem envelope_rowsWritten :
    (writeRevision claim t (s.isStart claim) (rowsWritten H claim t s)).envelope claim
        (committedInstance H claim t s) (newRevision claim (s.isStart claim)) =
      committedEnvelope H claim t s := by
  have hevents := appendEvents_exceptEvents claim.instanceId t.events (rowsWritten H claim t s)
  have hfibers := congrArg fibers hevents
  have hjoins := congrArg joinCounters hevents
  have hincidents := congrArg incidents hevents
  refine envelope_congr claim ?_ ?_ ?_ ?_ _ _
  · exact hfibers.trans (rowsWritten_fibers H claim t s)
  · exact hjoins.trans (rowsWritten_joinCounters H claim t s)
  · exact hincidents.trans (rowsWritten_incidents H claim t s)
  · rw [writeRevision_concurrencyTables]
    unfold writtenTables
    rw [rowsWritten_concurrencyTables]

end Footprints

end BpmnLite.Store

namespace BpmnLite

/-- The id an invocation is stored under. -/
def DurableEffect.invokedId : DurableEffect → Option EffectId
  | .scheduleTimer .. => none
  | .invoke effectId .. => some effectId

end BpmnLite

namespace BpmnLite.Store

open Abort Maps

section Accepts

variable (H : StoreHost) (now : Timestamp) (activationId : Uuid) (claim : Claim) (t : Transition)
  (s : Store)

/-- What the writes of a commit ask of the store: each claimed job is in flight for its holder and
is not taken twice, each timer and effect is new or the same as the stored one, each settled effect
belongs to the instance, and every new snapshot can be hashed. -/
structure Accepts : Prop where
  jobs : ∀ mutation ∈ t.jobMutations, HoldsJob mutation s ∧
    (mutation.holder.isSome → mutation.jobKey ∉ t.jobsAck)
  jobsOnce : t.jobMutations.Pairwise (fun m m' => m'.holder.isSome → m.jobKey ≠ m'.jobKey)
  effects : ∀ effect ∈ t.effects, OwnsEffect claim effect s
  effectsAgree : t.effects.Pairwise DurableEffect.Agrees
  mutations : ∀ mutation ∈ t.effectMutations, OwnsMutation claim mutation s ∨
    ∃ effect ∈ t.effects, effect.invokedId = some mutation.effectId
  children : ∀ child ∈ t.childStarts, Hashable H (childEnvelope child)
  hashable : Hashable H (committedEnvelope H claim t s)
  range : s.isStart claim = true ∨ claim.expectedRevision < 2 ^ 63

theorem holdsJob_jobsStaged (mutation : JobMutation) :
    HoldsJob mutation (jobsStaged H claim t s) ↔
      HoldsJob mutation s ∧ (mutation.holder.isSome → mutation.jobKey ∉ t.jobsAck) := by
  unfold HoldsJob
  rw [jobsStaged_inflightJobs, getElem?_foldl_erase]
  cases hholder : mutation.holder with
  | none => simp
  | some holder =>
    by_cases hacked : mutation.jobKey ∈ t.jobsAck
    · simp [hacked]
    · simp [hacked]

theorem getElem?_cancelTimers (p : EffectId → MemoryTimer → Bool)
    (timers : BTreeMap EffectId MemoryTimer) (timerId : EffectId) :
    (cancelTimers p timers)[timerId]? = timers[timerId]?.map (fun timer =>
      if p timerId timer && timer.state = .armed then MemoryTimer.cancel timer else timer) := by
  unfold cancelTimers
  rw [Std.ExtTreeMap.getElem?_map]

theorem ownsEffect_effectsStaged (effect : DurableEffect) :
    OwnsEffect claim effect (effectsStaged H claim t s) ↔ OwnsEffect claim effect s := by
  cases effect with
  | scheduleTimer timerId fiberId dueAt kind repeatSpec =>
    simp only [OwnsEffect, effectsStaged_timers]
    split_ifs
    · rw [getElem?_cancelTimers]
      cases s.timers[timerId]? with
      | none => simp
      | some timer =>
        simp only [Option.map_some, Option.some.injEq, forall_eq']
        split_ifs <;> rfl
    · rfl
  | invoke effectId fiberId pc operation templateId input idempotencyKey =>
    simp only [OwnsEffect, effectsStaged_durableEffects]

theorem getElem?_effectsWritten (effects : List DurableEffect) (s : Store) (effectId : EffectId) :
    (effects.foldl (fun s effect => effectWritten claim effect s) s).durableEffects[effectId]? =
      s.durableEffects[effectId]?.or
        ((effects.find? (fun effect => effect.invokedId = some effectId)).map
          (pendingEffect claim)) := by
  induction effects generalizing s with
  | nil => simp
  | cons effect rest ih =>
    rw [List.foldl_cons, ih]
    cases effect with
    | scheduleTimer timerId fiberId dueAt kind repeatSpec =>
      simp [effectWritten, DurableEffect.invokedId]
    | invoke id fiberId pc operation templateId input idempotencyKey =>
      simp only [effectWritten]
      rw [getElem?_insertIfNew]
      by_cases hid : id = effectId
      · cases s.durableEffects[effectId]? <;> simp [DurableEffect.invokedId, hid]
      · simp [DurableEffect.invokedId, hid]

theorem ownsMutation_mutationsStaged (heffects : ∀ effect ∈ t.effects, OwnsEffect claim effect s)
    (mutation : EffectMutation) :
    OwnsMutation claim mutation (mutationsStaged H claim t s) ↔ OwnsMutation claim mutation s ∨
      ∃ effect ∈ t.effects, effect.invokedId = some mutation.effectId := by
  unfold OwnsMutation mutationsStaged
  rw [getElem?_effectsWritten, effectsStaged_durableEffects]
  cases hrow : s.durableEffects[mutation.effectId]? with
  | none =>
    cases hfound : t.effects.find? (fun effect => effect.invokedId = some mutation.effectId) with
    | none =>
      simp only [List.find?_eq_none, decide_eq_true_eq] at hfound
      simpa using hfound
    | some effect =>
      have hid := List.find?_some hfound
      simp only [decide_eq_true_eq] at hid
      simp only [Option.map_some, Option.none_or, Option.some.injEq, exists_eq_left',
        pendingEffect, and_self, true_iff]
      exact .inr ⟨effect, List.mem_of_find?_eq_some hfound, hid⟩
  | some row =>
    simp only [Option.some_or, Option.some.injEq, exists_eq_left']
    constructor
    · exact .inl
    · rintro (hown | ⟨effect, hmem, hid⟩)
      · exact hown
      · cases effect with
        | scheduleTimer timerId fiberId dueAt kind repeatSpec => simp [DurableEffect.invokedId] at hid
        | invoke id fiberId pc operation templateId input idempotencyKey =>
          have hsame := heffects _ hmem
          obtain rfl : id = mutation.effectId := by simpa [DurableEffect.invokedId] using hid
          obtain ⟨htenant, hinstance, -⟩ := hsame row hrow
          exact ⟨htenant, hinstance⟩

theorem writable_iff : Writable H claim t s ↔ Accepts H claim t s := by
  have hjobs : (∀ mutation ∈ t.jobMutations, HoldsJob mutation (jobsStaged H claim t s)) ↔ _ :=
    forall₂_congr fun mutation _ => holdsJob_jobsStaged H claim t s mutation
  have heffects : (∀ effect ∈ t.effects, OwnsEffect claim effect (effectsStaged H claim t s)) ↔ _ :=
    forall₂_congr fun effect _ => ownsEffect_effectsStaged H claim t s effect
  constructor
  · rintro ⟨hjob, heffect, hmutation, hchildren, hhashable, hrange⟩
    obtain ⟨hheld, honce⟩ := (passes_jobs_iff _ _).mp hjob
    obtain ⟨hown, hagree⟩ := (passes_effects_iff claim _ _).mp heffect
    have hown := heffects.mp hown
    refine ⟨hjobs.mp hheld, honce, hown, hagree, ?_, hchildren,
      envelope_rowsWritten H claim t s ▸ hhashable, hrange⟩
    intro mutation hmem
    exact (ownsMutation_mutationsStaged H claim t s hown mutation).mp
      ((passes_mutations_iff claim _ _).mp hmutation mutation hmem)
  · rintro ⟨hheld, honce, hown, hagree, hmutation, hchildren, hhashable, hrange⟩
    refine ⟨(passes_jobs_iff _ _).mpr ⟨hjobs.mpr hheld, honce⟩,
      (passes_effects_iff claim _ _).mpr ⟨heffects.mpr hown, hagree⟩, ?_, hchildren,
      (envelope_rowsWritten H claim t s).symm ▸ hhashable, hrange⟩
    refine (passes_mutations_iff claim _ _).mpr fun mutation hmem => ?_
    exact (ownsMutation_mutationsStaged H claim t s hown mutation).mpr (hmutation mutation hmem)

end Accepts

section Commit

variable (H : StoreHost) (now : Timestamp) (activationId : Uuid) (claim : Claim) (t : Transition)
  (s : Store)

def pendingInserted : Store :=
  t.pendingInvocations.foldl (fun s write => insertPendingRow (pendingRow claim write) s) s

def pendingWritten : Store :=
  t.pendingTake.foldl (fun s executionId => dropExecution claim executionId s)
    (pendingInserted claim t s)

def exceptPending (s : Store) : Store := { s with pendingStore := ∅ }

theorem insertPendingRow_exceptPending (row : PendingInvocation) :
    (insertPendingRow row s).exceptPending = s.exceptPending := by
  unfold insertPendingRow
  split <;> rfl

theorem dropExecution_exceptPending (executionId : Uuid) :
    (dropExecution claim executionId s).exceptPending = s.exceptPending := by
  unfold dropExecution
  split <;> rfl

theorem pendingWritten_exceptPending : (pendingWritten claim t s).exceptPending =
    s.exceptPending := by
  have htaken := foldl_keeps exceptPending
    (fun s executionId => dropExecution_exceptPending claim s executionId) t.pendingTake
    (pendingInserted claim t s)
  have hinserted := foldl_keeps exceptPending
    (fun s write => insertPendingRow_exceptPending s (pendingRow claim write))
    t.pendingInvocations s
  exact htaken.trans hinserted

variable {s} in
theorem admits_congr {s' : Store} (h : s.exceptPending = s'.exceptPending) :
    s.Admits claim t ↔ s'.Admits claim t := by
  have hcheck : s.check claim t = s'.check claim t :=
    (congrArg (fun s => s.check claim t) h :)
  rw [← check_eq_ok, ← check_eq_ok, hcheck]

theorem accepts_exceptPending : Accepts H claim t s.exceptPending ↔ Accepts H claim t s :=
  ⟨fun ⟨jobs, once, effects, agree, mutations, children, hashable, range⟩ =>
      ⟨jobs, once, fun effect h => by cases effect <;> exact effects _ h, agree, mutations, children,
        hashable, range⟩,
    fun ⟨jobs, once, effects, agree, mutations, children, hashable, range⟩ =>
      ⟨jobs, once, fun effect h => by cases effect <;> exact effects _ h, agree, mutations, children,
        hashable, range⟩⟩

variable {s} in
theorem accepts_congr {s' : Store} (h : s.exceptPending = s'.exceptPending) :
    Accepts H claim t s ↔ Accepts H claim t s' := by
  rw [← accepts_exceptPending H claim t s, h, accepts_exceptPending]

/-- What a commit asks of the store. -/
structure Commits : Prop where
  known : ∀ executionId ∈ t.pendingTake, HasExecution claim executionId s
  dates : ∀ write ∈ t.pendingInvocations, ValidDates H write
  taken : Abort.Passes (HasExecution claim) (dropExecution claim) t.pendingTake
    (pendingInserted claim t s)
  admits : s.Admits claim t
  accepts : Accepts H claim t s

theorem lookups_takes (executionIds : List Uuid) :
    Takes (executionIds.forM (lookupPending claim))
      (fun s => ∀ executionId ∈ executionIds, HasExecution claim executionId s) id := by
  intro s s'
  have hpasses : Abort.Passes (HasExecution claim) (fun _ => id) executionIds s ↔
      ∀ executionId ∈ executionIds, HasExecution claim executionId s :=
    passes_iff_of_stable (fun _ _ _ => Iff.rfl) executionIds s
  have hfold : executionIds.foldl (fun s _ => id s) s = s :=
    foldl_keeps id (fun _ _ => rfl) executionIds s
  refine (Takes.forM (lookupPending_takes claim) executionIds s s').trans (and_congr hpasses ?_)
  dsimp only
  rw [hfold, id]

theorem commitTransition_eq_ok {s' : Store} {revision : ℕ} :
    commitTransition H now activationId claim t s = .ok revision s' ↔
      Commits H claim t s ∧
        revision = newRevision claim ((pendingWritten claim t s).isStart claim) ∧
        s' = committed H now activationId claim t (pendingWritten claim t s) := by
  have hpending := pendingWritten_exceptPending claim t s
  unfold commitTransition
  rw [(lookups_takes claim t.pendingTake).bind_eq_ok,
    (Takes.forM (insertPending_takes H claim) t.pendingInvocations).bind_eq_ok, passes_const,
    (Takes.forM (takePending_takes claim) t.pendingTake).bind_eq_ok,
    (runCheck_takes claim t).bind_eq_ok, writeTransition_eq_ok, writable_iff]
  constructor
  · rintro ⟨hknown, hdates, htaken, hadmits, haccepts, hrevision, hs'⟩
    exact ⟨⟨hknown, hdates, htaken, (admits_congr claim t hpending).mp hadmits,
      (accepts_congr H claim t hpending).mp haccepts⟩, hrevision, hs'⟩
  · rintro ⟨⟨hknown, hdates, htaken, hadmits, haccepts⟩, hrevision, hs'⟩
    exact ⟨hknown, hdates, htaken, (admits_congr claim t hpending).mpr hadmits,
      (accepts_congr H claim t hpending).mpr haccepts, hrevision, hs'⟩

/-- A commit settles the effects it names: their responses leave the inbox. -/
theorem commitTransition_settles {s' : Store} {revision : ℕ} {mutation : EffectMutation}
    (h : commitTransition H now activationId claim t s = .ok revision s')
    (hmem : mutation ∈ t.effectMutations) :
    ∃ effect, s'.durableEffects[mutation.effectId]? = some (settledEffect effect) ∧
      effect.instanceId = claim.instanceId := by
  obtain ⟨hcommits, -, rfl⟩ := (commitTransition_eq_ok H now activationId claim t s).mp h
  have haccepts := (accepts_congr H claim t (pendingWritten_exceptPending claim t s)).mpr
    hcommits.accepts
  generalize pendingWritten claim t s = s₁ at *
  obtain ⟨effect, hrow, -, hinstance⟩ := (passes_mutations_iff claim _ _).mp
    ((writable_iff H claim t s₁).mpr haccepts).mutations mutation hmem
  have hsettled : (childrenStaged H claim t s₁).durableEffects[mutation.effectId]? = _ :=
    getElem?_effectsSettled t.effectMutations _ mutation.effectId
  rw [if_pos (List.mem_map_of_mem hmem), hrow] at hsettled
  -- Neither the rows of the children nor the end of the commit hold effects.
  have hrows := congrArg durableEffects (rowsWritten_exceptInstances H claim t s₁)
  have hevents := congrArg durableEffects
    (appendEvents_exceptEvents claim.instanceId t.events (rowsWritten H claim t s₁))
  refine ⟨effect, Eq.trans ?_ hsettled, hinstance⟩
  refine congrArg (·[mutation.effectId]?) (Eq.trans ?_ (hevents.trans hrows))
  exact (congrArg durableEffects (settleLease_exceptLeases ..) :)

end Commit

end BpmnLite.Store
