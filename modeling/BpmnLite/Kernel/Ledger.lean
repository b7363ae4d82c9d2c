import BpmnLite.Kernel.Executed
import BpmnLite.Kernel.Refinement

/-!
# What a command does to fibres, jobs and incidents

`Handled` lists what the commands other than ticks can do to the fibres of an instance, to the jobs
they are parked on and to its incidents, each with what the command found. The invariants about jobs
and incidents are derived from it and open no handler again.
-/

namespace BpmnLite

open Maps

variable {m i : Uuid} {f f' : Fiber} {r : RecordId} {target : Addr} {record : ConcurrencyRecord}
  {interrupting : Bool} {keys acks : List JobKey} {snapshot : Snapshot}
  {context : DeterministicContext} {timers : List TimerMutation} {events : List RuntimeEvent}
  {restored : RollbackSnapshot} {instruction : Instr}

/-- The job a mutation takes back from the workers. -/
def JobMutation.withdraws : JobMutation → Option JobKey
  | .ackClaimed jobKey .. | .deadLetterClaimed jobKey .. | .cancel jobKey => some jobKey
  | .retryClaimed .. => none

/-- The jobs a transition takes back: acknowledged, cancelled or dead-lettered. -/
def Transition.withdrawn (t : Transition) : List JobKey :=
  t.jobsAck ++ t.jobMutations.filterMap JobMutation.withdraws

def World.fibersAfter (w : World) (t : Transition) (m : Uuid) : Option Fiber :=
  (applyFiberDeltas w.state.fibers t.fibersUpsert t.fibersDelete
    t.terminalCleanup.deleteAllFibers)[m]?

/-- Waiting for a timer, a message, a foreign effect or the first of several. -/
def WaitState.isOutside : WaitState → Bool
  | .timer _ | .msg .. | .effect _ | .v2Race .. => true
  | .running | .job _ | .join _ | .incident _ | .v2Barrier _ => false

/-- The state is kept and no incident is written. -/
structure Calm (w : World) (t : Transition) : Prop where
  state : t.nextSnapshot.state = w.state.inst.state
  incidents : t.incidents = []

section
variable (H : Host) (w : World) (t : Transition)

def World.Replaces (m : Uuid) (f : Fiber) : Prop :=
  ∀ k, w.fibersAfter t k = if k = m then some f else w.state.fibers[k]?

/-- The fibres in the scope of `r` are deleted, the others stay. -/
structure World.Sweeps (r : RecordId) : Prop where
  gone : ∀ m, (w.config H).Holds m r → w.fibersAfter t m = none
  spared : ∀ m, ¬ (w.config H).Holds m r → w.fibersAfter t m = w.state.fibers[m]?

def World.jobsIn (r : RecordId) : Set JobKey :=
  {k | ∃ m f, (w.config H).Holds m r ∧ w.state.fibers[m]? = some f ∧ f.wait = .job k}

end

def Stimulus.Reports (s : Stimulus) (effectId : EffectId) (jobKey : JobKey)
    (errorClass : ErrorClass) (retry : Option JobRetry) : Prop :=
  ∃ message attempt, s.command = .effectFailed effectId jobKey errorClass message retry attempt

inductive Handled (H : Host) (workflow : ExecutableWorkflow) (w : World) (s : Stimulus)
    (t : Transition) : Prop
  | ignored (calm : Calm w t) (fibers : ∀ m : Uuid, w.fibersAfter t m = w.state.fibers[m]?)
      (withdrawn : t.withdrawn = [] ∨ w.state.inst.state.isTerminal ∨
        ∃ effectId jobKey errorClass retry, s.Reports effectId jobKey errorClass retry ∧
          failedFiber (w.snapshot s) effectId jobKey = none ∧ t.withdrawn = jobKeyList jobKey)
  | completed {effectId : EffectId} {completion : JobCompletion} {f : Fiber}
      (hs : s.command = .effectCompleted effectId (.job completion))
      (live : w.state.fibers[f.fiberId]? = some f) (wait : f.wait = .job completion.jobKey)
      (calm : Calm w t)
      (fibers : w.Replaces t f.fiberId { f with pc := f.pc + 1, wait := .running })
      (withdrawn : t.withdrawn = [completion.jobKey])
  | resumed {m : Uuid} {f f' : Fiber} (live : w.state.fibers[m]? = some f)
      (wait : f.wait.isOutside) (running : f'.wait = .running) (calm : Calm w t)
      (fibers : w.Replaces t m f') (withdrawn : t.withdrawn = [])
  | resolved {incidentId : Uuid} (before : w.state.inst.state = .incidented incidentId)
      (after : t.nextSnapshot.state = .running)
      (fibers : (∃ f : Fiber, w.state.fibers[f.fiberId]? = some f ∧
          f.wait = .incident incidentId ∧ w.Replaces t f.fiberId { f with wait := .running }) ∨
        ((∀ (m : Uuid) (f : Fiber), w.state.fibers[m]? = some f → f.wait ≠ .incident incidentId) ∧
          ∀ m : Uuid, w.fibersAfter t m = w.state.fibers[m]?))
      (withdrawn : t.withdrawn = [])
  | raised {effectId : EffectId} {jobKey : JobKey} {errorClass : ErrorClass}
      {retry : Option JobRetry} {f : Fiber} {incident : Incident}
      (reports : s.Reports effectId jobKey errorClass retry)
      (live : w.state.inst.state.isTerminal = false)
      (hf : failedFiber (w.snapshot s) effectId jobKey = some f)
      (retried : isRetried errorClass retry = false)
      (route : matchedErrorRoute (w.snapshot s) f errorClass = none)
      (span : spannedBy (w.snapshot s) f errorClass = none)
      (state : t.nextSnapshot.state = .incidented incident.incidentId)
      (incidents : t.incidents = [incident]) (unresolved : incident.resolvedAt = none)
      (fibers : w.Replaces t f.fiberId { f with wait := .incident incident.incidentId })
      (withdrawn : t.withdrawn = if retry.isSome then [jobKey] else jobKeyList jobKey)
  | triggered {r : RecordId} {target : Addr} {record : ConcurrencyRecord} {interrupting : Bool}
      {h : Uuid} {handler : Fiber} {keys : List JobKey}
      (performs : w.Performs H workflow s (.trigger r target))
      (hrecord : w.state.concurrencyTable[r]? = some record)
      (hkind : record.kind = .guard interrupting) (fresh : w.state.fibers[h]? = none)
      (starts : w.fibersAfter t h = some handler) (running : handler.wait = .running)
      (stack : (∀ (m : Uuid) (f : Fiber), w.state.fibers[m]? = some f → r ∉ f.controlStack) →
        handler.controlStack = []) (calm : Calm w t)
      (gone : interrupting → ∀ m, (w.config H).Holds m r → w.fibersAfter t m = none)
      (spared : ∀ m, m ≠ h → ¬ (interrupting ∧ (w.config H).Holds m r) →
        w.fibersAfter t m = w.state.fibers[m]?)
      (withdrawn : ∀ k, k ∈ t.withdrawn ↔ k ∈ keys ∨ interrupting ∧ k ∈ w.jobsIn H r)
      (routed : keys = [] ∨ ∃ effectId jobKey errorClass retry f code,
        s.Reports effectId jobKey errorClass retry ∧
        failedFiber (w.snapshot s) effectId jobKey = some f ∧
        matchedErrorRoute (w.snapshot s) f errorClass = some (code, target, r) ∧
        keys = jobKeyList jobKey)
  | rolledBack {r : RecordId} {i : Uuid} (performs : w.Performs H workflow s (.rollback r i))
      (others : ∃ m, (w.config H).Live m ∧ ¬ (w.config H).Holds m r) (calm : Calm w t)
      (sweeps : w.Sweeps H t r)
      (withdrawn : (∀ k, k ∈ t.withdrawn ↔ k ∈ w.jobsIn H r) ∨
        ∃ effectId jobKey retry, s.Reports effectId jobKey .contractViolation retry ∧
          t.withdrawn = jobKeyList jobKey)
  | reparked {r : RecordId} {i : Uuid} {f' : Fiber} {incident : Incident}
      (performs : w.Performs H workflow s (.rollback r i))
      (all : ∀ m, (w.config H).Live m → (w.config H).Holds m r)
      (state : t.nextSnapshot.state = .incidented incident.incidentId)
      (incidents : t.incidents = [incident]) (unresolved : incident.resolvedAt = none)
      (wait : f'.wait = .incident incident.incidentId)
      (fibers : ∀ m, w.fibersAfter t m = if m = i then some f' else none)
      (withdrawn : (∀ k, k ∈ t.withdrawn ↔ k ∈ w.jobsIn H r) ∨
        ∃ effectId jobKey retry, s.Reports effectId jobKey .contractViolation retry ∧
          t.withdrawn = jobKeyList jobKey)
  | cleared (ended : t.nextSnapshot.state.isTerminal) (fibers : ∀ m, w.fibersAfter t m = none)

section
variable {H : Host} {workflow : ExecutableWorkflow} {w : World} {s : Stimulus} {t : Transition}

theorem replaces_of_upsert (hid : f'.fiberId = m) (hupserts : t.fibersUpsert = [f'])
    (hdeletes : t.fibersDelete = []) (hall : t.terminalCleanup.deleteAllFibers = false) :
    w.Replaces t m f' := by
  intro k
  rw [World.fibersAfter, hupserts, hdeletes, hall, getElem?_applyFiberDeltas]
  by_cases hk : k = m
  · simp [hk, hid]
  · have hne : f'.fiberId ≠ k := fun he => hk (he.symm.trans hid)
    simp [hk, hne]

theorem fibersAfter_same (hupserts : t.fibersUpsert = []) (hdeletes : t.fibersDelete = [])
    (hall : t.terminalCleanup.deleteAllFibers = false) (m : Uuid) :
    w.fibersAfter t m = w.state.fibers[m]? := by
  rw [World.fibersAfter, hupserts, hdeletes, hall, getElem?_applyFiberDeltas]
  simp

theorem handled_resumed (hupserts : t.fibersUpsert = [f']) (hdeletes : t.fibersDelete = [])
    (hall : t.terminalCleanup.deleteAllFibers = false) (hlive : w.state.fibers[m]? = some f)
    (hid : f'.fiberId = m) (hwait : f.wait.isOutside) (hrun : f'.wait = .running)
    (hstate : t.nextSnapshot.state = w.state.inst.state) (hincidents : t.incidents = [])
    (hwithdrawn : t.withdrawn = []) : Handled H workflow w s t :=
  .resumed hlive hwait hrun ⟨hstate, hincidents⟩ (replaces_of_upsert hid hupserts hdeletes hall)
    hwithdrawn

theorem mem_cancelledJobs {ids : List Uuid} {k : JobKey} :
    k ∈ (cancelledJobs snapshot ids).filterMap JobMutation.withdraws ↔
      ∃ m ∈ ids, ∃ f, snapshot.fibers[m]? = some f ∧ f.wait = .job k := by
  simp only [cancelledJobs, List.mem_filterMap]
  constructor
  · rintro ⟨mutation, ⟨m, hm, hmutation⟩, hk⟩
    split at hmutation
    · rename_i f hf
      split at hmutation
      · rename_i key hwait
        obtain rfl := Option.some.inj hmutation
        exact ⟨m, hm, f, hf, by simpa [JobMutation.withdraws, hwait] using hk⟩
      · simp at hmutation
    · simp at hmutation
  · rintro ⟨m, hm, f, hf, hwait⟩
    exact ⟨.cancel k, ⟨m, hm, by simp [hf, hwait]⟩, rfl⟩

theorem handlerChanges_jobs :
    (handlerChanges H snapshot context r target interrupting).incidents = [] ∧
      (handlerChanges H snapshot context r target interrupting).jobsAck = [] ∧
      (handlerChanges H snapshot context r target interrupting).jobMutations =
        cancelledJobs snapshot (if interrupting then (v2CancelGuardScope snapshot r).2 else []) := by
  cases interrupting <;> exact ⟨rfl, rfl, rfl⟩

theorem handled_trigger (hH : Function.Injective H.uuidOfSeed) (hw : w.Coherent H)
    (hperforms : w.Performs H workflow s (.trigger r target))
    (hrecord : w.state.concurrencyTable[r]? = some record)
    (hkind : record.kind = .guard interrupting) (hevents : joinLog events = [])
    (hrouted : keys = [] ∨ ∃ effectId jobKey errorClass retry f code,
      s.Reports effectId jobKey errorClass retry ∧ failedFiber (w.snapshot s) effectId jobKey =
      some f ∧ matchedErrorRoute (w.snapshot s) f errorClass = some (code, target, r) ∧
      keys = jobKeyList jobKey) :
    Handled H workflow w s (((handlerChanges H (w.snapshot s) (w.context s) r target
      interrupting).along keys timers events).finish w.state.inst) := by
  classical
  set changes := handlerChanges H (w.snapshot s) (w.context s) r target interrupting
  have hjobs : changes.incidents = [] ∧ changes.jobsAck = [] ∧ changes.jobMutations = _ :=
    handlerChanges_jobs
  obtain ⟨hnone, hack, hcancelled⟩ := hjobs
  have ht : Carries changes ((changes.along keys timers events).finish w.state.inst) :=
    handlerChanges_bare.carries hevents _
  have hfibers := trigger_fibers hH hw _ rfl (ht.upserts.trans handlerChanges_upserts)
    (ht.deletes.trans handlerChanges_deletes) ht.all ∅
  have hafter : ∀ m, w.fibersAfter _ m = _ := fun m => congrFun hfibers m
  have hfresh : w.state.fibers[(w.context s).derivedId H 0]? = none := by
    rw [Option.eq_none_iff_forall_ne_some]
    intro f hf
    exact derivedId_not_handedOut hH 0 (hw.formed.live _ f hf)
  refine .triggered hperforms hrecord hkind hfresh ((hafter _).trans (Function.update_self ..)) rfl ?_
    ⟨rfl, hnone⟩ ?_ ?_ ?_ hrouted
  · intro hout
    have hspec : (w.config H).HandlerStack r interrupting _ :=
      handlerStack_spec (s := s) interrupting hw
    rcases hspec with ⟨m, g, p, q, hg, hsplit, -⟩ | ⟨-, he⟩
    · exact (hout m g hg (by simp [hsplit])).elim
    · exact he
  · intro hint m hm
    have hne : m ≠ (w.context s).derivedId H 0 := by
      rintro rfl
      obtain ⟨g, hg, -⟩ := hm
      simp [show (w.config H).fibers _ = none from hfresh] at hg
    rw [hafter, Function.update_of_ne (by simpa [Fiber.new] using hne), if_pos ⟨hint, hm⟩]
  · intro m hne hm
    rw [hafter, Function.update_of_ne (by simpa [Fiber.new] using hne), if_neg hm]
    rfl
  · intro k
    change k ∈ (changes.jobsAck ++ keys) ++
      changes.jobMutations.filterMap JobMutation.withdraws ↔ _
    rw [hack, hcancelled, List.nil_append, List.mem_append, mem_cancelledJobs, hw.fibers]
    cases interrupting with
    | true => simp [World.jobsIn, hw.cancelled_iff]
    | false => simp

theorem handled_rollback (hw : w.Coherent H) {rolled changes : Changes} {inst : ProcessInstance}
    (hperforms : w.Performs H workflow s (.rollback r i)) (hevents : joinLog events = [])
    (hroll : RollsBack w s r rolled) (hincidents : rolled.incidents = [])
    (hlive : w.state.fibers[i]? = some f) (hmem : r ∈ effectiveControlStack f)
    (hlands : Lands H workflow (w.snapshot s) (w.context s) r record i rolled
      (restored.restore w.state.inst) changes inst)
    (hwithdrawn : (∀ k, k ∈ rolled.jobsAck ++ rolled.jobMutations.filterMap JobMutation.withdraws ↔
      k ∈ w.jobsIn H r) ∨ ∃ effectId jobKey retry, s.Reports effectId jobKey .contractViolation
      retry ∧ rolled.jobsAck ++ rolled.jobMutations.filterMap JobMutation.withdraws =
      jobKeyList jobKey) :
    Handled H workflow w s ((changes.along [] timers events).finish inst) := by
  classical
  have hothers := hroll.noOtherLive_iff hw ⟨f, hlive, hmem⟩
  have hlist : ∀ {changes' : Changes} {inst' : ProcessInstance},
      changes'.jobsAck = rolled.jobsAck → changes'.jobMutations = rolled.jobMutations →
      ((changes'.along [] timers events).finish inst').withdrawn =
        rolled.jobsAck ++ rolled.jobMutations.filterMap JobMutation.withdraws := by
    intro changes' inst' hacks hjobs
    simp [Transition.withdrawn, Changes.finish, Changes.along, hacks, hjobs]
  have hcases := hlands.cases hw hlive
  split at hcases
  · rename_i last
    obtain ⟨openedAt, incident, jobKey, -, -, hopen, rfl, rfl⟩ := hcases
    rw [hothers] at last
    refine .reparked hperforms last rfl ?_ hopen
      (show (f.reparked r openedAt incident.incidentId).wait = _ from rfl) (fun m => ?_) ?_
    · simp [reparkRolledBack, Changes.event, Changes.upsert, v2ReconcileAncestorMembership,
        Changes.mutateAll, Changes.finish, Changes.along, hincidents]
    · refine (congrFun (hroll.fibers_repark hw hlive last
        (hroll.toBare.repark.carries hevents _) ∅) m).trans ?_
      simp [Function.update_apply]
    · rw [hlist]
      · exact hwithdrawn
      · rfl
      · rfl
  · rename_i others
    obtain ⟨rfl, rfl⟩ := hcases
    rw [hothers] at others
    push Not at others
    have ht : Carries changes ((changes.along [] timers events).finish _) :=
      hroll.toBare.carries hevents (restored.restore w.state.inst)
    have hgone := hroll.fibers hw ht ∅
    refine .rolledBack hperforms others ⟨rfl, hincidents⟩
      ⟨fun m hm => (congrFun hgone m).trans (if_pos hm),
        fun m hm => (congrFun hgone m).trans (if_neg hm)⟩ ?_
    rwa [hlist rfl rfl]

theorem rollback_ledger {rolled : Changes}
    (h : v2RollbackGuardScope H (w.snapshot s) r (.dies i) {} = .ok (restored, rolled)) :
    rolled.incidents = [] ∧ rolled.jobsAck = [] ∧ rolled.jobMutations = [] := by
  obtain ⟨record, -, -, rfl⟩ := v2RollbackGuardScope_eq_ok h
  exact ⟨rfl, rfl, rfl⟩

theorem ackCompletion_withdraws (completion : JobCompletion) : (ackCompletion completion).2 ++
    (ackCompletion completion).1.filterMap JobMutation.withdraws = [completion.jobKey] := by
  unfold ackCompletion
  split <;> rfl

theorem Idle.handled {jobs : List JobMutation} {effects : List EffectMutation}
    (h : Idle (w.snapshot s) s.command events acks jobs timers effects) : Handled H workflow w s {
      nextSnapshot := w.state.inst, events, jobsAck := acks, jobMutations := jobs
      timerMutations := timers, effectMutations := effects } := by
  refine .ignored ⟨rfl, rfl⟩ (fibersAfter_same rfl rfl rfl) ?_
  cases h with
  | quiet | retried | consumed | late => exact Or.inl rfl
  | ended _ ended => exact Or.inr (Or.inl ended)
  | unmatched hs hf =>
    exact Or.inr (Or.inr ⟨_, _, _, _, ⟨_, _, hs⟩, hf, by simp [Transition.withdrawn]⟩)

theorem Reaction.handled (hH : Function.Injective H.uuidOfSeed) (hw : w.Coherent H)
    (h : Reaction H workflow (w.snapshot s) (w.context s) s.command t) :
    Handled H workflow w s t := by
  cases h with
  | ignored idle => exact idle.handled
  | stored | missed =>
    exact .ignored ⟨rfl, rfl⟩ (fibersAfter_same rfl rfl rfl) (Or.inl rfl)
  | cleared _ ended =>
    refine .cleared ended fun m => ?_
    simp [World.fibersAfter, applyFiberDeltas, retireAllArmedRecords]
  | child before => exact absurd before (hw.noChild _ _).1
  | @resolved incidentId _ _ hs before =>
    refine .resolved before rfl ?_ rfl
    cases hf : (w.snapshot s).fibers.values.find?
        (fun fiber => fiber.wait = .incident incidentId) with
    | none =>
      refine Or.inr ⟨fun m f hlive hwait => ?_, fibersAfter_same rfl rfl rfl⟩
      rw [List.find?_eq_none] at hf
      exact hf f (mem_values.mpr ⟨m, by rwa [hw.fibers]⟩) (by simpa using hwait)
    | some f =>
      obtain ⟨hlive, hwait⟩ := live_of_find hw hf
      exact Or.inl ⟨f, hlive, by simpa using hwait, replaces_of_upsert rfl rfl rfl rfl⟩
  | woken _ _ hf hwait | expired _ _ hf hwait =>
    rw [hw.fibers] at hf
    have hid := hw.keyed _ _ hf
    exact handled_resumed rfl rfl rfl hf hid (by simp [hwait, WaitState.isOutside]) rfl rfl rfl rfl
  | completed hs hf =>
    obtain ⟨hlive, hwait⟩ := live_of_find hw hf
    exact .completed hs hlive (by simpa using hwait) ⟨rfl, rfl⟩ (replaces_of_upsert rfl rfl rfl rfl)
      (ackCompletion_withdraws _)
  | answered _ hf hmatch =>
    rw [hw.fibers] at hf
    have hwait := (matchFfiCompletion_eq_ok hmatch).1 rfl
    have hid := hw.keyed _ _ hf
    exact handled_resumed rfl rfl rfl hf hid (by simp [hwait, WaitState.isOutside]) rfl rfl rfl rfl
  | won _ hf hmatch =>
    rw [hw.fibers] at hf
    obtain ⟨arms, hwait, -⟩ := (matchFfiCompletion_eq_ok hmatch).2 _ _ rfl
    have hid := hw.keyed _ _ hf
    exact handled_resumed rfl rfl rfl hf hid (by simp [hwait, WaitState.isOutside]) rfl rfl rfl rfl
  | @received race f' _ _ _ _ _ _ _ _ _ _ hs _ found =>
    obtain ⟨f, hmem, hresume⟩ := List.exists_of_findSome?_eq_some found
    have hlive := live_of_values hw hmem
    have hspec := messageResumption_eq_some hresume
    cases race with
    | none =>
      obtain ⟨⟨_, _, _, hwait⟩, rfl⟩ := hspec
      exact handled_resumed rfl rfl rfl hlive rfl (by simp [hwait, WaitState.isOutside]) rfl rfl
        rfl rfl
    | some r =>
      obtain ⟨arms, hwait, -, hf'⟩ := hspec
      exact handled_resumed rfl rfl rfl hlive (by rw [hf']) (by simp [hwait, WaitState.isOutside])
        (by rw [hf']) rfl rfl rfl
  | raised hs live hf retried route span _ withdrawn =>
    refine .raised ⟨_, _, hs⟩ live hf retried route span rfl rfl rfl
      (replaces_of_upsert rfl rfl rfl rfl) ?_
    rcases withdrawn with ⟨rfl, rfl, rfl⟩ | ⟨rfl, _, _, _, _, hretry, rfl⟩
    · simp [Transition.withdrawn]
    · simp [Transition.withdrawn, hretry, JobMutation.withdraws]
  | triggered hrecord hkind _ cause =>
    have hperforms : w.Performs H workflow s _ ∧ _ := cause.performs hrecord
    obtain ⟨hperforms, hjoins, -⟩ := hperforms
    refine handled_trigger hH hw hperforms hrecord hkind hjoins ?_
    cases cause with
    | told | timer => exact Or.inl rfl
    | routed hs _ hf _ hroute => exact Or.inr ⟨_, _, _, _, _, _, ⟨_, _, hs⟩, hf, hroute, rfl⟩
  | rolledBack hroll cause lands =>
    have hperforms : w.Performs H workflow s _ ∧ _ := cause.performs hw
    obtain ⟨hperforms, hjoins, -, -, -, -, f, hlive, hmem⟩ := hperforms
    obtain ⟨-, hrolled⟩ := rollsBack_of_eq_ok hroll
    obtain ⟨hincidents, hacks, hjobs⟩ := rollback_ledger hroll
    refine handled_rollback hw hperforms hjoins (hrolled.withJobs _ _) hincidents hlive hmem lands ?_
    cases cause with
    | failed hs => exact Or.inr ⟨_, _, _, ⟨_, _, hs⟩, by simp [hacks, hjobs]⟩
    | timer =>
      refine Or.inl fun k => ?_
      simp only [hacks, hjobs, List.nil_append, mem_cancelledJobs, hrolled.deletes, hw.fibers]
      simp [World.jobsIn, hw.cancelled_iff]

/-- The lists on jobs and incidents a command hands to the store. -/
structure Books where
  enqueued : List JobActivation
  acks : List JobKey
  jobs : List JobMutation
  dedupe : List DedupeWrite
  incidents : List Incident

def Changes.books (changes : Changes) : Books :=
  ⟨changes.jobsEnqueue, changes.jobsAck, changes.jobMutations, changes.dedupe, changes.incidents⟩

def Transition.books (t : Transition) : Books :=
  ⟨t.jobsEnqueue, t.jobsAck, t.jobMutations, t.dedupe, t.incidents⟩

section Books
variable {ts ts' : TickState}

theorem execute_books (h : execute H workflow snapshot context ts instruction = .ok (.next ts')) :
    ts'.changes.books = ts.changes.books := by
  cases execute_eq_ok h with
  | moved | opened | cached | listened | armed | published | closed | released | timed | routed | cycled
  | consumed => rfl
  | cancelled _ hrolls =>
    obtain ⟨record, -, -, rfl⟩ := v2RollbackGuardScope_eq_ok hrolls
    rfl

theorem tickStep_books (h : tickStep H workflow snapshot context ts = .ok (.next ts')) :
    ts'.changes.books = ts.changes.books := by
  obtain ⟨instruction, -, h⟩ := tickStep_eq_ok h
  exact execute_books h

inductive Finished (workflow : ExecutableWorkflow) (ts : TickState) (t : Transition) : Prop
  | task {instruction : Instr} {job : JobActivation}
      (fetch : workflow.instructions[ts.fiber.pc]? = some instruction) (word : instruction.isTask)
      (key : job.jobKey = ts.jobKey workflow)
      (upserts : t.fibersUpsert =
        ts.changes.fibersUpsert ++ [{ ts.fiber with wait := .job (ts.jobKey workflow) }])
      (deletes : t.fibersDelete = ts.changes.fibersDelete)
      (cleanup : t.terminalCleanup = ts.changes.cleanup.getD {})
      (books : t.books = { ts.changes.books with
        enqueued := ts.changes.books.enqueued ++ [job] })
      (state : t.nextSnapshot.state = ts.inst.state)
  | incident {incident : Incident} (unresolved : incident.resolvedAt = none)
      (upserts : t.fibersUpsert =
        ts.changes.fibersUpsert ++ [{ ts.fiber with wait := .incident incident.incidentId }])
      (deletes : t.fibersDelete = ts.changes.fibersDelete)
      (cleanup : t.terminalCleanup = ts.changes.cleanup.getD {})
      (books : t.books = { ts.changes.books with
        incidents := ts.changes.books.incidents ++ [incident] })
      (state : t.nextSnapshot.state = .incidented incident.incidentId)
  | other {fs : List Fiber}
      (waits : ∀ f ∈ fs, (∀ k, f.wait ≠ .job k) ∧ ∀ i, f.wait ≠ .incident i)
      (upserts : t.fibersUpsert = ts.changes.fibersUpsert ++ fs)
      (books : t.books = ts.changes.books)
      (state : t.nextSnapshot.state = ts.inst.state ∨ t.nextSnapshot.state.isTerminal)

theorem execute_finished {t : Transition}
    (hfetch : workflow.instructions[ts.fiber.pc]? = some instruction)
    (h : execute H workflow snapshot context ts instruction = .ok (.done t)) :
    Finished workflow ts t := by
  cases execute_eq_ok h with
  | enqueued _ htask => exact .task hfetch htask rfl rfl rfl rfl rfl rfl
  | failed _ hunresolved => exact .incident hunresolved rfl rfl rfl rfl rfl
  | awaited | raced | subscribed | arrived | waited => exact .other (by simp) rfl rfl (Or.inl rfl)
  | ended _ _ _ hlast =>
    refine .other (by simp) (List.append_nil _).symm rfl ?_
    rcases hlast with ⟨-, -, hterminal⟩ | ⟨-, hstate⟩
    · exact Or.inr hterminal
    · exact Or.inl hstate
  | terminated => exact .other (by simp) (List.append_nil _).symm rfl (Or.inr rfl)
  | forked _ hforks =>
    obtain rfl := TickOutcome.done.inj hforks
    refine .other ?_ rfl rfl (Or.inl rfl)
    intro f hf
    rw [forkChildren_eq] at hf
    obtain ⟨child, -, rfl⟩ := List.mem_map.mp hf
    simp [Fiber.new]

theorem trace_books {start : TickState} {n : ℕ} {opened : List (RecordId × Addr)}
    (h : Trace H workflow snapshot context start n opened ts) :
    ts.changes.books = start.changes.books := by
  induction h with
  | start => rfl
  | step _ hstep ih => exact (tickStep_books hstep).trans ih

theorem tick_finished (hH : Function.Injective H.uuidOfSeed) (hw : w.Coherent H)
    {fiberId : Option Uuid} {t : Transition} (hs : s.command = .tick fiberId)
    (hlimits : validateSnapshotLimits workflow (w.snapshot s) s.command.checksArrays = .ok ())
    (h : handle H workflow (w.snapshot s) (w.context s) s.command = .ok t) :
    ∃ opened ts, w.Visits H workflow s opened ts ∧ Mid H w s ts ∧
      ts.changes.books = ⟨[], [], [], [], []⟩ ∧
      tickStep H workflow (w.snapshot s) (w.context s) ts = .ok (.done t) ∧
      Finished workflow ts t := by
  obtain ⟨f, opened, ts, hticks, hvisits, hdone, -⟩ := applyTick_eq_ok hs hlimits h
  have hmid := (path_of_visits (C := fun _ _ => True) hH hw (fun _ _ _ _ _ => trivial) hvisits).1
  obtain ⟨f', -, n, -, htrace⟩ := id hvisits
  refine ⟨opened, ts, hvisits, hmid, trace_books htrace, hdone, ?_⟩
  obtain ⟨instruction, hfetch, hdone⟩ := tickStep_eq_ok hdone
  exact execute_finished hfetch hdone

end Books

end

end BpmnLite
