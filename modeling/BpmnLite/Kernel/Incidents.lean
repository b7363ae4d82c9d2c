import BpmnLite.Kernel.Ledger
import BpmnLite.Kernel.StackTree

/-!
# Incidents

The process state names one incident. `World.Tracks` says that it is the incident of the one fibre
parked on any; then resolving it is accepted and sets the fibre running. A failure that raises a
second incident while the first is open breaks it, and so do a trigger or a rollback that delete the
parked fibre, so every command of the run is asked to do neither.
-/

namespace BpmnLite

open Maps

def Parks (fibers : Uuid → Option Fiber) (m i : Uuid) : Prop :=
  ∃ f, fibers m = some f ∧ f.wait = .incident i

section
variable (H : Host) (workflow : ExecutableWorkflow) (w : World) (s : Stimulus)

def World.ParkedOn (m i : Uuid) : Prop := Parks (fun m => w.state.fibers[m]?) m i

def World.IsOpen (i : Uuid) : Prop :=
  ∃ incident, w.state.incidents[i]? = some incident ∧ incident.resolvedAt = none

/-- The command raises no incident while a fibre is parked on one, and deletes no fibre that is. -/
structure World.SparesIncidents : Prop where
  raise : ∀ {effectId jobKey errorClass retry} {f : Fiber},
    s.Reports effectId jobKey errorClass retry → w.state.inst.state.isTerminal = false →
    failedFiber (w.snapshot s) effectId jobKey = some f → isRetried errorClass retry = false →
    matchedErrorRoute (w.snapshot s) f errorClass = none →
    spannedBy (w.snapshot s) f errorClass = none → ∀ m i, ¬ w.ParkedOn m i
  trigger : ∀ {r target} {record : ConcurrencyRecord}, w.Performs H workflow s (.trigger r target) →
    w.state.concurrencyTable[r]? = some record → record.kind = .guard true →
    ∀ m i, (w.config H).Holds m r → ¬ w.ParkedOn m i
  rollback : ∀ {r k}, w.Performs H workflow s (.rollback r k) →
    (∃ m, (w.config H).Live m ∧ ¬ (w.config H).Holds m r) →
    ∀ m i, (w.config H).Holds m r → ¬ w.ParkedOn m i

/-- Every incident a fibre is parked on can be resolved, and one is parked on the incident the state
names. -/
structure World.Resolvable : Prop where
  isOpen : ∀ m i, w.ParkedOn m i → w.IsOpen i
  resolves : ∀ (m : Uuid) (f : Fiber) (i : Uuid) (s : Stimulus) (resolution : String),
    w.state.fibers[m]? = some f → f.wait = .incident i →
    s.command = .resolveIncident i resolution → s.logicalTime < 2 ^ 63 →
    validateSnapshotLimits workflow (w.snapshot s) true = .ok () →
    ∃ t, w.respond H workflow s = .ok t ∧
      (w.commit H workflow s t).state.fibers[m]? = some { f with wait := .running }
  named : ∀ i, w.state.inst.state = .incidented i → ∃ m, w.ParkedOn m i

/-- The state names the incident of the one fibre that is parked on any. -/
structure World.Tracks : Prop where
  parked : ∀ m i, w.ParkedOn m i → w.state.inst.state = .incidented i ∧ w.IsOpen i
  named : ∀ i, w.state.inst.state = .incidented i → ∃ m, w.ParkedOn m i
  single : ∀ m m' i i', w.ParkedOn m i → w.ParkedOn m' i' → m = m'

end

section
variable {H : Host} {workflow : ExecutableWorkflow} {w w' : World} {s : Stimulus} {t : Transition}

theorem commit_incidents (hkeyed : Keyed Incident.incidentId w.state.incidents) :
    (w.commit H workflow s t).state.incidents =
      t.incidents.foldl (fun m incident => m.insert incident.incidentId incident)
        w.state.incidents :=
  foldl_insert_values (keyed_foldl_insert t.incidents hkeyed)

theorem World.Tracks.resolves (hw : w.Coherent H) (hchecked : w.Checked workflow)
    (hkeyed : Keyed Incident.incidentId w.state.incidents) (htracks : w.Tracks) {m : Uuid} {f : Fiber}
    {i : Uuid} (hf : w.state.fibers[m]? = some f) (hwait : f.wait = .incident i)
    {resolution : String} (hs : s.command = .resolveIncident i resolution)
    (htime : s.logicalTime < 2 ^ 63)
    (hlimits : validateSnapshotLimits workflow (w.snapshot s) true = .ok ()) :
    ∃ t, w.respond H workflow s = .ok t ∧
      (w.commit H workflow s t).state.fibers[m]? = some { f with wait := .running } := by
  obtain ⟨hstate, incident, hincident, hopen⟩ := htracks.parked m i ⟨f, hf, hwait⟩
  have hid : f.fiberId = m := hw.keyed m f hf
  have hfind : (w.snapshot s).fibers.values.find? (fun f => f.wait = .incident i) = some f := by
    cases hfound : (w.snapshot s).fibers.values.find? (fun f => f.wait = .incident i) with
    | none =>
      have hmem : f ∈ (w.snapshot s).fibers.values := mem_values.mpr ⟨m, by rwa [hw.fibers]⟩
      have := List.find?_eq_none.mp hfound f hmem
      simp [hwait] at this
    | some g =>
      obtain ⟨hg, hgwait⟩ := live_of_find hw hfound
      have hsame := htracks.single _ m i i ⟨g, hg, by simpa using hgwait⟩ ⟨f, hf, hwait⟩
      rw [hsame] at hg
      exact hg.symm.trans hf
  have hsnapshot : (w.snapshot s).incidents[i]? = some incident := by
    rw [← hincident]
    exact congrArg (·[i]?) (foldl_insert_values hkeyed)
  let t : Transition := {
    nextSnapshot := { w.state.inst with state := .running }
    incidents := [{ incident with
      resolvedAt := some (s.logicalTime : ℤ), resolution := some resolution }]
    events := [.incidentResolved i resolution]
    fibersUpsert := [{ f with wait := .running }] }
  have hhandle : handle H workflow (w.snapshot s) (w.context s) s.command = .ok t := by
    have hnow : logicalTimestamp (w.context s) = .ok (s.logicalTime : ℤ) := if_pos htime
    rw [hs]
    simp only [handle, applyResolveIncident, hsnapshot, hopen, hfind, hnow, bind, Except.bind, pure,
      Except.pure]
    rw [if_neg (by simp)]
    exact if_neg (not_not_intro hstate)
  have hsound : Sound workflow (w.snapshot s) t := by
    obtain ⟨hpc, hstack, hcontrol⟩ := hchecked.bounded m f hf (by simp [hwait])
    exact hchecked.sound_replace hw hf rfl rfl rfl rfl rfl (by simp [effectiveControlStack, hwait])
      (by simp [referencedEffects]) (by simp) ⟨hpc, hstack, hcontrol⟩
  refine ⟨_, respond_of_handle (by rwa [hs]) hhandle hsound htime, ?_⟩
  rw [commit_envelope, commit_fibers workflow s hw, getElem?_applyFiberDeltas]
  simp [t, hid]

theorem World.Tracks.calm (h : w.Tracks) (hparked : ∀ m i, w'.ParkedOn m i ↔ w.ParkedOn m i)
    (hstate : w'.state.inst.state = w.state.inst.state)
    (hincidents : w'.state.incidents = w.state.incidents) : w'.Tracks := by
  refine ⟨fun m i hm => ?_, fun i hi => ?_, fun m m' i i' hm hm' => ?_⟩
  · obtain ⟨hnamed, hopen⟩ := h.parked m i ((hparked m i).mp hm)
    refine ⟨hstate.trans hnamed, ?_⟩
    rwa [World.IsOpen, hincidents]
  · obtain ⟨m, hm⟩ := h.named i (hstate ▸ hi)
    exact ⟨m, (hparked m i).mpr hm⟩
  · exact h.single m m' i i' ((hparked m i).mp hm) ((hparked m' i').mp hm')

theorem tracks_of_none (hparked : ∀ m i, ¬ w.ParkedOn m i)
    (hstate : ∀ i, w.state.inst.state ≠ .incidented i) : w.Tracks :=
  ⟨fun m i hm => absurd hm (hparked m i), fun i hi => absurd hi (hstate i),
    fun m _ i _ hm => absurd hm (hparked m i)⟩

theorem tracks_of_one {m₀ i₀ : Uuid} (hparked : ∀ m i, w.ParkedOn m i ↔ m = m₀ ∧ i = i₀)
    (hstate : w.state.inst.state = .incidented i₀) (hopen : w.IsOpen i₀) : w.Tracks := by
  refine ⟨fun m i hm => ?_, fun i hi => ?_, fun m m' i i' hm hm' => ?_⟩
  · obtain ⟨-, rfl⟩ := (hparked m i).mp hm
    exact ⟨hstate, hopen⟩
  · obtain rfl : i₀ = i := by simpa [hstate] using hi
    exact ⟨m₀, (hparked m₀ i₀).mpr ⟨rfl, rfl⟩⟩
  · exact ((hparked m i).mp hm).1.trans ((hparked m' i').mp hm').1.symm

section Replace
variable {m : Uuid} {f f' : Fiber} (hlive : w.state.fibers[m]? = some f) (hfibers : w.Replaces t m f')
include hlive hfibers

theorem World.Replaces.parked_iff (hf : ∀ i, f.wait ≠ .incident i) (hf' : ∀ i, f'.wait ≠ .incident i)
    (k i : Uuid) : Parks (w.fibersAfter t) k i ↔ w.ParkedOn k i := by
  by_cases hk : k = m
  · subst hk
    simp [Parks, World.ParkedOn, hfibers k, hlive, hf, hf']
  · simp [Parks, World.ParkedOn, hfibers k, hk]

end Replace

theorem commit_parkedOn (hw : w.Coherent H) (m i : Uuid) :
    (w.commit H workflow s t).ParkedOn m i ↔ Parks (w.fibersAfter t) m i := by
  rw [World.ParkedOn, commit_fibers workflow s hw]
  rfl

section Commit
variable (hw : w.Coherent H) (hkeyed : Keyed Incident.incidentId w.state.incidents)
  (htracks : w.state.inst.state.isTerminal = false → w.Tracks)
  (hlast : (w.commit H workflow s t).state.inst.state = t.nextSnapshot.state)
include hw hkeyed

theorem tracks_of_raised {m₀ : Uuid} {incident : Incident} (hopen : incident.resolvedAt = none)
    (hone : t.incidents = [incident])
    (hstate : (w.commit H workflow s t).state.inst.state = .incidented incident.incidentId)
    (hparked : ∀ m i, Parks (w.fibersAfter t) m i ↔ m = m₀ ∧ i = incident.incidentId) :
    (w.commit H workflow s t).Tracks := by
  refine tracks_of_one (fun m i => (commit_parkedOn hw m i).trans (hparked m i)) hstate
    ⟨incident, ?_, hopen⟩
  rw [commit_incidents hkeyed, hone]
  simp

include htracks hlast

theorem tracks_of_calm (hcalm : Calm w t) (hnext : t.nextSnapshot.state.isTerminal = false)
    (hparked : ∀ m i, Parks (w.fibersAfter t) m i ↔ w.ParkedOn m i) :
    (w.commit H workflow s t).Tracks := by
  refine (htracks (hcalm.state ▸ hnext)).calm
    (fun m i => (commit_parkedOn hw m i).trans (hparked m i)) (hlast.trans hcalm.state) ?_
  rw [commit_incidents hkeyed, hcalm.incidents]
  rfl

theorem tracks_of_handled (hspares : w.SparesIncidents H workflow s)
    (hnext : t.nextSnapshot.state.isTerminal = false) (h : Handled H workflow w s t) :
    (w.commit H workflow s t).Tracks := by
  cases h with
  | ignored calm fibers withdrawn =>
    refine tracks_of_calm hw hkeyed htracks hlast calm hnext fun m i => ?_
    simp only [Parks, World.ParkedOn, fibers]
  | completed hs live wait calm fibers withdrawn =>
    exact tracks_of_calm hw hkeyed htracks hlast calm hnext
      (fibers.parked_iff live (by simp [wait]) (by simp))
  | resumed live wait running calm fibers withdrawn =>
    refine tracks_of_calm hw hkeyed htracks hlast calm hnext
      (fibers.parked_iff live (fun i hi => ?_) (by simp [running]))
    simp [hi, WaitState.isOutside] at wait
  | resolved before after fibers withdrawn =>
    rename_i i₀
    have htracks := htracks (by rw [before]; rfl)
    obtain ⟨m₀, hm₀⟩ := htracks.named i₀ before
    refine tracks_of_none (fun m i hm => ?_) (by simp [hlast, after])
    rw [commit_parkedOn hw] at hm
    obtain ⟨g, hg, hgwait⟩ := hm
    rcases fibers with ⟨f, hf, hwait, hfibers⟩ | ⟨hnone, -⟩
    · rw [hfibers m] at hg
      split at hg
      · obtain rfl := Option.some.inj hg
        simp at hgwait
      · rename_i hne
        exact hne (htracks.single m _ i i₀ ⟨g, hg, hgwait⟩ ⟨f, hf, hwait⟩)
    · obtain ⟨f, hf, hwait⟩ := hm₀
      exact hnone m₀ f hf hwait
  | raised reports live hf retried route span state incidents unresolved fibers withdrawn =>
    rename_i f incident
    have hnone := hspares.raise reports live hf retried route span
    have hparked : ∀ m i, Parks (w.fibersAfter t) m i ↔
        m = f.fiberId ∧ i = incident.incidentId := by
      intro m i
      by_cases hm : m = f.fiberId
      · subst hm
        simp [Parks, fibers _, eq_comm (a := i)]
      · simpa [Parks, fibers m, hm] using not_exists.mp (hnone m i)
    exact tracks_of_raised hw hkeyed unresolved incidents (hlast.trans state) hparked
  | triggered performs hrecord hkind fresh starts running stack calm gone spared withdrawn routed =>
    rename_i r target record interrupting h handler keys
    refine tracks_of_calm hw hkeyed htracks hlast calm hnext fun m i => ?_
    by_cases hm : m = h
    · subst hm
      simp [Parks, World.ParkedOn, starts, fresh, running]
    · by_cases hheld : interrupting ∧ (w.config H).Holds m r
      · obtain ⟨rfl, hholds⟩ := hheld
        have hnone := hspares.trigger performs hrecord hkind m i hholds
        simpa [Parks, gone rfl m hholds] using hnone
      · simp only [Parks, World.ParkedOn, spared m hm hheld]
  | rolledBack performs others calm sweeps withdrawn =>
    rename_i r k
    refine tracks_of_calm hw hkeyed htracks hlast calm hnext fun m i => ?_
    by_cases hholds : (w.config H).Holds m r
    · have hnone := hspares.rollback performs others m i hholds
      simpa [Parks, sweeps.gone m hholds] using hnone
    · simp only [Parks, World.ParkedOn, sweeps.spared m hholds]
  | reparked performs all state incidents unresolved wait fibers withdrawn =>
    rename_i r k f' incident
    have hparked : ∀ m i, Parks (w.fibersAfter t) m i ↔ m = k ∧ i = incident.incidentId := by
      intro m i
      by_cases hm : m = k
      · subst hm
        simp [Parks, fibers m, wait, eq_comm (a := i)]
      · simp [Parks, fibers m, hm]
    exact tracks_of_raised hw hkeyed unresolved incidents (hlast.trans state) hparked
  | cleared ended fibers => simp [hnext] at ended

theorem tracks_of_tick {ts : TickState} (hrunning : w.state.inst.state = .running)
    (hmid : Mid H w s ts) (hbooks : ts.changes.books = ⟨[], [], [], [], []⟩)
    (hnext : t.nextSnapshot.state.isTerminal = false) (h : Finished workflow ts t) :
    (w.commit H workflow s t).Tracks := by
  have hnone : ∀ m i, ¬ w.ParkedOn m i := by
    intro m i hm
    have := ((htracks (by rw [hrunning]; rfl)).parked m i hm).1
    simp [hrunning] at this
  have hwritten : ∀ m i, Parks (w.fibersAfter t) m i → ∃ f ∈ t.fibersUpsert, f.wait = .incident i := by
    rintro m i ⟨f, hf, hwait⟩
    rcases mem_of_applyFiberDeltas hf with hnew | hold
    · exact ⟨f, hnew, hwait⟩
    · exact absurd ⟨f, hold, hwait⟩ (hnone m i)
  have hquiet : (∀ f ∈ t.fibersUpsert, ∀ i, f.wait ≠ .incident i) →
      t.nextSnapshot.state = .running → (w.commit H workflow s t).Tracks := by
    intro hwaits hstate
    refine tracks_of_none (fun m i hm => ?_) (by simp [hlast, hstate])
    obtain ⟨f, hf, hwait⟩ := hwritten m i ((commit_parkedOn hw m i).mp hm)
    exact hwaits f hf i hwait
  cases h with
  | task fetch word key upserts deletes cleanup books state =>
    refine hquiet (fun f hf i => ?_) (state.trans hmid.state)
    rw [upserts, hmid.upserts, List.nil_append, List.mem_singleton] at hf
    simp [hf]
  | incident unresolved upserts deletes cleanup books state =>
    rename_i incident
    rw [hbooks] at books
    rw [hmid.upserts, List.nil_append] at upserts
    have hafter : ∀ m, w.fibersAfter t m = if m ∈ ts.changes.fibersDelete then none else
        if m = ts.fiber.fiberId then some { ts.fiber with wait := .incident incident.incidentId }
        else w.state.fibers[m]? := by
      intro m
      rw [World.fibersAfter, cleanup, hmid.cleanup, upserts, deletes,
        show (Option.getD none ({} : TerminalCleanup)).deleteAllFibers = false from rfl,
        getElem?_applyFiberDeltas]
      by_cases hm : m = ts.fiber.fiberId
      · simp [hm]
      · simp [hm, Ne.symm hm]
    have hparked : ∀ m i, Parks (w.fibersAfter t) m i ↔
        m = ts.fiber.fiberId ∧ i = incident.incidentId := by
      intro m i
      by_cases hm : m = ts.fiber.fiberId
      · subst hm
        simp [Parks, hafter, hmid.kept, eq_comm (a := i)]
      · refine iff_of_false (fun h => ?_) (fun h => hm h.1)
        obtain ⟨f, hf, hwait⟩ := h
        rw [hafter, if_neg hm] at hf
        split at hf
        · simp at hf
        · exact hnone m i ⟨f, hf, hwait⟩
    exact tracks_of_raised hw hkeyed unresolved (congrArg Books.incidents books)
      (hlast.trans state) hparked
  | other waits upserts books state =>
    rcases state with hsame | hended
    · refine hquiet (fun f hf i => ?_) (hsame.trans hmid.state)
      rw [upserts, hmid.upserts, List.nil_append] at hf
      exact (waits f hf).2 i
    · simp [hnext] at hended

end Commit

/-- What every state of a run that spares the incidents has. -/
structure World.Incidents (H : Host) (workflow : ExecutableWorkflow) (w : World) : Prop where
  coherent : w.Coherent H
  checked : w.Checked workflow
  keyed : Keyed Incident.incidentId w.state.incidents
  tracks : w.state.inst.state.isTerminal = false → w.Tracks

theorem World.Incidents.commit (hH : Function.Injective H.uuidOfSeed) (hw : w.Incidents H workflow)
    (hspares : w.SparesIncidents H workflow s) (h : w.respond H workflow s = .ok t) :
    (w.commit H workflow s t).Incidents H workflow := by
  refine ⟨hw.coherent.commit hH h, hw.checked.commit hw.coherent h,
    keyed_foldl_insert _ (keyed_empty _), ?_⟩
  obtain ⟨t₀, hlimits, hhandle, -, -, ht⟩ := respond_eq_ok h
  have hkeeps := respond_keeps hH hw.coherent hlimits hhandle
  have hlast : (w.commit H workflow s t₀).state.inst.state = t₀.nextSnapshot.state := by
    rw [commit_inst hkeeps.override]
  rw [ht, commit_envelope]
  intro hnext
  rw [hlast] at hnext
  rcases tick_or_reacts hhandle with ⟨i, hs⟩ | ⟨-, hreacts⟩
  · obtain ⟨opened, ts, ⟨f, hticks, -⟩, hmid, hbooks, -, hfinished⟩ :=
      tick_finished hH hw.coherent hs hlimits hhandle
    exact tracks_of_tick hw.coherent hw.keyed hw.tracks hlast hticks.running hmid hbooks hnext
      hfinished
  · exact tracks_of_handled hw.coherent hw.keyed hw.tracks hlast hspares hnext
      (hreacts.handled hH hw.coherent)

theorem genesis_incidents (inst : ProcessInstance) (idempotencyKey : Uuid) (revision : ℕ) :
    (World.genesis H inst idempotencyKey revision).Incidents H workflow := by
  refine ⟨genesis_coherent .., genesis_checked .., keyed_empty _, fun _ => ?_⟩
  refine tracks_of_none ?_ (by simp [World.genesis, PersistedSnapshotState.new])
  rintro m i ⟨f, hf, hwait⟩
  rw [(genesis_fibers hf).2] at hwait
  simp [Fiber.new] at hwait

/-- In a run whose commands raise no second incident and delete no parked fibre, incidents stay
resolvable. -/
theorem incidents_resolvable (hH : Function.Injective H.uuidOfSeed) {inst : ProcessInstance}
    {idempotencyKey : Uuid} {revision : ℕ}
    (h : World.Reachable H workflow (World.SparesIncidents H workflow)
      (World.genesis H inst idempotencyKey revision) w)
    (hlive : w.state.inst.state.isTerminal = false) : w.Resolvable H workflow := by
  have hw : w.Incidents H workflow := by
    clear hlive
    induction h with
    | refl => exact genesis_incidents ..
    | tail _ hlast ih =>
      obtain ⟨s, t, hspares, hrespond, rfl⟩ := hlast
      exact ih.commit hH hspares hrespond
  have htracks := hw.tracks hlive
  refine ⟨fun m i hm => (htracks.parked m i hm).2, ?_, htracks.named⟩
  intro m f i s resolution hf hwait hs htime hlimits
  exact htracks.resolves hw.coherent hw.checked hw.keyed hf hwait hs htime hlimits

end

namespace Reference

/-- A process that fails unless a flag is set. -/
def failing : ExecutableWorkflow :=
  workflow [.loadFlag 0, .brIf 3, .fail 0, .end] ⟨1, 1, 4, 0, 0, 0⟩ (by decide +kernel)

def resolution (incidentId : Uuid) : Stimulus where
  command := .resolveIncident incidentId ""
  commandId := 0
  logicalTime := 0

/-- The fibre that failed goes on when its incident is resolved. -/
theorem failed_fiber_resumes : ∃ f t,
    (after failing [.tick none]).state.fibers[host.forCommand 0 0 0]? = some f ∧
    f.wait = .incident (host.forCommand 0 2 0) ∧
    (after failing [.tick none]).respond host failing (resolution (host.forCommand 0 2 0)) = .ok t ∧
    ((after failing [.tick none]).commit host failing (resolution (host.forCommand 0 2 0))
      t).state.fibers[host.forCommand 0 0 0]? = some { f with wait := .running } := by
  obtain ⟨f, hf, hwait⟩ := Option.map_eq_some_iff.mp (show ((after failing
    [.tick none]).state.fibers[host.forCommand 0 0 0]?).map (·.wait) =
      some (.incident (host.forCommand 0 2 0)) by decide +kernel)
  have hspares : ∀ w : World, w.SparesIncidents host failing
      { command := .tick none, commandId := 0, logicalTime := 0 } := by
    refine fun w => ⟨fun hreports => ?_, fun hact => ?_, fun hact => ?_⟩
    · obtain ⟨message, attempt, hs⟩ := hreports
      simp at hs
    · cases hact <;> simp_all
    · cases hact <;> simp_all
  have hreach : World.Reachable host failing (World.SparesIncidents host failing) start
      (after failing [.tick none]) := reachable_after_of [.tick none] (by simpa using hspares)
  have hresolvable := incidents_resolvable host_injective hreach (by decide +kernel)
  obtain ⟨t, ht, hresumed⟩ := hresolvable.resolves _ f _ (resolution (host.forCommand 0 2 0)) "" hf
    hwait rfl (by decide) (by decide +kernel)
  exact ⟨f, t, hf, hwait, ht, hresumed⟩

/-- Both branches of the fork get to their task, and both tasks fail. -/
def twoFailures : List Command :=
  [.tick none, .tick none, .tick none,
    .effectFailed 0 (.activation 0 "pc_1" 1 0) .contractViolation "" none 0,
    .effectFailed 0 (.activation 0 "pc_3" 3 0) .contractViolation "" none 0]

/-- The second incident takes the place of the first in the state, so that the first one, which is
open and has its fibre parked, cannot be resolved. -/
theorem first_incident_stuck :
    World.Reachable host forked (fun _ _ => True) start (after forked twoFailures) ∧
    (after forked twoFailures).state.inst.state = .incidented (host.forCommand 0 6 0) ∧
    (∃ f ∈ (after forked twoFailures).state.fibers.values,
      f.wait = .incident (host.forCommand 0 5 0)) ∧
    ((after forked twoFailures).respond host forked
      (resolution (host.forCommand 0 5 0))).isOk = false :=
  ⟨reachable_after forked twoFailures, by decide +kernel, by decide +kernel, by decide +kernel⟩

end Reference

end BpmnLite
