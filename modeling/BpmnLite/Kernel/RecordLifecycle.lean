import BpmnLite.Kernel.Refinement
import BpmnLite.Kernel.Reference
import BpmnLite.Records

/-!
# Records along a run

What a run of the kernel does to the concurrency table: a record that is in it stays, retired records
stay retired, and an armed record has a live fibre inside its scope as long as no command takes the
last one away.
-/

namespace BpmnLite

open Maps

/-- From the command that inserts it on, a record evolves: it is never removed or armed again, its
identity, kind, handler, opening address, arity and rollback snapshot stay, and its count does not
grow. -/
theorem records_evolve {H : Host} (hH : Function.Injective H.uuidOfSeed)
    (workflow : ExecutableWorkflow) (inst : ProcessInstance) (idempotencyKey : Uuid) (revision : ℕ)
    {w w' : World}
    (h : World.Reachable H workflow (fun _ _ => True) (World.genesis H inst idempotencyKey revision)
      w)
    (h' : World.Reachable H workflow (fun _ _ => True) w w') {y : RecordId} {r : ConcurrencyRecord}
    (hr : w.state.concurrencyTable[y]? = some r) :
    ∃ r', w'.state.concurrencyTable[y]? = some r' ∧ r.Evolves r' := by
  have hmeets : ∀ (w : World) (s : Stimulus), True → w.Meets (fun _ _ => True) H workflow s :=
    fun w s _ => ⟨fun _ _ _ => trivial, fun _ _ => trivial⟩
  obtain ⟨hw, -, -⟩ := path_of_reachable hH (genesis_coherent inst idempotencyKey revision) hmeets h
  obtain ⟨-, -, hpath⟩ := path_of_reachable hH hw hmeets h'
  exact hpath.evolves hw.formed hr

namespace Reference

/-- A fork into two branches that join at once. -/
def joined : ExecutableWorkflow :=
  workflow [.v2Fork [1, 1] 0, .v2Join 0, .end] ⟨0, 3, 3, 1, 2, 2⟩ (by decide +kernel)

/-- The first arrival is counted on the record the fork inserted. -/
theorem joined_record_evolves :
    ∃ r r', (after joined [.tick none]).state.concurrencyTable[host.forCommand 0 2 0]? = some r ∧
      (resume joined [.tick none] (after joined [.tick none])).state.concurrencyTable[
        host.forCommand 0 2 0]? = some r' ∧
      r.Evolves r' ∧ r'.counters.count < r.counters.count := by
  obtain ⟨r, hr, hcount⟩ := Option.map_eq_some_iff.mp (show ((after joined
    [.tick none]).state.concurrencyTable[host.forCommand 0 2 0]?).map (·.counters.count) = some 2 by
    decide +kernel)
  obtain ⟨r', hr', hcount'⟩ := Option.map_eq_some_iff.mp (show ((resume joined [.tick none] (after
    joined [.tick none])).state.concurrencyTable[host.forCommand 0 2 0]?).map (·.counters.count) =
    some 1 by decide +kernel)
  obtain ⟨r'', hr'', hevolves⟩ := records_evolve host_injective joined inst 0 1
    (reachable_after joined [.tick none])
    (reachable_resume [.tick none] (fun _ _ _ => trivial) _) hr
  obtain rfl := Option.mem_unique hr' hr''
  exact ⟨r, r', hr, hr', hevolves, by omega⟩

end Reference

section
variable {H : Host} {workflow : ExecutableWorkflow} {w : World} {s : Stimulus} {t : Transition}

/-- What holds of every state of a run that leaves no scope without a fibre. -/
structure World.Attended (H : Host) (w : World) : Prop where
  coherent : w.Coherent H
  enrolled : Enrolled (w.config H).fibers (w.config H).table
  covered : Covered (w.config H).fibers (w.config H).table
  ended : w.state.inst.state.isTerminal → ∀ m : Uuid, w.state.fibers[m]? = none

theorem genesis_attended (inst : ProcessInstance) (idempotencyKey : Uuid) (revision : ℕ) :
    (World.genesis H inst idempotencyKey revision).Attended H := by
  refine ⟨genesis_coherent inst idempotencyKey revision, fun m f hf y hy r hr => ?_,
    fun y r hr => ?_, fun h => ?_⟩
  · simp [World.config, genesis_table] at hr
  · simp [World.config, genesis_table] at hr
  · simp [World.genesis, PersistedSnapshotState.new, ProcessState.isTerminal] at h

theorem fetch_of_exec {opened : List (RecordId × Addr)} {ts : TickState} {i : Uuid} {f : Fiber}
    {instruction : Instr}
    (h : (w.during H s opened ts).Exec workflow.instructions i f instruction) :
    ts.fiber.fiberId = i ∧ workflow.instructions[ts.fiber.pc]? = some instruction := by
  obtain rfl : ts.fiber.fiberId = i := Option.some.inj h.focus
  obtain rfl : ts.fiber = f := by simpa [World.during] using h.live
  exact ⟨rfl, h.fetch⟩

theorem parts_of_next {opened : List (RecordId × Addr)} {ts next : TickState}
    (h : tickStep H workflow (w.snapshot s) (w.context s) ts = .ok (.next next)) :
    (w.during H s opened ts).Parts workflow.instructions := by
  refine ⟨fun i f hexec => ?_, fun i f targets pairing hexec => ?_⟩
  · simp only [tickStep, (fetch_of_exec hexec).2, execute, endFiber] at h
    split at h
    · obtain ⟨atTime, -, h⟩ := bind_eq_ok.mp h
      simp at h
    · simp at h
  · simp [tickStep, (fetch_of_exec hexec).2, execute, fork] at h

theorem Becomes.source {P : List Instr} {own : Uuid → Addr → EffectId} {c : Config}
    {old' : Set Uuid} {act : Act} {m : Uuid} {f' : Fiber} (h : Becomes P own c old' act m f') :
    (∃ k f, c.fibers k = some f) ∨ ∃ y r, c.table y = some r ∧ r.state = .armed := by
  cases h with
  | moved h | cached h | opened h | popped h | arrived h | raceClosed h | parked h | forked h =>
    exact Or.inl ⟨_, _, h.live⟩
  | woken _ hlive | completed _ hlive | failed _ hlive | won _ hlive | expired _ hlive =>
    exact Or.inl ⟨_, _, hlive⟩
  | handler _ hrecord harmed => exact Or.inr ⟨_, _, hrecord, harmed⟩
  | reparked _ _ _ _ _ hlive => exact Or.inl ⟨_, _, hlive⟩

section
variable (hH : Function.Injective H.uuidOfSeed) (hw : w.Attended H)
include hH hw

theorem parts_of_finishes (h : w.respond H workflow s = .ok t) {c c' : Config} {act : Act}
    (hfinishes : w.Finishes H workflow s c act)
    (hstep : Step workflow.instructions (w.own H) c act c')
    (hage : Step workflow.instructions (w.own H) c' .age ((w.commit H workflow s t).config H))
    (hact : ¬ act.isFree) : c.Parts workflow.instructions := by
  have hinv := commit_sound hw.coherent h
  have hfibers : ∀ m : Uuid, (w.commit H workflow s t).state.fibers[m]? = c'.fibers m :=
    fun m => congrFun hage.of_age.1 m
  have htable : ∀ y : RecordId, (w.commit H workflow s t).state.concurrencyTable[y]? = c'.table y :=
    fun y => congrFun hage.of_age.2 y
  rcases hfinishes with ⟨opened, ts, hvisits, rfl, rfl | rfl⟩ | ⟨rfl, -⟩
  · obtain ⟨hmid, hpath⟩ := path_of_visits (C := fun _ _ => True) hH hw.coherent
      (fun _ _ _ _ _ => trivial) hvisits
    have henrolled := hpath.enrolled hw.coherent.formed hw.enrolled
    have hexec : ∀ {i f instruction}, (w.during H s opened ts).Exec workflow.instructions i f
        instruction → instruction.isNative = false →
        Step workflow.instructions (w.own H) (w.during H s opened ts) (.exec i) c' := by
      intro i f instruction hexec hnative
      obtain ⟨rfl, hfetch⟩ := fetch_of_exec hexec
      rwa [act_eq_exec hfetch hnative] at hstep
    refine ⟨fun i f hend y hy r hr harmed => ?_, fun i f targets pairing hfork hnil => ?_⟩
    · obtain ⟨hsame, hnone⟩ := ((hexec hend rfl).of_parting hend).1 rfl
      have hmem : i ∈ r.members := henrolled i f hend.live y
        (by rwa [effectiveControlStack_of_running hend.running]) r hr harmed
      have hlive := hinv.live y r (by rw [htable, hsame, hr]) harmed i hmem
      rw [Std.ExtTreeMap.mem_iff_isSome_getElem?, hfibers, hnone] at hlive
      simp at hlive
    · obtain ⟨y, r, hr, harmed, hkind, hcount⟩ :=
        ((hexec hfork rfl).of_parting hfork).2 targets pairing rfl
      have hpos := (hinv.counts y r (by rw [htable, hr]) harmed hkind).1
      simp [hcount, hnil] at hpos
  · exact absurd trivial hact
  · refine ⟨fun i f hexec => ?_, fun i f targets pairing hexec => ?_⟩ <;>
      exact absurd hexec.focus (by simp [World.config])

theorem commit_ended (h : w.respond H workflow s = .ok t)
    (hended : (w.commit H workflow s t).state.inst.state.isTerminal) (m : Uuid) :
    (w.commit H workflow s t).state.fibers[m]? = none := by
  obtain ⟨t₀, hlimits, hhandle, -, -, ht⟩ := respond_eq_ok h
  have hkeeps := respond_keeps hH hw.coherent hlimits hhandle
  have hstate : (w.commit H workflow s t).state.inst.state = t₀.nextSnapshot.state := by
    rw [ht]
    simp [World.commit, materializeSnapshot, PersistedSnapshotState.new, hkeeps.override]
  rw [hstate] at hended
  rcases hkeeps.ended hended with hsame | hall
  · rw [hsame] at hended
    have hnone : ∀ k : Uuid, (w.config H).fibers k = none := hw.ended hended
    obtain ⟨c, act, c', hfinishes, hstep, hage⟩ := respond_finishes hH hw.coherent h
    rcases hfinishes with ⟨opened, ts, ⟨f, hticks, -⟩, -, -⟩ | ⟨rfl, -⟩
    · simp [hticks.running, ProcessState.isTerminal] at hended
    · change ((w.commit H workflow s t).config H).fibers m = none
      rw [hage.of_age.1, Option.eq_none_iff_forall_ne_some]
      intro f hf
      rcases hstep.becomes hf with ⟨hf, -⟩ | hbecomes
      · simp [hnone] at hf
      · rcases hbecomes.source with ⟨k, g, hg⟩ | ⟨y, r, hr, harmed⟩
        · simp [hnone] at hg
        · obtain ⟨k, g, hg, -⟩ := hw.covered y r hr harmed
          simp [hnone] at hg
  · rw [commit_fibers workflow s hw.coherent t, ht]
    simp [applyFiberDeltas, hall]

theorem commit_attended (hmeets : w.Meets (Config.Shelters workflow.instructions) H workflow s)
    (h : w.respond H workflow s = .ok t) : (w.commit H workflow s t).Attended H := by
  have hpath : Path (fun c act => c.Shelters workflow.instructions act ∧
      c.Parts workflow.instructions) workflow.instructions (w.own H) (w.config H)
      ((w.commit H workflow s t).config H) := by
    refine path_of_accepted hH hw.coherent h
      (fun _ _ _ hvisits hnext => ⟨hmeets.visits _ _ hvisits, parts_of_next hnext⟩) ?_
    intro c act c' hfinishes hstep hage
    by_cases hfree : act.isFree
    · exact Or.inl hfree
    · exact Or.inr ⟨(hmeets.finishes hfinishes).resolve_left hfree,
        parts_of_finishes hH hw h hfinishes hstep hage hfree⟩
  exact ⟨hw.coherent.commit hH h, hpath.enrolled hw.coherent.formed hw.enrolled,
    hpath.covered hw.coherent.formed hw.covered, commit_ended hH hw h⟩

end

theorem attended_of_reachable (hH : Function.Injective H.uuidOfSeed) {w₀ : World}
    (hw₀ : w₀.Attended H)
    (h : World.Reachable H workflow
      (fun w s => w.Meets (Config.Shelters workflow.instructions) H workflow s) w₀ w) :
    w.Attended H := by
  induction h with
  | refl => exact hw₀
  | tail _ hlast ih =>
    obtain ⟨s, t, hmeets, hrespond, rfl⟩ := hlast
    exact commit_attended hH ih hmeets hrespond

end

/-- In every run whose commands leave no scope without a fibre, an armed record is on the effective
control stack of a live fibre, and none is armed once the instance has ended. -/
theorem armed_records_held {H : Host} (hH : Function.Injective H.uuidOfSeed)
    (workflow : ExecutableWorkflow) (inst : ProcessInstance) (idempotencyKey : Uuid) (revision : ℕ)
    {w : World}
    (h : World.Reachable H workflow (fun w s => w.Meets (Config.Shelters workflow.instructions) H
      workflow s) (World.genesis H inst idempotencyKey revision) w) :
    (∀ (y : RecordId) (r : ConcurrencyRecord), w.state.concurrencyTable[y]? = some r →
      r.state = .armed → ∃ (m : Uuid) (f : Fiber), w.state.fibers[m]? = some f ∧
        y ∈ effectiveControlStack f) ∧
    (w.state.inst.state.isTerminal → ∀ (y : RecordId) (r : ConcurrencyRecord),
      w.state.concurrencyTable[y]? = some r → r.state ≠ .armed) := by
  have hw := attended_of_reachable hH (genesis_attended inst idempotencyKey revision) h
  refine ⟨fun y r hr harmed => hw.covered y r hr harmed, fun hended y r hr harmed => ?_⟩
  obtain ⟨m, f, hf, -⟩ := hw.covered y r hr harmed
  have hnone := hw.ended hended m
  simp only [World.config] at hf
  simp [hnone] at hf

namespace Reference

def guarded : ExecutableWorkflow :=
  workflow [.v2Guard 3, .execNative 0 0 0, .v2GuardEnd, .end] ⟨0, 2, 4, 1, 0, 1⟩ (by decide +kernel)

/-- The guard is held by the fibre that waits for the task. -/
theorem guarded_record_held :
    ∃ (r : ConcurrencyRecord) (m : Uuid) (f : Fiber), (after guarded
      [.tick none]).state.concurrencyTable[host.forCommand 0 2 0]? = some r ∧ r.state = .armed ∧
      (after guarded [.tick none]).state.fibers[m]? = some f ∧
      host.forCommand 0 2 0 ∈ effectiveControlStack f := by
  obtain ⟨r, hr, harmed⟩ := Option.map_eq_some_iff.mp (show ((after guarded
    [.tick none]).state.concurrencyTable[host.forCommand 0 2 0]?).map (·.state) = some .armed by
    decide +kernel)
  -- The program has no join, and a tick neither triggers a guard nor rolls one back.
  have hmeets : ∀ w : World, w.Meets (Config.Shelters guarded.instructions) host guarded
      { command := .tick none, commandId := 0, logicalTime := 0 } := by
    refine fun w => ⟨fun opened ts _ => ?_, fun act hact => ?_⟩
    · unfold TickState.act
      split
      · split
        · trivial
        · rename_i hfetch _
          intro f pairing below top record hexec
          simp [(fetch_of_exec hexec).2] at hfetch
      · intro f pairing below top record hexec
        have hjoin : Instr.v2Join pairing ∈ guarded.instructions :=
          List.mem_of_getElem? (fetch_of_exec hexec).2
        simp [guarded, workflow] at hjoin
    · cases hact <;> simp_all
  obtain ⟨m, f, hf, hheld⟩ := (armed_records_held host_injective guarded inst 0 1
    (reachable_after_of [.tick none] (by simpa using hmeets))).1 _ r hr harmed
  exact ⟨r, m, f, hr, harmed, hf, hheld⟩

/-- A task inside a rollback guard, inside a guard, inside a guard that does not interrupt. -/
def nested : ExecutableWorkflow :=
  workflow [.v2GuardN 8, .v2Guard 11, .v2GuardR, .execNative 0 0 0, .v2GuardREnd, .v2GuardEnd,
    .v2GuardNEnd, .end, .execNative 0 0 0, .v2GuardNEnd, .end, .v2GuardNEnd, .end]
    ⟨0, 3, 13, 3, 0, 3⟩ (by decide +kernel)

/-- Up to the task, the outer guard's handler, and a failure that rolls the innermost scope back. -/
def nestedFailure : List Command :=
  [.tick none, .v2TriggerGuard (host.forCommand 0 2 0),
    .effectFailed 0 (.activation 0 "pc_3" 3 0) .contractViolation "" none 0]

/-- The failed fibre dies with the rollback guard. The guard around it is still armed, but no fibre is
inside it any more. -/
theorem nested_guard_orphaned :
    World.Reachable host nested (fun _ _ => True) start (after nested nestedFailure) ∧
    ((after nested nestedFailure).state.concurrencyTable[host.forCommand 0 2 1]?).map (·.state) =
      some .armed ∧
    ∀ f ∈ (after nested nestedFailure).state.fibers.values,
      host.forCommand 0 2 1 ∉ effectiveControlStack f :=
  ⟨reachable_after nested nestedFailure, by decide +kernel, by decide +kernel⟩

end Reference

end BpmnLite
