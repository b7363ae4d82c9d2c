import BpmnLite.Kernel.Lifecycle
import BpmnLite.Kernel.Ring3

/-!
# Runs of the kernel are runs of the scope machine

An accepted command takes the machine from the configuration of the world before it to the
configuration of the world after it, by acts that all meet a condition when the command does. The
states a tick goes through are configurations on the way, also when the tick is rejected in the end.
-/

namespace BpmnLite

open Maps Forest

variable {workflow : ExecutableWorkflow} {C : Config → Act → Prop} {snapshot : Snapshot}
  {i m idempotencyKey : Uuid} {f : Fiber} {fiberId : Option Uuid} {n revision : ℕ}
  {opened : List (RecordId × Addr)} {ts start : TickState} {inst : ProcessInstance}

/-- The condition holds for every act the command performs. -/
structure World.Meets (C : Config → Act → Prop) (H : Host) (workflow : ExecutableWorkflow)
    (w : World) (s : Stimulus) : Prop where
  visits : ∀ opened ts, w.Visits H workflow s opened ts →
    C (w.during H s opened ts) (ts.act workflow s)
  performs : ∀ act, w.Performs H workflow s act → C (w.config H) act

section
variable {H : Host} {w : World} {s : Stimulus} {t : Transition}

theorem running_of_found
    (h : (match snapshot.fibers[i]? with
      | none => throw (.missingFiber i)
      | some fiber => do
        if fiber.wait ≠ .running then throw (.invalidCommand "selected fiber is not running")
        return fiber : Except TransitionError Fiber) = .ok f) :
    snapshot.fibers[i]? = some f ∧ f.wait = .running := by
  split at h
  · simp at h
  · rename_i fiber hfiber
    simp only at h
    split at h
    · simp [bind, Except.bind, throw, throwThe, MonadExceptOf.throw] at h
    · rename_i hrun
      rw [pure_eq_ok] at h
      subst h
      exact ⟨hfiber, by simpa using hrun⟩

theorem selectFiber_eq_ok (h : selectFiber snapshot fiberId = .ok f) :
    ∃ i : Uuid, snapshot.fibers[i]? = some f ∧ f.wait = .running := by
  unfold selectFiber at h
  split at h
  · exact ⟨_, running_of_found h⟩
  · split at h
    · exact ⟨_, running_of_found h⟩
    · simp [bind, Except.bind, throw, throwThe, MonadExceptOf.throw] at h

theorem World.Ticks.live (hw : w.Coherent H) (h : w.Ticks workflow s f) :
    w.state.fibers[f.fiberId]? = some f ∧ f.wait = .running := by
  obtain ⟨fiberId, -, hselect⟩ := h.command
  obtain ⟨i, hf, hrun⟩ := selectFiber_eq_ok hselect
  rw [hw.fibers] at hf
  exact ⟨(hw.keyed i f hf) ▸ hf, hrun⟩

theorem mid_tickStart (hw : w.Coherent H) (h : w.Ticks workflow s f) :
    Mid H w s (tickStart (w.snapshot s) f) := by
  obtain ⟨hf, hrun⟩ := h.live hw
  have hchain : f.controlStack ∈ chains (fun m => w.state.fibers[m]?) :=
    ⟨_, f, hf, (effectiveControlStack_of_running hrun).symm⟩
  refine ⟨⟨f, hf⟩, hrun, by simp [tickStart], rfl, rfl, by simp [tickStart], rfl, h.running, ?_, ?_,
    by simp [tickStart]⟩
  · rw [show (tickStart (w.snapshot s) f).fiber = f from rfl, Set.insert_eq_of_mem hchain]
    exact hw.formed.tree
  · intro y hy
    refine Or.inl (hw.formed.held _ f hf y ?_)
    rwa [effectiveControlStack_of_running hrun]

theorem select_step (hw : w.Coherent H) (h : w.Ticks workflow s f) :
    Step workflow.instructions (w.own H) (w.config H) (.select f.fiberId)
      (w.during H s [] (tickStart (w.snapshot s) f)) := by
  obtain ⟨hf, hrun⟩ := h.live hw
  have hconfig : w.during H s [] (tickStart (w.snapshot s) f) =
      { w.config H with focus := some f.fiberId, arms := [] } := by
    have hfibers : (w.during H s [] (tickStart (w.snapshot s) f)).fibers =
        (w.config H).fibers := by
      funext m
      by_cases hm : m = f.fiberId
      · subst hm
        simp [World.during, tickStart, World.config, hf]
      · simp [World.during, tickStart, World.config, hm]
    simp only [World.config] at hfibers
    simp only [World.config, ← hfibers]
    simp only [World.during, tickStart, List.append_nil, Nat.not_lt_zero, false_and, exists_false,
      Set.ofPred_false, Set.union_empty]
    rfl
  rw [hconfig]
  exact .select rfl hf hrun

theorem trace_of_runTick {steps : ℕ}
    (htrace : Trace H workflow (w.snapshot s) (w.context s) start n opened ts)
    (h : runTick H workflow (w.snapshot s) (w.context s) steps ts = .ok t) :
    ∃ m opened' ts', m < n + steps ∧
      Trace H workflow (w.snapshot s) (w.context s) start m opened' ts' ∧
      tickStep H workflow (w.snapshot s) (w.context s) ts' = .ok (.done t) ∧
      opened ++ tickOpenings H workflow (w.snapshot s) (w.context s) steps ts =
        opened' ++ opening H workflow (w.context s) ts' := by
  induction steps generalizing n opened ts with
  | zero => simp [runTick] at h
  | succ steps ih =>
    obtain ⟨outcome, hstep, h⟩ := bind_eq_ok.mp h
    cases outcome with
    | next ts' =>
      obtain ⟨m, opened', ts'', hm, htrace', hdone, hopened⟩ := ih (htrace.step hstep) h
      refine ⟨m, opened', ts'', by omega, htrace', hdone, ?_⟩
      rw [← hopened, tickOpenings, hstep, List.append_assoc]
    | done t' =>
      rw [pure_eq_ok] at h
      subst h
      exact ⟨n, opened, ts, by omega, htrace, hstep, by simp [tickOpenings, hstep]⟩

theorem respond_eq_ok (h : w.respond H workflow s = .ok t) :
    ∃ t₀, validateSnapshotLimits workflow (w.snapshot s) s.command.checksArrays = .ok () ∧
      handle H workflow (w.snapshot s) (w.context s) s.command = .ok t₀ ∧
      ring3ShadowCheck workflow (w.snapshot s) t₀ = none ∧ s.logicalTime < 2 ^ 63 ∧
      t = { t₀ with commandEnvelope := some ⟨s.commandId, s.logicalTime, .kernel s.command⟩ } :=
  apply_eq_ok h

theorem respond_of_handle
    (hlimits : validateSnapshotLimits workflow (w.snapshot s) s.command.checksArrays = .ok ())
    (h : handle H workflow (w.snapshot s) (w.context s) s.command = .ok t)
    (hsound : Sound workflow (w.snapshot s) t) (htime : s.logicalTime < 2 ^ 63) :
    w.respond H workflow s = .ok { t with
      commandEnvelope := some ⟨s.commandId, s.logicalTime, .kernel s.command⟩ } := by
  have hring3 := ring3ShadowCheck_eq_none.mpr hsound
  have hfits : ¬ 2 ^ 63 ≤ (w.context s).logicalTime := not_le.mpr htime
  simp only [World.respond, apply, hlimits, h, hring3, if_neg hfits, bind, Except.bind, pure,
    Except.pure]
  rfl

theorem applyTick_eq_ok (hs : s.command = .tick fiberId)
    (hlimits : validateSnapshotLimits workflow (w.snapshot s) s.command.checksArrays = .ok ())
    (h : handle H workflow (w.snapshot s) (w.context s) s.command = .ok t) :
    ∃ f opened ts, w.Ticks workflow s f ∧ w.Visits H workflow s opened ts ∧
      tickStep H workflow (w.snapshot s) (w.context s) ts = .ok (.done t) ∧
      w.opens H workflow s = opened ++ opening H workflow (w.context s) ts := by
  rw [hs] at h hlimits
  obtain ⟨hrunning, f, hselect, h⟩ := applyTick_runs h
  have hticks : w.Ticks workflow s f := ⟨⟨fiberId, hs, hselect⟩, hlimits, hrunning⟩
  have hstart : Trace H workflow (w.snapshot s) (w.context s) (tickStart (w.snapshot s) f) 0 [] _ :=
    .start
  obtain ⟨m, opened, ts, hm, htrace, hdone, hopened⟩ := trace_of_runTick hstart h
  refine ⟨f, opened, ts, hticks, ⟨f, hticks, m, by omega, htrace⟩, hdone, ?_⟩
  simp only [World.opens, hs, hselect, ← hopened, List.nil_append]

/-- How a command gets to its result: by the instruction that ends a tick, or by one act from the
state it finds. -/
def World.Finishes (H : Host) (workflow : ExecutableWorkflow) (w : World) (s : Stimulus)
    (c : Config) (act : Act) : Prop :=
  (∃ opened ts, w.Visits H workflow s opened ts ∧ c = w.during H s opened ts ∧
    (act = ts.act workflow s ∨ act = .clear)) ∨
  (c = w.config H ∧ (w.Performs H workflow s act ∨ act = .age))

theorem World.Meets.finishes (hC : w.Meets C H workflow s) {c : Config} {act : Act}
    (h : w.Finishes H workflow s c act) : act.isFree ∨ C c act := by
  rcases h with ⟨opened, ts, hvisits, rfl, rfl | rfl⟩ | ⟨rfl, hact | rfl⟩
  · exact Or.inr (hC.visits _ _ hvisits)
  · exact Or.inl trivial
  · exact Or.inr (hC.performs act hact)
  · exact Or.inl trivial

theorem commit_sound (hw : w.Coherent H) (h : w.respond H workflow s = .ok t) :
    KInvariant (w.commit H workflow s t).state.fibers
      (w.commit H workflow s t).state.concurrencyTable := by
  obtain ⟨t₀, -, -, hring3, -, ht⟩ := respond_eq_ok h
  have hsound := (ring3ShadowCheck_eq_none.mp hring3).invariant
  rw [commit_fibers workflow s hw t]
  rw [derivePostTransitionFrame, hw.fibers] at hsound
  rw [ht]
  exact hsound

structure Fiber.Bounded (workflow : ExecutableWorkflow) (f : Fiber) : Prop where
  pc : f.pc < workflow.instructions.length
  stack : f.stack.length ≤ workflow.limits.maxStack
  controlStack : f.controlStack.length ≤ workflow.limits.maxControlDepth

/-- What Ring 3 has checked of a state that was reached. The fibre a run starts with is running, and
no other is let in unchecked. -/
structure World.Checked (workflow : ExecutableWorkflow) (w : World) : Prop where
  frame : SoundFrame w.state.fibers w.state.concurrencyTable
  bounded : ∀ (m : Uuid) (f : Fiber), w.state.fibers[m]? = some f → f.wait ≠ .running →
    f.Bounded workflow

theorem mem_of_applyFiberDeltas {fibers : BTreeMap Uuid Fiber} {upserts : List Fiber}
    {deletes : List Uuid} {all : Bool}
    (h : (applyFiberDeltas fibers upserts deletes all)[m]? = some f) :
    f ∈ upserts ∨ fibers[m]? = some f := by
  cases all with
  | true => simp [applyFiberDeltas] at h
  | false =>
    rw [getElem?_applyFiberDeltas] at h
    split at h
    · simp at h
    · rcases Option.or_eq_some_iff.mp h with hfound | ⟨-, hold⟩
      · exact Or.inl (List.mem_reverse.mp (List.mem_of_find?_eq_some hfound))
      · exact Or.inr hold

theorem World.Checked.commit (hw : w.Coherent H) (hchecked : w.Checked workflow)
    (h : w.respond H workflow s = .ok t) : (w.commit H workflow s t).Checked workflow := by
  obtain ⟨t₀, -, -, hring3, -, ht⟩ := respond_eq_ok h
  have hsound := ring3ShadowCheck_eq_none.mp hring3
  have hframe := hsound.frame
  rw [derivePostTransitionFrame, hw.fibers] at hframe
  rw [ht, commit_envelope]
  refine ⟨?_, fun m f hf hparked => ?_⟩
  · rw [commit_fibers workflow s hw t₀]
    exact hframe
  · rw [commit_fibers workflow s hw t₀] at hf
    rcases mem_of_applyFiberDeltas hf with hnew | hold
    · obtain ⟨hpc, hstack, hcontrol⟩ := hsound.upserts f hnew
      exact ⟨hpc, hstack, hcontrol⟩
    · exact hchecked.bounded m f hold hparked

theorem World.Checked.sound_replace (hw : w.Coherent H) (hchecked : w.Checked workflow) {f' : Fiber}
    (hf : w.state.fibers[m]? = some f) (hupserts : t.fibersUpsert = [f'])
    (hdeletes : t.fibersDelete = []) (hall : t.terminalCleanup.deleteAllFibers = false)
    (hmutations : t.concurrencyMutations = []) (hid : f'.fiberId = f.fiberId)
    (hstack : effectiveControlStack f' = effectiveControlStack f)
    (heffects : ∀ e ∈ referencedEffects f', e ∈ referencedEffects f)
    (hdue : ∀ y, f'.wait = .v2Barrier y → f.wait = .v2Barrier y) (hbounded : f'.Bounded workflow) :
    Sound workflow (w.snapshot s) t := by
  have hframe : derivePostTransitionFrame (w.snapshot s) t =
      (w.state.fibers.insert m f', w.state.concurrencyTable) := by
    rw [derivePostTransitionFrame, hw.fibers, hupserts, hdeletes, hall, hmutations,
      ← hw.keyed m f hf, ← hid]
    rfl
  have hreplaced := hchecked.frame.insert hf hid heffects hdue
    (fun y r hr _ => ⟨hr, fun hy => hstack ▸ hy⟩) (fun k g hg y hy => ⟨rfl, fun hy => hstack ▸ hy⟩)
  refine hreplaced.sound hframe Std.ExtTreeMap.getElem?_insert_self ?_
  rw [hupserts]
  intro g hg
  obtain rfl := List.mem_singleton.mp hg
  exact ⟨hbounded.pc, hbounded.stack, hbounded.controlStack⟩

section
variable (hH : Function.Injective H.uuidOfSeed) (hw : w.Coherent H)
include hH hw

theorem path_of_trace (hticks : w.Ticks workflow s f)
    (hC : ∀ opened ts next, w.Visits H workflow s opened ts →
      tickStep H workflow (w.snapshot s) (w.context s) ts = .ok (.next next) →
      C (w.during H s opened ts) (ts.act workflow s))
    (htrace : Trace H workflow (w.snapshot s) (w.context s) (tickStart (w.snapshot s) f) n opened
      ts)
    (hn : n ≤ workflow.limits.maxSteps) :
    Mid H w s ts ∧
      Path C workflow.instructions (w.own H) (w.config H) (w.during H s opened ts) := by
  induction htrace with
  | start =>
    exact ⟨mid_tickStart hw hticks, .single ⟨.select f.fiberId, Or.inl trivial, select_step hw hticks⟩⟩
  | step htrace hstep ih =>
    obtain ⟨hmid, hpath⟩ := ih (by omega)
    obtain ⟨hmid', hlast⟩ := hmid.next hH hw (hpath.formed hw.formed) hstep
    exact ⟨hmid', hpath.tail ⟨_, Or.inr (hC _ _ _ ⟨f, hticks, _, by omega, htrace⟩ hstep), hlast⟩⟩

theorem path_of_visits
    (hC : ∀ opened ts next, w.Visits H workflow s opened ts →
      tickStep H workflow (w.snapshot s) (w.context s) ts = .ok (.next next) →
      C (w.during H s opened ts) (ts.act workflow s))
    (h : w.Visits H workflow s opened ts) :
    Mid H w s ts ∧
      Path C workflow.instructions (w.own H) (w.config H) (w.during H s opened ts) := by
  obtain ⟨f, hticks, n, hn, htrace⟩ := h
  exact path_of_trace hH hw hticks hC htrace hn.le

theorem respond_keeps
    (hlimits : validateSnapshotLimits workflow (w.snapshot s) s.command.checksArrays = .ok ())
    (h : handle H workflow (w.snapshot s) (w.context s) s.command = .ok t) : Keeps w t := by
  rcases tick_or_reacts h with ⟨i, hs⟩ | ⟨-, hreacts⟩
  · obtain ⟨f, opened, ts, hticks, hvisits, hdone, -⟩ := applyTick_eq_ok hs hlimits h
    exact (path_of_visits (C := fun _ _ => True) hH hw (fun _ _ _ _ _ => trivial)
      hvisits).1.keeps hdone
  · exact hreacts.keeps hw

theorem respond_finishes (h : w.respond H workflow s = .ok t) :
    ∃ c act c', w.Finishes H workflow s c act ∧ Step workflow.instructions (w.own H) c act c' ∧
      Step workflow.instructions (w.own H) c' .age ((w.commit H workflow s t).config H) := by
  obtain ⟨t₀, hlimits, hhandle, -, -, ht⟩ := respond_eq_ok h
  rw [World.config_commit hw]
  have hafter : ∀ opened old, w.after opened old t = w.after opened old t₀ := by
    rw [ht]
    exact fun _ _ => rfl
  -- The ids of the whole command count as handed out in the end.
  have hage : ∀ opened {old}, old ⊆ handedOut H (w.revision + 1) →
      Step workflow.instructions (w.own H) (w.after opened old t) .age
        (w.after opened (handedOut H (w.revision + 1)) t) := fun _ {_} hold => .age hold rfl
  rcases tick_or_reacts hhandle with ⟨i, hs⟩ | ⟨hother, hreacts⟩
  · obtain ⟨f, opened, ts, hticks, hvisits, hdone, hopens⟩ := applyTick_eq_ok hs hlimits hhandle
    obtain ⟨hmid, hpath⟩ := path_of_visits (C := fun _ _ => True) hH hw
      (fun _ _ _ _ _ => trivial) hvisits
    obtain ⟨act, old, hact, hold, hlast⟩ := hmid.done hH hw (hpath.formed hw.formed) hdone
    rw [hopens]
    refine ⟨_, act, _, Or.inl ⟨opened, ts, hvisits, rfl, hact⟩, ?_, hage _ hold⟩
    rwa [hafter]
  · have hopens : w.opens H workflow s = [] := by
      unfold World.opens
      split
      · rename_i i hs
        exact absurd hs (hother i)
      · rfl
    rw [hopens]
    rcases hreacts.answers hH hw with ⟨act, old, hact, hold, hstep⟩ | hquiet
    · rw [← hafter] at hstep
      exact ⟨_, act, _, Or.inr ⟨rfl, Or.inl hact⟩, hstep, hage _ hold⟩
    · have hstep := hage [] (config_old_subset (H := H) (w := w))
      rw [hafter [] (w.config H).old, hquiet] at hstep
      exact ⟨_, .age, _, Or.inr ⟨rfl, Or.inr rfl⟩, .age (fun _ h => h) rfl, hstep⟩

theorem path_of_accepted (h : w.respond H workflow s = .ok t)
    (hvisits : ∀ opened ts next, w.Visits H workflow s opened ts →
      tickStep H workflow (w.snapshot s) (w.context s) ts = .ok (.next next) →
      C (w.during H s opened ts) (ts.act workflow s))
    (hfinishes : ∀ c act c', w.Finishes H workflow s c act →
      Step workflow.instructions (w.own H) c act c' →
      Step workflow.instructions (w.own H) c' .age ((w.commit H workflow s t).config H) →
      act.isFree ∨ C c act) :
    Path C workflow.instructions (w.own H) (w.config H) ((w.commit H workflow s t).config H) := by
  obtain ⟨c, act, c', hlast, hstep, hage⟩ := respond_finishes hH hw h
  have hstart : Path C workflow.instructions (w.own H) (w.config H) c := by
    rcases hlast with ⟨opened, ts, hvisited, rfl, -⟩ | ⟨rfl, -⟩
    · exact (path_of_visits hH hw hvisits hvisited).2
    · exact .refl
  exact (hstart.tail ⟨act, hfinishes c act c' hlast hstep hage, hstep⟩).tail
    ⟨.age, Or.inl trivial, hage⟩

theorem path_of_respond (hC : w.Meets C H workflow s) (h : w.respond H workflow s = .ok t) :
    Path C workflow.instructions (w.own H) (w.config H) ((w.commit H workflow s t).config H) :=
  path_of_accepted hH hw h (fun _ _ _ hvisits _ => hC.visits _ _ hvisits)
    (fun _ _ _ hlast _ _ => hC.finishes hlast)

theorem World.Coherent.commit (h : w.respond H workflow s = .ok t) :
    (w.commit H workflow s t).Coherent H := by
  have hpath := path_of_respond (C := fun _ _ => True) hH hw
    ⟨fun _ _ _ => trivial, fun _ _ => trivial⟩ h
  have hinv := commit_sound hw h
  refine ⟨hpath.formed hw.formed, fun y r hr harmed m hm => ?_, ?_⟩
  · have hlive := hinv.live y r hr harmed m hm
    rw [Std.ExtTreeMap.mem_iff_isSome_getElem?, Option.isSome_iff_exists] at hlive
    obtain ⟨f, hf⟩ := hlive
    exact ⟨f, hf, hinv.onStack y r hr harmed m hm f hf⟩
  · obtain ⟨t₀, hlimits, hhandle, -, -, ht⟩ := respond_eq_ok h
    have hkeeps := respond_keeps hH hw hlimits hhandle
    have hstate : (w.commit H workflow s t).state.inst.state = t₀.nextSnapshot.state := by
      rw [ht, commit_envelope, commit_inst hkeeps.override]
    rw [hstate]
    intro a b
    rcases hkeeps.state with hsame | hrun | ⟨incidentId, hincident⟩ | hterminal
    · rw [hsame]
      exact hw.noChild a b
    · simp [hrun]
    · simp [hincident]
    · constructor <;> rintro he <;> simp [he, ProcessState.isTerminal] at hterminal

theorem commit_own (h : w.respond H workflow s = .ok t) :
    (w.commit H workflow s t).own H = w.own H := by
  obtain ⟨t₀, hlimits, hhandle, -, -, ht⟩ := respond_eq_ok h
  have hkeeps := respond_keeps hH hw hlimits hhandle
  have hid : (w.commit H workflow s t).state.inst.instanceId = w.state.inst.instanceId := by
    rw [ht, commit_envelope, commit_inst hkeeps.override, ← hkeeps.instanceId]
  rw [World.own, World.own, hid]

end

end

section Runs
variable {H : Host}

theorem genesis_fibers
    (h : (World.genesis H inst idempotencyKey revision).state.fibers[m]? = some f) :
    m = H.forCommand idempotencyKey 0 0 ∧ f = Fiber.new m 0 := by
  change ((∅ : BTreeMap Uuid Fiber).insert (H.forCommand idempotencyKey 0 0)
    (Fiber.new (H.forCommand idempotencyKey 0 0) 0))[m]? = some f at h
  rw [getElem?_insert] at h
  split at h
  · rename_i hm
    subst hm
    exact ⟨rfl, (Option.some.inj h).symm⟩
  · simp at h

theorem genesis_table (y : RecordId) :
    (World.genesis H inst idempotencyKey revision).state.concurrencyTable[y]? = none :=
  Std.ExtTreeMap.getElem?_empty

theorem genesis_coherent (inst : ProcessInstance) (idempotencyKey : Uuid) (revision : ℕ) :
    (World.genesis H inst idempotencyKey revision).Coherent H := by
  have hrecords : ∀ {y : RecordId} {r : ConcurrencyRecord} {p : Prop},
      (World.genesis H inst idempotencyKey revision).state.concurrencyTable[y]? = some r → p := by
    intro y r p h
    simp [genesis_table] at h
  have hchain : ∀ {m : Uuid} {f : Fiber},
      (World.genesis H inst idempotencyKey revision).state.fibers[m]? = some f →
      effectiveControlStack f = [] := by
    intro m f hf
    rw [(genesis_fibers hf).2]
    rfl
  refine ⟨⟨fun m f hf => ?_, ?_, fun m f hf => ?_, fun m f hf y hy => ?_, fun y r hr =>
    hrecords hr, fun y r hr => hrecords hr, fun y r hr => hrecords hr⟩, fun y r hr => hrecords hr, ?_⟩
  · rw [(genesis_fibers hf).2]
    rfl
  · refine isTree_empty.shrink ?_
    rintro chain ⟨m, f, hf, rfl⟩
    exact Or.inl (hchain hf)
  · obtain ⟨rfl, -⟩ := genesis_fibers hf
    exact ⟨_, 0, 0, Nat.zero_le _, rfl⟩
  · simp [hchain hf] at hy
  · simp [World.genesis, PersistedSnapshotState.new]

theorem genesis_checked (inst : ProcessInstance) (idempotencyKey : Uuid) (revision : ℕ) :
    (World.genesis H inst idempotencyKey revision).Checked workflow := by
  refine ⟨⟨⟨fun y r hr => ?_, fun y r hr => ?_, fun m f hf y hy => ?_, fun y r hr => ?_⟩,
    fun y r hr => ?_, fun p hp => ?_⟩, fun m f hf hparked => ?_⟩
  · simp [genesis_table] at hr
  · simp [genesis_table] at hr
  · rw [(genesis_fibers hf).2] at hy
    simp [effectiveControlStack, Fiber.new] at hy
  · simp [genesis_table] at hr
  · simp [genesis_table] at hr
  · obtain ⟨m, f, hf, he, -⟩ := mem_effectOwnerPairs.mp hp
    rw [(genesis_fibers hf).2] at he
    simp [referencedEffects, Fiber.new] at he
  · rw [(genesis_fibers hf).2] at hparked
    simp [Fiber.new] at hparked

/-- A run of the kernel whose commands meet the condition is a run of the machine that does. -/
theorem path_of_reachable (hH : Function.Injective H.uuidOfSeed) {w w' : World}
    (hw : w.Coherent H) {G : World → Stimulus → Prop}
    (hG : ∀ w s, G w s → w.Meets C H workflow s)
    (h : World.Reachable H workflow G w w') :
    w'.Coherent H ∧ w'.own H = w.own H ∧
      Path C workflow.instructions (w.own H) (w.config H) (w'.config H) := by
  induction h with
  | refl => exact ⟨hw, rfl, .refl⟩
  | tail _ hlast ih =>
    obtain ⟨hw', hown, hpath⟩ := ih
    obtain ⟨s, t, hmeets, hrespond, rfl⟩ := hlast
    refine ⟨hw'.commit hH hrespond, (commit_own hH hw' hrespond).trans hown, ?_⟩
    have hlast := path_of_respond hH hw' (hG _ _ hmeets) hrespond
    rw [hown] at hlast
    exact hpath.trans hlast

end Runs

end BpmnLite
