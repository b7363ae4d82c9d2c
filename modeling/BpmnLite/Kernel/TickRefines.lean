import BpmnLite.Kernel.Abstraction
import BpmnLite.Kernel.Executed

/-!
# A tick is a run of the scope machine

Each instruction of a tick is one step of the machine between the configurations before and after
it. `Mid` is what holds of the tick state between instructions: the fibre stays live and running,
and its control stack together with the chains of the snapshot is a tree, which is what the
cancellation of a scope relies on when it walks the snapshot in the middle of a tick.
-/

namespace BpmnLite

open Maps Forest
open Function (update update_of_ne)

variable {context : DeterministicContext} {m : Uuid} {g fiber : Fiber} {inst : ProcessInstance}
  {effects new : List DurableEffect} {events : List RuntimeEvent}
  {bufferedMessages : List BufferedMessageMutation} {raceArms : List V2RaceArm} {r y : RecordId}
  {below : List RecordId} {controlStackDeltas : List ControlStackDelta} {record : ConcurrencyRecord}
  {event : RuntimeEvent} {cancelled : List Uuid}

structure Mid (H : Host) (w : World) (s : Stimulus) (ts : TickState) : Prop where
  started : ∃ f, w.state.fibers[ts.fiber.fiberId]? = some f
  running : ts.fiber.wait = .running
  kept : ts.fiber.fiberId ∉ ts.changes.fibersDelete
  upserts : ts.changes.fibersUpsert = []
  cleanup : ts.changes.cleanup = none
  noRemove : ∀ y, .remove y ∉ ts.changes.concurrencyMutations
  instanceId : ts.inst.instanceId = w.state.inst.instanceId
  state : ts.inst.state = .running
  tree : IsTree (insert ts.fiber.controlStack (chains (fun m => w.state.fibers[m]?)))
  held : ∀ y ∈ ts.fiber.controlStack, y ∈ (w.during H s [] ts).old
  deleted : ∀ m ∈ ts.changes.fibersDelete, m ∈ (w.during H s [] ts).old

/-- What the machine calls the next instruction of a tick. -/
def TickState.act (workflow : ExecutableWorkflow) (s : Stimulus) (ts : TickState) : Act :=
  match workflow.instructions[ts.fiber.pc]? with
  | some (.execNative ..) =>
    if (s.dedupe (.activation ts.inst.instanceId (nodeName workflow ts.fiber.pc) ts.fiber.pc
        ts.fiber.loopEpoch)).isSome then .cached ts.fiber.fiberId
    else .exec ts.fiber.fiberId
  | _ => .exec ts.fiber.fiberId

section
variable {H : Host} {workflow : ExecutableWorkflow} {w : World} {s : Stimulus}
  {opened : List (RecordId × Addr)} {ts ts' : TickState} {instruction : Instr}

theorem Instr.not_opensRecord (h : instruction.isPlain) : ¬ instruction.opensRecord := by
  cases instruction <;> simp_all [isPlain, opensRecord]

theorem act_eq_exec (hfetch : workflow.instructions[ts.fiber.pc]? = some instruction)
    (h : instruction.isNative = false) : ts.act workflow s = .exec ts.fiber.fiberId := by
  unfold TickState.act
  rw [hfetch]
  cases instruction <;> first | rfl | simp [Instr.isNative] at h

theorem opening_eq_nil (hfetch : workflow.instructions[ts.fiber.pc]? = some instruction)
    (h : ¬ instruction.opensRecord) : opening H workflow context ts = [] := by
  simp [opening, hfetch, h]

theorem opening_eq (hfetch : workflow.instructions[ts.fiber.pc]? = some instruction)
    (h : instruction.opensRecord) :
    opening H workflow context ts = [(context.derivedId H ts.ordinal, ts.fiber.pc)] := by
  simp [opening, hfetch, h]

theorem Mid.exec (h : Mid H w s ts)
    (hfetch : workflow.instructions[ts.fiber.pc]? = some instruction) :
    (w.during H s opened ts).Exec workflow.instructions ts.fiber.fiberId ts.fiber instruction :=
  ⟨rfl, by simp [World.during], h.running, hfetch⟩

theorem during_set (opened' : List (RecordId × Addr))
    (hid : ts'.fiber.fiberId = ts.fiber.fiberId)
    (hdeletes : ts'.changes.fibersDelete = ts.changes.fibersDelete) :
    (w.during H s opened' ts').fibers =
      (w.during H s opened ts).set ts.fiber.fiberId ts'.fiber := by
  funext m
  by_cases hm : m = ts.fiber.fiberId
  · simp [World.during, Config.set, hm, hid]
  · simp [World.during, Config.set, hm, hid, hdeletes]

theorem during_other (hm : m ≠ ts.fiber.fiberId) :
    (w.during H s opened ts).fibers m =
      if m ∈ ts.changes.fibersDelete then none else w.state.fibers[m]? := by
  simp [World.during, hm]

theorem during_other_eq_some (hm : m ≠ ts.fiber.fiberId)
    (hg : (w.during H s opened ts).fibers m = some g) : w.state.fibers[m]? = some g := by
  rw [during_other hm] at hg
  split at hg
  · simp at hg
  · exact hg

theorem Mid.shrink (h : Mid H w s ts) (hid : ts'.fiber.fiberId = ts.fiber.fiberId)
    (hrun : ts'.fiber.wait = .running)
    (hstack : ts'.fiber.controlStack <+: ts.fiber.controlStack)
    (hdeletes : ∀ m ∈ ts'.changes.fibersDelete, m ∈ ts.changes.fibersDelete ∨
      m ≠ ts.fiber.fiberId ∧ m ∈ (w.during H s [] ts).old)
    (hremove : ∀ y, .remove y ∉ ts'.changes.concurrencyMutations)
    (hupserts : ts'.changes.fibersUpsert = ts.changes.fibersUpsert)
    (hcleanup : ts'.changes.cleanup = ts.changes.cleanup)
    (hordinal : ts'.ordinal = ts.ordinal)
    (hinstance : ts'.inst.instanceId = ts.inst.instanceId)
    (hstate : ts'.inst.state = ts.inst.state) : Mid H w s ts' where
  started := hid ▸ h.started
  running := hrun
  kept := by
    rw [hid]
    intro hmem
    rcases hdeletes _ hmem with hmem | ⟨hne, -⟩
    · exact h.kept hmem
    · exact hne rfl
  upserts := hupserts.trans h.upserts
  cleanup := hcleanup.trans h.cleanup
  noRemove := hremove
  instanceId := hinstance.trans h.instanceId
  state := hstate.trans h.state
  tree := by
    refine h.tree.shrink ?_
    rintro t (rfl | ht)
    · exact Or.inr ⟨_, Set.mem_insert _ _, hstack⟩
    · exact Or.inr ⟨t, Set.mem_insert_of_mem _ ht, List.prefix_rfl⟩
  held y hy := by
    have := h.held y (hstack.subset hy)
    simpa [World.during, hordinal] using this
  deleted m hm := by
    have hold : m ∈ (w.during H s [] ts).old := (hdeletes m hm).elim (h.deleted m) And.right
    simpa [World.during, hordinal] using hold

def World.own (H : Host) (w : World) : Uuid → Addr → EffectId :=
  H.forInstruction w.state.inst.instanceId

theorem Mid.own (h : Mid H w s ts) : H.forInstruction ts.inst.instanceId = w.own H := by
  rw [h.instanceId]
  rfl

/-- One instruction of a tick is one step of the machine. -/
def Refines (H : Host) (workflow : ExecutableWorkflow) (w : World) (s : Stimulus)
    (opened : List (RecordId × Addr)) (ts ts' : TickState) : Prop :=
  Mid H w s ts' ∧ Step workflow.instructions (w.own H) (w.during H s opened ts)
    (ts.act workflow s)
    (w.during H s (opened ++ opening H workflow (w.context s) ts) ts')

section
theorem Mid.moved (h : Mid H w s ts) (hid : fiber.fiberId = ts.fiber.fiberId)
    (hrun : fiber.wait = .running) (hstack : fiber.controlStack = ts.fiber.controlStack)
    (hinstance : inst.instanceId = ts.inst.instanceId) (hstate : inst.state = ts.inst.state) :
    Mid H w s { ts with
      fiber, inst, changes := { ts.changes with effects, events, bufferedMessages } } :=
  h.shrink hid hrun (hstack ▸ List.prefix_rfl) (fun _ => Or.inl) h.noRemove rfl rfl rfl hinstance
    hstate

theorem during_moved (hid : fiber.fiberId = ts.fiber.fiberId)
    (htimers : raceTimers effects = raceTimers ts.changes.effects)
    (hjoins : joinLog events = joinLog ts.changes.events) :
    w.during H s opened { ts with
      fiber, inst, changes := { ts.changes with effects, events, bufferedMessages } } =
        { w.during H s opened ts with
          fibers := (w.during H s opened ts).set ts.fiber.fiberId fiber } := by
  have hfibers : (w.during H s opened { ts with fiber }).fibers =
      (w.during H s opened ts).set ts.fiber.fiberId fiber := during_set opened hid rfl
  rw [← hfibers]
  simp only [World.during, raceTimers_append, htimers, joinLog_append, hjoins, hid]

end

variable (h : Mid H w s ts) (hfetch : workflow.instructions[ts.fiber.pc]? = some instruction)
include h hfetch

theorem refines_plain (hgoes : ts.fiber.Goes instruction fiber)
    (hinstance : inst.instanceId = ts.inst.instanceId) (hstate : inst.state = ts.inst.state)
    (htimers : raceTimers effects = raceTimers ts.changes.effects)
    (hjoins : joinLog events = joinLog ts.changes.events) :
    Refines H workflow w s opened ts { ts with
      fiber, inst, changes := { ts.changes with effects, events, bufferedMessages } } := by
  have hmoves := hgoes.moves h.running
  refine ⟨h.moved hmoves.fiberId hmoves.wait hmoves.controlStack hinstance hstate, ?_⟩
  rw [act_eq_exec hfetch hgoes.notNative, opening_eq_nil hfetch (Instr.not_opensRecord hgoes.plain),
    List.append_nil, during_moved hmoves.fiberId htimers hjoins]
  exact .plain (h.exec hfetch) hgoes.plain (by simp [hgoes.notNative]) hmoves

omit hfetch in
theorem refines_cached {taskType argc retc : ℕ} {completion : JobCompletion}
    (hfetch : workflow.instructions[ts.fiber.pc]? = some (.execNative taskType argc retc))
    (hfound : s.dedupe (ts.jobKey workflow) = some completion)
    (hinstance : inst.instanceId = ts.inst.instanceId) (hstate : inst.state = ts.inst.state) :
    Refines H workflow w s opened ts { ts with
      fiber := { ts.fiber with
        stack := ts.fiber.stack ++ List.replicate retc (.bool true), pc := ts.fiber.pc + 1 }
      inst } := by
  have hact : ts.act workflow s = .cached ts.fiber.fiberId := by
    unfold TickState.act
    rw [hfetch]
    exact if_pos (Option.isSome_iff_exists.mpr ⟨completion, hfound⟩)
  have hconfig : w.during H s opened { ts with
      fiber := { ts.fiber with
        stack := ts.fiber.stack ++ List.replicate retc (.bool true), pc := ts.fiber.pc + 1 }
      inst } = _ := during_moved rfl rfl rfl
  refine ⟨h.moved rfl h.running rfl hinstance hstate, ?_⟩
  rw [hact, opening_eq_nil hfetch (by simp [Instr.opensRecord]), List.append_nil, hconfig]
  exact .cached (h.exec hfetch) (by simp)

theorem refines_arm (harms : ts.Arms H instruction fiber raceArms new)
    (htimers : raceTimers effects = raceTimers ts.changes.effects ++ raceTimers new)
    (hjoins : joinLog events = joinLog ts.changes.events) :
    Refines H workflow w s opened ts { ts with
      fiber, raceArms, changes := { ts.changes with effects, events } } := by
  obtain ⟨arm, harm, rfl⟩ := harms.arms
  have hmoves := harms.moves h.running
  rw [h.own] at harm
  have hword : instruction.isNative = false ∧ ¬ instruction.opensRecord := by
    generalize raceTimers new = timers at harm
    cases harm <;> simp [Instr.isNative, Instr.opensRecord]
  refine ⟨h.shrink hmoves.fiberId hmoves.wait (hmoves.controlStack ▸ List.prefix_rfl)
    (fun _ => Or.inl) h.noRemove rfl rfl rfl rfl rfl, ?_⟩
  have hfibers : (w.during H s opened { ts with fiber }).fibers =
      (w.during H s opened ts).set ts.fiber.fiberId fiber := during_set opened hmoves.fiberId rfl
  have hconfig : w.during H s opened { ts with
      fiber
      raceArms := ts.raceArms ++ [arm]
      changes := { ts.changes with effects, events } } = { w.during H s opened ts with
        fibers := (w.during H s opened ts).set ts.fiber.fiberId fiber
        arms := (w.during H s opened ts).arms ++ [arm]
        timers := (w.during H s opened ts).timers ++ raceTimers new } := by
    rw [← hfibers]
    simp only [World.during, raceTimers_append, htimers, joinLog_append, hjoins, hmoves.fiberId,
      List.append_assoc]
  rw [act_eq_exec hfetch hword.1, opening_eq_nil hfetch hword.2, List.append_nil, hconfig]
  exact .arm (h.exec hfetch) hmoves harm

omit hfetch in
theorem refines_armError {errorCode : Option String} {handler : Addr}
    {mutations : List ConcurrencyMutation}
    (hfetch : workflow.instructions[ts.fiber.pc]? = some (.v2GuardArmError errorCode handler))
    (harms : armErrorRoute r (errorCode, handler) ts.changes.concurrencyMutations.reverse = .ok
      mutations) (htop : ts.fiber.controlStack.getLast? = some r) :
    Refines H workflow w s opened ts { ts with
      fiber := { ts.fiber with pc := ts.fiber.pc + 1 }
      changes := { ts.changes with concurrencyMutations := mutations.reverse } } := by
  obtain ⟨hremove, record, hrecord, hall⟩ :=
    armErrorRoute_eq_ok w.state.concurrencyTable harms (by simpa using h.noRemove)
  rw [List.reverse_reverse] at hrecord hall
  have hmoves : ts.fiber.Moves (.v2GuardArmError errorCode handler)
      { ts.fiber with pc := ts.fiber.pc + 1 } := moves_next rfl rfl h.running
  refine ⟨h.shrink rfl h.running List.prefix_rfl (fun _ => Or.inl) (by simpa using hremove) rfl rfl
    rfl rfl rfl, ?_⟩
  have htable : lookup w.state.concurrencyTable mutations.reverse =
      update (lookup w.state.concurrencyTable ts.changes.concurrencyMutations) r
        (some { record with
          errorRoutes := insertErrorRoute (errorCode, handler) record.errorRoutes }) := by
    funext y
    refine (hall y).trans ?_
    by_cases hy : r = y
    · subst hy
      simp
    · simp [hy, update_of_ne (Ne.symm hy), lookup]
  have hfibers : (w.during H s opened
      { ts with fiber := { ts.fiber with pc := ts.fiber.pc + 1 } }).fibers =
        (w.during H s opened ts).set ts.fiber.fiberId _ := during_set opened rfl rfl
  have hconfig : w.during H s opened { ts with
      fiber := { ts.fiber with pc := ts.fiber.pc + 1 }
      changes := { ts.changes with concurrencyMutations := mutations.reverse } } =
        { w.during H s opened ts with
          fibers := (w.during H s opened ts).set ts.fiber.fiberId
            { ts.fiber with pc := ts.fiber.pc + 1 }
          table := update (w.during H s opened ts).table r (some { record with
            errorRoutes := insertErrorRoute (errorCode, handler) record.errorRoutes }) } := by
    rw [← hfibers]
    simp only [World.during, htable]
  rw [act_eq_exec hfetch rfl, opening_eq_nil hfetch (by simp [Instr.opensRecord]),
    List.append_nil, hconfig]
  exact .armError (h.exec hfetch) hmoves htop hrecord

theorem refines_close (hclose : instruction.closesGuard)
    (hstack : ts.fiber.controlStack = below ++ [r])
    (hjoins : joinLog events = joinLog ts.changes.events) :
    Refines H workflow w s opened ts { ts with
      fiber := ts.fiber.leave below
      changes := { ts.changes with
        concurrencyMutations := ts.changes.concurrencyMutations ++ [ConcurrencyMutation.retire r]
        controlStackDeltas, events } } := by
  have hword : instruction.isNative = false ∧ ¬ instruction.opensRecord := by
    cases instruction <;> simp_all [Instr.closesGuard, Instr.isNative, Instr.opensRecord]
  refine ⟨h.shrink rfl h.running (hstack ▸ List.prefix_append _ _) (fun _ => Or.inl) ?_ rfl rfl rfl
    rfl rfl, ?_⟩
  · intro y
    simpa using h.noRemove y
  have hfibers : (w.during H s opened { ts with fiber := ts.fiber.leave below }).fibers =
      (w.during H s opened ts).set ts.fiber.fiberId (ts.fiber.leave below) := during_set opened rfl rfl
  have hconfig : w.during H s opened { ts with
      fiber := ts.fiber.leave below
      changes := { ts.changes with
        concurrencyMutations := ts.changes.concurrencyMutations ++ [ConcurrencyMutation.retire r]
        controlStackDeltas, events } } = { w.during H s opened ts with
          fibers := (w.during H s opened ts).set ts.fiber.fiberId (ts.fiber.leave below)
          table := lookup w.state.concurrencyTable
            (ts.changes.concurrencyMutations ++ [.retire r]) } := by
    rw [← hfibers]
    simp only [World.during, joinLog_append, hjoins]
    rfl
  rw [act_eq_exec hfetch hword.1, opening_eq_nil hfetch hword.2, List.append_nil, hconfig]
  exact .close (h.exec hfetch) hclose hstack (rewrites_retire _ _ r)

omit h hfetch in
theorem not_mem_during_old (hH : Function.Injective H.uuidOfSeed) {n : ℕ} (hn : ts.ordinal ≤ n) :
    (w.context s).derivedId H n ∉ (w.during H s opened ts).old := by
  rintro (hold | ⟨ordinal, hlt, he⟩)
  · exact derivedId_not_handedOut hH n hold
  · have := derivedId_injective hH he
    omega

theorem refines_open (hH : Function.Injective H.uuidOfSeed) (hw : w.Coherent H)
    (hrecord : record.id = (w.context s).derivedId H ts.ordinal)
    (hopen : instruction.Opens ts.fiber.pc ts.fiber.fiberId
      { record with members := record.members.insert ts.fiber.fiberId })
    (harms : raceArms = if record.kind = .race then [] else ts.raceArms)
    (hjoins : joinLog [event] = []) :
    Refines H workflow w s opened ts { ts.openScope record event with raceArms } := by
  have hword : instruction.isNative = false ∧ instruction.opensRecord := by
    cases instruction <;> simp_all [Instr.isNative, Instr.opensRecord, Instr.Opens]
  have hnew : record.id ∉ (w.during H s opened ts).old := hrecord ▸ not_mem_during_old hH le_rfl
  have hold : (w.during H s opened { ts.openScope record event with raceArms }).old =
      insert record.id (w.during H s opened ts).old := by
    ext id
    simp only [World.during, TickState.openScope, hrecord, Set.mem_union, Set.mem_ofPred_eq,
      Set.mem_insert_iff, Nat.lt_succ_iff_lt_or_eq]
    constructor
    · rintro (hid | ⟨ordinal, hlt | rfl, rfl⟩)
      · exact Or.inr (Or.inl hid)
      · exact Or.inr (Or.inr ⟨ordinal, hlt, rfl⟩)
      · exact Or.inl rfl
    · rintro (rfl | hid | ⟨ordinal, hlt, rfl⟩)
      · exact Or.inr ⟨_, Or.inr rfl, rfl⟩
      · exact Or.inl hid
      · exact Or.inr ⟨ordinal, Or.inl hlt, rfl⟩
  have hmid : Mid H w s { ts.openScope record event with raceArms } := by
    have hold' : (w.during H s [] { ts.openScope record event with raceArms }).old =
      insert record.id (w.during H s [] ts).old := hold
    refine ⟨h.started, h.running, h.kept, h.upserts, h.cleanup, ?_, h.instanceId, h.state, ?_, ?_, ?_⟩
    · intro y
      simpa [TickState.openScope, Changes.mutate, Changes.delta, Changes.event] using h.noRemove y
    · refine h.tree.grow (t := ts.fiber.controlStack)
        ⟨_, Set.mem_insert _ _, List.prefix_rfl⟩ ?_
      rintro t (rfl | ht)
      · refine Or.inr (Or.inr ⟨record.id, rfl, ?_⟩)
        rintro u (rfl | ⟨m, f, hf, rfl⟩) hmem
        · exact hnew (h.held _ hmem)
        · exact hnew (Or.inl (hw.formed.held m f hf _ hmem))
      · exact Or.inr (Or.inl ⟨t, Set.mem_insert_of_mem _ ht, List.prefix_rfl⟩)
    · intro y hy
      rw [hold']
      rcases List.mem_append.mp hy with hy | hy
      · exact Set.mem_insert_of_mem _ (h.held y hy)
      · exact List.mem_singleton.mp hy ▸ Set.mem_insert _ _
    · intro m hm
      rw [hold']
      exact Set.mem_insert_of_mem _ (h.deleted m hm)
  refine ⟨hmid, ?_⟩
  have hfibers : (w.during H s opened { ts.openScope record event with raceArms }).fibers =
      (w.during H s opened ts).set ts.fiber.fiberId { ts.fiber with
        controlStack := ts.fiber.controlStack ++ [record.id], pc := ts.fiber.pc + 1 } :=
    during_set opened rfl rfl
  have htable : lookup w.state.concurrencyTable
      (ts.openScope record event).changes.concurrencyMutations = _ := lookup_insert _ _ _
  have hevents : joinLog (ts.openScope record event).changes.events = joinLog ts.changes.events :=
    joinLog_event hjoins _
  have hconfig : w.during H s (opened ++ [(record.id, ts.fiber.pc)])
      { ts.openScope record event with raceArms } = { w.during H s opened ts with
        fibers := (w.during H s opened ts).set ts.fiber.fiberId { ts.fiber with
          controlStack := ts.fiber.controlStack ++ [record.id], pc := ts.fiber.pc + 1 }
        table := update (w.during H s opened ts).table record.id
          (some { record with members := record.members.insert ts.fiber.fiberId })
        old := insert record.id (w.during H s opened ts).old
        arms := if record.kind = .race then [] else (w.during H s opened ts).arms
        opened := (w.during H s opened ts).opened ++ [(record.id, ts.fiber.pc)] } := by
    rw [← hfibers, ← hold]
    simp only [World.during, htable, harms, joinLog_append, hevents, List.append_assoc]
    rfl
  rw [act_eq_exec hfetch hword.1, opening_eq hfetch hword.2, ← hrecord, hconfig]
  exact .open (h.exec hfetch) hopen hnew

omit h hfetch in
theorem mem_removalOps_during (hw : w.Coherent H) (hcancelled : ts.fiber.fiberId ∉ cancelled)
    (y : RecordId) (m : Uuid) (hlive : (w.during H s opened ts).Live m) :
    (y, .remove m) ∈ removalOps (w.snapshot s) cancelled ↔
      m ∈ cancelled ∧ (w.during H s opened ts).Leaves m y := by
  rw [mem_removalOps, hw.fibers]
  refine and_congr_right fun hm => ?_
  have hne : m ≠ ts.fiber.fiberId := by
    rintro rfl
    exact hcancelled hm
  obtain ⟨g, hg⟩ := hlive
  constructor
  · rintro ⟨f, hf, hy⟩
    obtain rfl : g = f := by simpa [during_other_eq_some hne hg] using hf
    exact ⟨g, hg, hy⟩
  · rintro ⟨f, hf, hy⟩
    exact ⟨f, during_other_eq_some hne hf, hy⟩

omit h hfetch in
theorem live_of_leaves {c : Config} (h : c.Leaves m y) : c.Live m := by
  obtain ⟨g, hg, -⟩ := h
  exact ⟨g, hg⟩

omit h hfetch in
theorem during_cancelled (opened : List (RecordId × Addr)) {p : Uuid → Prop} [DecidablePred p]
    (hid : ts'.fiber.fiberId = ts.fiber.fiberId)
    (hdeletes : ts'.changes.fibersDelete = ts.changes.fibersDelete ++ cancelled)
    (hcancelled : ∀ m, m ≠ ts.fiber.fiberId → (w.during H s opened ts).Live m →
      (m ∈ cancelled ↔ p m)) :
    (w.during H s opened ts').fibers = update
      (fun m => if p m then none else (w.during H s opened ts).fibers m) ts.fiber.fiberId
      (some ts'.fiber) := by
  funext m
  by_cases hm : m = ts.fiber.fiberId
  · subst hm
    simp [World.during, hid]
  · have hm' : m ≠ ts'.fiber.fiberId := hid ▸ hm
    rw [update_of_ne hm, during_other hm', hdeletes]
    by_cases hlive : (w.during H s opened ts).Live m
    · have hiff := hcancelled m hm hlive
      obtain ⟨g, hg⟩ := hlive
      rw [hg]
      rw [during_other hm] at hg
      by_cases hd : m ∈ ts.changes.fibersDelete
      · simp [hd] at hg
      · by_cases hp : p m
        · simp [hiff.mpr hp, hp]
        · simpa [hd, mt hiff.mp hp, hp] using hg
    · have hnone : (w.during H s opened ts).fibers m = none := by
        cases hg : (w.during H s opened ts).fibers m with
        | none => rfl
        | some g => exact absurd ⟨g, hg⟩ hlive
      rw [hnone]
      rw [during_other hm] at hnone
      by_cases hd : m ∈ ts.changes.fibersDelete
      · simp [hd]
      · have hstate : w.state.fibers[m]? = none := by simpa [hd] using hnone
        simp [hstate]

omit h hfetch in
theorem during_cut (opened : List (RecordId × Addr)) (ts next : TickState) {p : Uuid → Prop}
    [DecidablePred p] {joins : List (RecordId × Uuid × Bool)}
    (hid : next.fiber.fiberId = ts.fiber.fiberId)
    (hdeletes : next.changes.fibersDelete = ts.changes.fibersDelete ++ cancelled)
    (hcancelled : ∀ m, m ≠ ts.fiber.fiberId → (w.during H s opened ts).Live m →
      (m ∈ cancelled ↔ p m))
    (hordinal : next.ordinal = ts.ordinal) (harms : next.raceArms = ts.raceArms)
    (heffects : next.changes.effects = ts.changes.effects)
    (hevents : joinLog next.changes.events = joinLog ts.changes.events ++ joins) :
    w.during H s opened next = { w.during H s opened ts with
      fibers := update (fun m => if p m then none else (w.during H s opened ts).fibers m)
        ts.fiber.fiberId (some next.fiber)
      table := lookup w.state.concurrencyTable next.changes.concurrencyMutations
      joins := (w.during H s opened ts).joins ++ joins } := by
  rw [← during_cancelled opened hid hdeletes hcancelled]
  simp only [World.during, hid, hordinal, harms, heffects, joinLog_append, hevents,
    List.append_assoc]

omit hfetch in
theorem refines_release (hw : w.Coherent H) (hformed : (w.during H s opened ts).Formed)
    {pairing : Addr} (hfetch : workflow.instructions[ts.fiber.pc]? = some (.v2Join pairing))
    (hstack : ts.fiber.controlStack = below ++ [r])
    (hfetched : fetchRecordInTransition (w.snapshot s) ts.changes r = some record)
    (hcount : record.counters.count ≤ 1) (hjoins : joinLog [event] = [(r, ts.fiber.fiberId, true)]) :
    Refines H workflow w s opened ts { ts with
      fiber := ts.fiber.leave below
      changes := ((v2ReconcileAncestorMembership (w.snapshot s)
        (removalOps (w.snapshot s) (record.members.toList.filter (· ≠ ts.fiber.fiberId))) [r]
        { ts.changes with
          controlStackDeltas
          fibersDelete := ts.changes.fibersDelete ++
            record.members.toList.filter (· ≠ ts.fiber.fiberId) }).mutate
              (.retire r)).event event } := by
  set cancelled := record.members.toList.filter (· ≠ ts.fiber.fiberId) with hcancelled
  have hmem : ∀ m, m ∈ cancelled ↔ m ∈ record.members ∧ m ≠ ts.fiber.fiberId := by
    intro m
    simp [hcancelled]
  have hself : ts.fiber.fiberId ∉ cancelled := by simp [hmem]
  set changes := ((v2ReconcileAncestorMembership (w.snapshot s) (removalOps (w.snapshot s) cancelled)
    [r] { ts.changes with
      controlStackDeltas, fibersDelete := ts.changes.fibersDelete ++ cancelled }).mutate
        (.retire r)).event event with hchanges
  have hmutations : changes.concurrencyMutations = (v2ReconcileAncestorMembership (w.snapshot s)
      (removalOps (w.snapshot s) cancelled) [r] ts.changes).concurrencyMutations ++ [.retire r] := by
    rw [hchanges]
    exact congrArg (· ++ [ConcurrencyMutation.retire r]) (reconcile_mutations_congr rfl)
  refine ⟨h.shrink rfl h.running (hstack ▸ List.prefix_append _ _) ?_ ?_ rfl rfl rfl rfl rfl, ?_⟩
  · intro m hm
    refine (List.mem_append.mp hm).imp_right fun hm => ⟨((hmem m).mp hm).2, ?_⟩
    exact hformed.members r record (lookup_of_fetch hfetched) m ((hmem m).mp hm).1
  · intro y
    simpa [hmutations, v2ReconcileAncestorMembership, Changes.mutateAll] using h.noRemove y
  have hevents : joinLog changes.events =
      joinLog ts.changes.events ++ [(r, ts.fiber.fiberId, true)] := by
    rw [← hjoins, ← joinLog_append]
    rfl
  rw [act_eq_exec hfetch rfl, opening_eq_nil hfetch (by simp [Instr.opensRecord]),
    List.append_nil, during_cut opened ts { ts with fiber := ts.fiber.leave below, changes }
      (p := (· ∈ record.members)) rfl rfl (fun m hm _ => by simp [hmem, hm]) rfl rfl rfl hevents]
  refine .release (h.exec hfetch) hstack (lookup_of_fetch hfetched) hcount ?_
  -- The members are reconciled first, then the barrier is retired.
  have hgone : ∀ y m, (w.during H s opened ts).Live m →
      ((y, .remove m) ∈ removalOps (w.snapshot s) cancelled ↔
        m ∈ record.members ∧ m ≠ ts.fiber.fiberId ∧ (w.during H s opened ts).Leaves m y) := by
    intro y m hlive
    rw [mem_removalOps_during hw hself y m hlive, hmem, and_assoc]
  rw [hmutations]
  exact rewrites_release hw.keyedTable hgone (fun y m hg => live_of_leaves hg.2.2) ts.changes r

omit hfetch in
theorem cancels_during (hw : w.Coherent H) (hstack : ts.fiber.controlStack = below ++ [r]) :
    (w.during H s opened ts).Cancels (some ts.fiber.fiberId) below r
      (· ∈ (v2CancelGuardScope (w.snapshot s) r).1) := by
  have hother : ∀ {m g}, some m ≠ some ts.fiber.fiberId →
      (w.during H s opened ts).fibers m = some g → w.state.fibers[m]? = some g := fun hm hg =>
    during_other_eq_some (fun h => hm (h ▸ rfl)) hg
  refine ⟨hw.dead_iff.mpr (Or.inl rfl), ?_, ?_, ?_⟩
  · intro m g y hm hg habove
    exact hw.dead_iff.mpr (Or.inr ⟨m, g, hother hm hg, habove⟩)
  · intro m g y hm hg hdead hy
    exact hw.inside hdead (hother hm hg) hy
  · -- The stack being ticked and the chains of the snapshot agree below `r`.
    intro y hy hdead
    have hnodup := h.tree.nodup (Set.mem_insert _ _)
    rw [hstack] at hnodup
    rcases hw.dead_iff.mp hdead with rfl | ⟨k, f, hf, p, q, hpq, hyq⟩
    · exact (List.nodup_append.mp hnodup).2.2 y hy y (by simp) rfl
    · have hbelow : below = p := h.tree.below_eq (Set.mem_insert _ _)
        (Set.mem_insert_of_mem _ ⟨k, f, hf, rfl⟩) (q := []) hstack hpq
      have hchain := hw.formed.tree.nodup ⟨k, f, hf, rfl⟩
      rw [hpq] at hchain
      exact (List.nodup_append.mp hchain).2.2 y (hbelow ▸ hy) y (List.mem_cons_of_mem _ hyq) rfl

omit hfetch in
theorem refines_cancel (hw : w.Coherent H) {restored : RollbackSnapshot} {changes : Changes}
    (hfetch : workflow.instructions[ts.fiber.pc]? = some .v2CancelScope)
    (hroll : v2RollbackGuardScope H (w.snapshot s) r (.continues ts.fiber.fiberId) { ts.changes with
      controlStackDeltas } = .ok (restored, changes))
    (hstack : ts.fiber.controlStack = below ++ [r]) :
    Refines H workflow w s opened ts { ts with
      fiber := ts.fiber.leave below, changes, inst := restored.restore ts.inst } := by
  classical
  obtain ⟨record, hfetched, hpayload, hchanges⟩ := v2RollbackGuardScope_eq_ok hroll
  set cancelled := (v2CancelGuardScope (w.snapshot s) r).2.filter (· ≠ ts.fiber.fiberId)
    with hcancelled
  have hmem : ∀ m, m ≠ ts.fiber.fiberId → (w.during H s opened ts).Live m →
      (m ∈ cancelled ↔ (w.during H s opened ts).Holds m r) := by
    rintro m hm ⟨g, hg⟩
    have hstate := during_other_eq_some hm hg
    simp only [hcancelled, List.mem_filter, hm, ne_eq, not_false_eq_true, decide_true, and_true,
      hw.cancelled_iff, Config.Holds, World.config, hstate, hg]
  have hself : ts.fiber.fiberId ∉ cancelled := by simp [hcancelled]
  have hdeletes : changes.fibersDelete = ts.changes.fibersDelete ++ cancelled := by
    rw [hchanges]
    rfl
  have hmutations : changes.concurrencyMutations = (v2ReconcileAncestorMembership (w.snapshot s)
      (removalOps (w.snapshot s) cancelled) (v2CancelGuardScope (w.snapshot s) r).1 (ts.changes.mutateAll
        ((v2CancelGuardScope (w.snapshot s) r).1.map .retire))).concurrencyMutations := by
    rw [hchanges]
    exact reconcile_mutations_congr rfl
  have hevents : joinLog changes.events = joinLog ts.changes.events := by
    rw [hchanges]
    exact joinLog_event rfl _
  refine ⟨h.shrink rfl h.running (hstack ▸ List.prefix_append _ _) ?_ ?_ (by rw [hchanges]; rfl)
    (by rw [hchanges]; rfl) rfl rfl rfl, ?_⟩
  · intro m hm
    rw [hdeletes] at hm
    refine (List.mem_append.mp hm).imp_right fun hm => ⟨fun he => hself (he ▸ hm), ?_⟩
    -- The walk finds fibres of the snapshot only.
    obtain ⟨f, hf, -⟩ := hw.cancelled_iff.mp (List.mem_filter.mp hm).1
    exact Or.inl (hw.formed.live m f hf)
  · intro y
    simpa [hmutations, v2ReconcileAncestorMembership, Changes.mutateAll] using h.noRemove y
  rw [act_eq_exec hfetch rfl, opening_eq_nil hfetch (by simp [Instr.opensRecord]),
    List.append_nil, during_cut opened ts { ts with
      fiber := ts.fiber.leave below, changes, inst := restored.restore ts.inst } rfl hdeletes hmem rfl
      rfl (by rw [hchanges]; rfl) (hevents.trans (List.append_nil _).symm), List.append_nil]
  refine .cancel (h.exec hfetch) hstack (lookup_of_fetch hfetched) hpayload
    (cancels_during h hw hstack) ?_
  have hgone : ∀ y m, (w.during H s opened ts).Live m →
      ((y, .remove m) ∈ removalOps (w.snapshot s) cancelled ↔ m ≠ ts.fiber.fiberId ∧
        (w.during H s opened ts).Holds m r ∧ (w.during H s opened ts).Leaves m y) := by
    intro y m hlive
    rw [mem_removalOps_during hw hself y m hlive]
    by_cases hm : m = ts.fiber.fiberId
    · simp [hm, hself]
    · simp [hm, hmem m hm hlive]
  rw [hmutations]
  exact rewrites_cancel hw.keyedTable hgone (fun y m hg => live_of_leaves hg.2.2) ts.changes _

omit h hfetch in
theorem Mid.next (hH : Function.Injective H.uuidOfSeed) (hw : w.Coherent H) (h : Mid H w s ts)
    (hformed : (w.during H s opened ts).Formed)
    (hstep : tickStep H workflow (w.snapshot s) (w.context s) ts = .ok (.next ts')) :
    Refines H workflow w s opened ts ts' := by
  obtain ⟨instruction, hfetch, hstep⟩ := tickStep_eq_ok hstep
  cases execute_eq_ok hstep with
  | moved _ hgoes hjoins => exact refines_plain h hfetch hgoes rfl rfl rfl hjoins
  | cached _ hcompleted hfound hgoes =>
    obtain ⟨hinstance, hstate⟩ := applyCompletion_eq_ok hcompleted
    rcases hgoes with hgoes | ⟨taskType, argc, retc, rfl, rfl⟩
    · exact refines_plain h hfetch hgoes hinstance hstate rfl rfl
    · exact refines_cached h hfetch hfound hinstance hstate
  | published _ _ _ hgoes hjoins => exact refines_plain h hfetch hgoes rfl rfl rfl hjoins
  | consumed _ _ _ _ hconsumes hgoes hjoins =>
    obtain ⟨hinstance, hstate⟩ := consumeMessage_eq_ok hconsumes
    exact refines_plain h hfetch hgoes hinstance hstate rfl hjoins
  | cycled _ hlast hgoes =>
    refine refines_plain h hfetch hgoes rfl rfl ?_ rfl
    -- The last effect is replaced by another guard timer.
    conv_rhs => rw [← List.dropLast_append_getLast? _ hlast]
    simp [raceTimers]
  | timed _ harms =>
    rcases harms with harms | ⟨hgoes, rfl, r, rfl⟩
    · exact refines_arm h hfetch harms (raceTimers_append _ _) rfl
    · exact refines_plain h hfetch hgoes rfl rfl
        ((raceTimers_append _ _).trans (List.append_nil _)) rfl
  | listened _ harms => exact refines_arm h hfetch harms (List.append_nil _).symm rfl
  | armed _ harms hjoins =>
    exact refines_arm h hfetch harms (raceTimers_append _ _) hjoins
  | opened _ _ hnew hopens harms hjoins => exact refines_open h hfetch hH hw hnew hopens harms hjoins
  | closed _ hcloses hscopes hjoins => exact refines_close h hfetch hcloses hscopes hjoins
  | released _ hword hscopes hfound hlast hjoins =>
    exact refines_release h hw hformed (hword ▸ hfetch) hscopes hfound hlast hjoins
  | routed _ harms hword htop => exact refines_armError h (hword ▸ hfetch) harms htop
  | cancelled _ hrolls hword hscopes => exact refines_cancel h hw (hword ▸ hfetch) hrolls hscopes

end

end BpmnLite
