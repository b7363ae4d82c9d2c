import BpmnLite.Kernel.TickRefines

/-!
# The instruction that ends a tick

Parking, arriving at a barrier, closing a race, ending and forking: the last instruction of a tick is
a step of the machine to the configuration the tick's transition leads to.
-/

namespace BpmnLite

open Maps

variable {f' : Fiber} {changes : Changes} {inst : ProcessInstance}
  {joins : List (RecordId × Uuid × Bool)} {events : List RuntimeEvent} {snapshot : Snapshot}
  {live : Uuid → Prop} {targets : List Addr} {ids : List Uuid}

section
variable {H : Host} {workflow : ExecutableWorkflow} {w : World} {s : Stimulus}
  {opened : List (RecordId × Addr)} {ts : TickState} {instruction : Instr} {t : Transition}

/-- The last instruction of a tick is one step of the machine. -/
def Ends (H : Host) (workflow : ExecutableWorkflow) (w : World) (s : Stimulus)
    (opened : List (RecordId × Addr)) (ts : TickState) (t : Transition) : Prop :=
  ∃ act old, (act = ts.act workflow s ∨ act = .clear) ∧ old ⊆ handedOut H (w.revision + 1) ∧
    Step workflow.instructions (w.own H) (w.during H s opened ts) act
      (w.after (opened ++ opening H workflow (w.context s) ts) old t)

theorem during_old_subset : (w.during H s opened ts).old ⊆ handedOut H (w.revision + 1) := by
  rintro id (hid | ⟨ordinal, -, rfl⟩)
  · exact handedOut_mono (Nat.le_succ _) hid
  · exact derivedId_handedOut ordinal

/-- The changes write the same fibres and race timers. -/
structure SameFibers (changes changes' : Changes) : Prop where
  upserts : changes'.fibersUpsert = changes.fibersUpsert
  deletes : changes'.fibersDelete = changes.fibersDelete
  cleanup : changes'.cleanup = changes.cleanup
  timers : raceTimers changes'.effects = raceTimers changes.effects

theorem after_parked (h : Mid H w s ts) (hid : f'.fiberId = ts.fiber.fiberId)
    (hsame : SameFibers ts.changes changes)
    (hjoins : joinLog changes.events = joinLog ts.changes.events ++ joins) :
    w.after opened (w.during H s opened ts).old ((changes.upsert f').finish inst) =
      { w.during H s opened ts with
        fibers := (w.during H s opened ts).set ts.fiber.fiberId f'
        table := lookup w.state.concurrencyTable changes.concurrencyMutations
        focus := none
        arms := []
        joins := (w.during H s opened ts).joins ++ joins } := by
  have hfibers : (w.after opened (w.during H s opened ts).old
      ((changes.upsert f').finish inst)).fibers =
        (w.during H s opened ts).set ts.fiber.fiberId f' := by
    funext m
    simp only [World.after, Changes.finish, Changes.upsert, hsame.upserts, hsame.deletes, hsame.cleanup,
      h.cleanup, h.upserts, Option.getD_none, List.nil_append, getElem?_applyFiberDeltas]
    by_cases hm : m = ts.fiber.fiberId
    · subst hm
      simp [Config.set, h.kept, hid]
    · have hf' : f'.fiberId ≠ m := fun he => hm (he.symm.trans hid)
      simp [Config.set, hm, hf', during_other hm]
  rw [← hfibers]
  simp only [World.after, World.during, Changes.finish, Changes.upsert, raceTimers_append,
    hsame.timers, joinLog_append, hjoins, List.append_assoc]

theorem act_eq_exec_of_uncached (hnone : s.dedupe (ts.jobKey workflow) = none) :
    ts.act workflow s = .exec ts.fiber.fiberId := by
  have huncached : s.dedupe (.activation ts.inst.instanceId (nodeName workflow ts.fiber.pc)
    ts.fiber.pc ts.fiber.loopEpoch) = none := hnone
  unfold TickState.act
  split
  · simp [huncached]
  · rfl

variable (h : Mid H w s ts) (hfetch : workflow.instructions[ts.fiber.pc]? = some instruction)
include h hfetch

theorem ends_parked (hact : ts.act workflow s = .exec ts.fiber.fiberId)
    (hopens : ¬ instruction.opensRecord) (hid : f'.fiberId = ts.fiber.fiberId)
    (hsame : SameFibers ts.changes changes)
    (hjoins : joinLog changes.events = joinLog ts.changes.events ++ joins)
    (hstep : Step workflow.instructions (w.own H) (w.during H s opened ts) (.exec ts.fiber.fiberId)
      { w.during H s opened ts with
        fibers := (w.during H s opened ts).set ts.fiber.fiberId f'
        table := lookup w.state.concurrencyTable changes.concurrencyMutations
        focus := none
        arms := []
        joins := (w.during H s opened ts).joins ++ joins }) :
    Ends H workflow w s opened ts ((changes.upsert f').finish inst) := by
  refine ⟨_, (w.during H s opened ts).old, Or.inl rfl, during_old_subset, ?_⟩
  rwa [hact, opening_eq_nil hfetch hopens, List.append_nil,
    after_parked h hid hsame hjoins]

theorem ends_park (hplain : instruction.isPlain) (hact : ts.act workflow s = .exec ts.fiber.fiberId)
    (hparks : ts.fiber.Parks (H.forInstruction ts.inst.instanceId) instruction f')
    (hsame : SameFibers ts.changes changes)
    (hmutations : changes.concurrencyMutations = ts.changes.concurrencyMutations)
    (hjoins : joinLog changes.events = joinLog ts.changes.events) :
    Ends H workflow w s opened ts ((changes.upsert f').finish inst) := by
  rw [h.own] at hparks
  refine ends_parked h hfetch hact (Instr.not_opensRecord hplain) hparks.chain.1 hsame
    (hjoins.trans (List.append_nil _).symm) ?_
  rw [hmutations, List.append_nil]
  exact .park (h.exec hfetch) hparks

omit hfetch in
theorem ends_end {cleanup : Option TerminalCleanup} {state : ProcessState} (hw : w.Coherent H)
    (hfetch : workflow.instructions[ts.fiber.pc]? = some .end)
    (hjoins : joinLog events = joinLog ts.changes.events)
    (hlast : (applyFiberDeltas (w.snapshot s).fibers ts.changes.fibersUpsert
      (ts.changes.fibersDelete ++ [ts.fiber.fiberId]) false).isEmpty ∧
      cleanup = some ⟨true, true, true⟩ ∧ state.isTerminal ∨ cleanup = ts.changes.cleanup ∧
      state = ts.inst.state) :
    Ends H workflow w s opened ts ({ ts.changes with
      fibersDelete := ts.changes.fibersDelete ++ [ts.fiber.fiberId]
      events, cleanup }.finish { ts.inst with state }) := by
  rw [hw.fibers, h.upserts] at hlast
  refine ⟨_, (w.during H s opened ts).old, Or.inl rfl, during_old_subset, ?_⟩
  have hfibers : (w.after opened (w.during H s opened ts).old ({ ts.changes with
      fibersDelete := ts.changes.fibersDelete ++ [ts.fiber.fiberId]
      events, cleanup }.finish { ts.inst with state })).fibers =
        Function.update (w.during H s opened ts).fibers ts.fiber.fiberId none := by
    funext m
    have hlookup : (applyFiberDeltas w.state.fibers [] (ts.changes.fibersDelete ++ [ts.fiber.fiberId])
        false)[m]? = Function.update (w.during H s opened ts).fibers ts.fiber.fiberId none m := by
      rw [getElem?_applyFiberDeltas]
      by_cases hm : m = ts.fiber.fiberId
      · subst hm
        simp
      · simp [hm, during_other hm]
    rw [← hlookup]
    simp only [World.after, Changes.finish, h.upserts]
    rcases hlast with ⟨hempty, rfl, -⟩ | ⟨rfl, -⟩
    · rw [Std.ExtTreeMap.isEmpty_iff.mp hempty]
      rfl
    · rw [h.cleanup]
      rfl
  have hconfig : w.after opened (w.during H s opened ts).old ({ ts.changes with
      fibersDelete := ts.changes.fibersDelete ++ [ts.fiber.fiberId]
      events, cleanup }.finish { ts.inst with state }) = { w.during H s opened ts with
        fibers := Function.update (w.during H s opened ts).fibers ts.fiber.fiberId none
        focus := none
        arms := [] } := by
    rw [← hfibers]
    simp only [World.after, World.during, Changes.finish, joinLog_append, hjoins]
  rw [act_eq_exec hfetch rfl, opening_eq_nil hfetch (by simp [Instr.opensRecord]),
    List.append_nil, hconfig]
  exact .finish (h.exec hfetch)

omit h hfetch in
theorem mem_armedRecordIds {y : RecordId} :
    y ∈ armedRecordIdsInTransition snapshot changes ↔
      ∃ r, lookup snapshot.concurrencyTable changes.concurrencyMutations y = some r ∧
        r.state = .armed := by
  simp only [armedRecordIdsInTransition, List.mem_map, List.mem_filter, decide_eq_true_eq,
    Prod.exists, exists_and_right, exists_eq_right, lookup,
    Std.ExtTreeMap.mem_toList_iff_getElem?_eq_some]

omit h hfetch in
theorem rewrites_clear (snapshot : Snapshot) (changes : Changes) :
    Rewrites live (fun _ => True) (fun _ _ => False) (fun _ _ => False)
      (lookup snapshot.concurrencyTable changes.concurrencyMutations)
      (lookup snapshot.concurrencyTable (changes.concurrencyMutations ++
        (armedRecordIdsInTransition snapshot changes).map .retire)) := by
  refine .intro (fun y hy => ?_) (fun y r hr _ => ?_) (fun y r hr hy => absurd trivial hy)
  · rw [lookup_retireAll, hy]
    simp
  · by_cases harmed : r.state = .armed
    · refine ⟨r.asRetired, ?_, sameScope_asRetired r, fun m => Or.inl, rfl⟩
      rw [lookup_retireAll, if_pos (mem_armedRecordIds.mpr ⟨r, hr, harmed⟩), hr]
      rfl
    · refine ⟨r, ?_, .refl r, fun m => Or.inl, ?_⟩
      · rw [lookup_retireAll, if_neg, hr]
        rw [mem_armedRecordIds]
        rintro ⟨r', hr', harmed'⟩
        obtain rfl : r = r' := by simpa [hr] using hr'
        exact harmed harmed'
      · cases hstate : r.state with
        | armed => exact absurd hstate harmed
        | retired => rfl

omit h hfetch in
theorem ends_endTerminate {atTime : Timestamp}
    (hfetch : workflow.instructions[ts.fiber.pc]? = some .endTerminate)
    (hjoins : joinLog events = joinLog ts.changes.events) :
    Ends H workflow w s opened ts ({ ts.changes with
      concurrencyMutations := ts.changes.concurrencyMutations ++
        (armedRecordIdsInTransition (w.snapshot s) ts.changes).map ConcurrencyMutation.retire
      events, cleanup := some ⟨true, true, true⟩ }.finish
        { ts.inst with state := .terminated atTime }) := by
  refine ⟨.clear, (w.during H s opened ts).old, Or.inr rfl, during_old_subset, ?_⟩
  rw [opening_eq_nil hfetch (by simp [Instr.opensRecord]), List.append_nil]
  have hclear : Step workflow.instructions (w.own H) (w.during H s opened ts) .clear _ :=
    .clear (rewrites_clear (w.snapshot s) ts.changes)
  convert hclear using 1
  simp only [World.after, World.during, Changes.finish, applyFiberDeltas, joinLog_append, hjoins]
  simp
  rfl

omit h hfetch in
theorem find?_reverse_of_nodup {α β : Type} [DecidableEq β] (key : α → β) {xs : List α}
    (hnodup : (xs.map key).Nodup) (b : β) :
    xs.reverse.find? (fun x => key x = b) = xs.find? (fun x => key x = b) := by
  induction xs with
  | nil => rfl
  | cons x xs ih =>
    obtain ⟨hnot, hnd⟩ := List.nodup_cons.mp (show (key x :: xs.map key).Nodup from hnodup)
    rw [List.reverse_cons, List.find?_append, ih hnd]
    by_cases hx : key x = b
    · have hnone : xs.find? (fun x => key x = b) = none := by
        rw [List.find?_eq_none]
        intro z hz
        simp only [decide_eq_true_eq]
        intro he
        exact hnot (List.mem_map.mpr ⟨z, hz, he.trans hx.symm⟩)
      simp [hx, hnone]
    · simp [hx]

omit h hfetch in
theorem mem_forkIds {context : DeterministicContext} {ordinal : ℕ} {m : Uuid} :
    m ∈ forkIds H context ordinal targets ↔
      ∃ n < targets.length, m = context.derivedId H (ordinal + n) := by
  simp [forkIds, eq_comm]

omit h hfetch in
theorem rewrites_fork (hkeyed : Keyed ConcurrencyRecord.id snapshot.concurrencyTable)
    (changes : Changes) (record : ConcurrencyRecord) (stack : List RecordId) {i : Uuid}
    (hi : i ∉ ids) :
    Rewrites live (fun _ => False) (fun y m => y ∈ stack ∧ m = i) (fun y m => y ∈ stack ∧ m ∈ ids)
      (Function.update (lookup snapshot.concurrencyTable changes.concurrencyMutations) record.id
        (some record))
      (lookup snapshot.concurrencyTable (v2ReconcileAncestorMembership snapshot
        (stack.flatMap (fun a => (a, .remove i) :: ids.map (fun id => (a, .add id)))) []
        (changes.mutate (.insert record))).concurrencyMutations) := by
  have hlookup : lookup snapshot.concurrencyTable
      (changes.mutate (.insert record)).concurrencyMutations = Function.update
        (lookup snapshot.concurrencyTable changes.concurrencyMutations) record.id (some record) :=
    lookup_insert _ _ record
  rw [← hlookup]
  refine .intro (fun y hy => lookup_reconcile_none hkeyed _ _ _ hy) (fun y r hr hy => hy.elim)
    (fun y r hr _ => ?_)
  obtain ⟨r', hr', hscope, hstate, hsub, hmembers⟩ := lookup_reconcile hkeyed
    (stack.flatMap (fun a => (a, .remove i) :: ids.map (fun id => (a, .add id)))) [] _ hr
  refine ⟨r', hr', hscope, fun m hm => (hsub m hm).imp_right fun hop => ?_, hstate, fun harmed => ?_⟩
  · simp only [List.mem_flatMap, List.mem_cons, Prod.mk.injEq, reduceCtorEq, and_false, List.mem_map,
      MembershipOp.add.injEq, false_or] at hop
    obtain ⟨a, ha, id, hid, rfl, rfl⟩ := hop
    exact ⟨ha, hid⟩
  · have hmem : ∀ m, m ∈ r'.members ↔
        if y ∈ stack then (m ∈ r.members ∧ m ≠ i) ∨ m ∈ ids else m ∈ r.members := by
      intro m
      rw [hmembers harmed (by simp)]
      exact mem_applyOps_replace hi stack y r m
    refine ⟨fun m hm => ?_, fun m hm _ hgone => ?_, fun m hm => ?_⟩
    · rw [hmem] at hm
      by_cases hy : y ∈ stack
      · rw [if_pos hy] at hm
        exact hm.imp (fun hm => ⟨hm.1, fun hg => hm.2 hg.2⟩) (fun hm => ⟨hy, hm⟩)
      · rw [if_neg hy] at hm
        exact Or.inl ⟨hm, fun hg => hy hg.1⟩
    · rw [hmem]
      by_cases hy : y ∈ stack
      · rw [if_pos hy]
        exact Or.inl ⟨hm, fun he => hgone ⟨hy, he⟩⟩
      · rwa [if_neg hy]
    · rw [hmem, if_pos hm.1]
      exact Or.inr hm.2

omit hfetch in
theorem after_fork_fibers {r : RecordId} {mutations : List ConcurrencyMutation}
    (opened' : List (RecordId × Addr)) (old : Set Uuid)
    (hended : Ended ts ((ids.zip targets).map (fun child =>
      { Fiber.new child.1 child.2 with controlStack := ts.fiber.controlStack ++ [r] })) mutations t)
    (hcleanup : t.terminalCleanup = ts.changes.cleanup.getD {})
    (hlength : ids.length = targets.length) (hnodup : ids.Nodup)
    (hnew : ∀ a ∈ ids, a ∉ (w.during H s opened ts).old) :
    (w.after opened' old t).fibers = fun m => if m = ts.fiber.fiberId then none
      else match (ids.zip targets).find? (·.1 = m) with
        | some child => some { Fiber.new child.1 child.2 with
            controlStack := ts.fiber.controlStack ++ [r] }
        | none => (w.during H s opened ts).fibers m := by
  funext m
  simp only [World.after, hended.upserts, hended.deletes, hcleanup, h.cleanup, h.upserts,
    Option.getD_none, List.nil_append, getElem?_applyFiberDeltas]
  have hfst : ((ids.zip targets).map (fun child => ({ Fiber.new child.1 child.2 with
      controlStack := ts.fiber.controlStack ++ [r] } : Fiber))).map Fiber.fiberId = ids := by
    rw [List.map_map]
    exact List.map_fst_zip hlength.le
  rw [find?_reverse_of_nodup Fiber.fiberId (by rw [hfst]; exact hnodup), List.find?_map]
  by_cases hm : m = ts.fiber.fiberId
  · simp [hm]
  · cases hfind : (ids.zip targets).find? (fun child => child.1 = m) with
    | some child =>
      have hchild : child.1 = m := by simpa using List.find?_some hfind
      have hin : m ∈ ids := hchild ▸ (List.of_mem_zip (List.mem_of_find?_eq_some hfind)).1
      have hdeletes : m ∉ ts.changes.fibersDelete := fun hd => hnew m hin (h.deleted m hd)
      simp [hm, hdeletes, Function.comp_def, Fiber.new, hfind]
    | none => simp [hm, Function.comp_def, Fiber.new, hfind, during_other hm]

omit hfetch in
theorem ends_fork (hH : Function.Injective H.uuidOfSeed) (hw : w.Coherent H) {pairing : Addr}
    (hfetch : workflow.instructions[ts.fiber.pc]? = some (.v2Fork targets pairing))
    (hforks : fork H (w.snapshot s) (w.context s) ts targets = .done t) :
    Ends H workflow w s opened ts t := by
  obtain ⟨hended, hcleanup, -⟩ := fork_eq_done hforks
  set r := (w.context s).derivedId H ts.ordinal with hr
  set ids := forkIds H (w.context s) (ts.ordinal + 1) targets with hids
  have hlength : ids.length = targets.length := by simp [hids, forkIds]
  have hnew : ∀ a ∈ r :: ids, a ∉ (w.during H s opened ts).old := by
    intro a ha
    rcases List.mem_cons.mp ha with rfl | ha
    · exact not_mem_during_old hH le_rfl
    · obtain ⟨n, -, rfl⟩ := mem_forkIds.mp ha
      exact not_mem_during_old hH (by omega)
  have hnodup : (r :: ids).Nodup := by
    refine List.nodup_cons.mpr ⟨fun hmem => ?_, ?_⟩
    · obtain ⟨n, -, he⟩ := mem_forkIds.mp hmem
      have := derivedId_injective hH he
      omega
    · refine List.Nodup.map (fun a b hab => ?_) List.nodup_range
      have := derivedId_injective hH hab
      omega
  have hlive : ts.fiber.fiberId ∈ (w.during H s opened ts).old := by
    obtain ⟨f, hf⟩ := h.started
    exact Or.inl (hw.formed.live _ f hf)
  have hi : ts.fiber.fiberId ∉ ids := fun hmem => hnew _ (List.mem_cons_of_mem _ hmem) hlive
  refine ⟨_, (w.during H s opened ts).old ∪ {a | a ∈ r :: ids}, Or.inl rfl, ?_, ?_⟩
  · refine Set.union_subset during_old_subset ?_
    intro a ha
    rcases List.mem_cons.mp ha with rfl | ha
    · exact derivedId_handedOut _
    · obtain ⟨n, -, rfl⟩ := mem_forkIds.mp ha
      exact derivedId_handedOut _
  have hfibers := after_fork_fibers h (opened ++ [(r, ts.fiber.pc)])
    ((w.during H s opened ts).old ∪ {a | a ∈ r :: ids}) hended hcleanup hlength
    (List.nodup_cons.mp hnodup).2 fun a ha => hnew a (List.mem_cons_of_mem _ ha)
  have hconfig : w.after (opened ++ [(r, ts.fiber.pc)])
      ((w.during H s opened ts).old ∪ {a | a ∈ r :: ids}) t = { w.during H s opened ts with
      fibers := (w.after (opened ++ [(r, ts.fiber.pc)])
        ((w.during H s opened ts).old ∪ {a | a ∈ r :: ids}) t).fibers
      table := lookup w.state.concurrencyTable t.concurrencyMutations
      old := (w.during H s opened ts).old ∪ {a | a ∈ r :: ids}
      focus := none
      arms := []
      opened := (w.during H s opened ts).opened ++ [(r, ts.fiber.pc)] } := by
    simp only [World.after, World.during, raceTimers_append, hended.timers, joinLog_append,
      hended.joins, List.append_assoc]
  rw [act_eq_exec hfetch rfl, opening_eq hfetch rfl, hconfig, hfibers]
  refine .fork (h.exec hfetch) hlength hnodup hnew (show forkRecord r ids = _ from ?_) ?_ ?_
  · simp [forkRecord, hlength]
  · intro m
    simp [forkRecord, mem_foldl_insert]
  · rw [hended.mutations]
    exact rewrites_fork hw.keyedTable ts.changes (forkRecord r ids) ts.fiber.controlStack hi

omit h hfetch in
theorem Mid.done (hH : Function.Injective H.uuidOfSeed) (hw : w.Coherent H) (h : Mid H w s ts)
    (hformed : (w.during H s opened ts).Formed)
    (hstep : tickStep H workflow (w.snapshot s) (w.context s) ts = .ok (.done t)) :
    Ends H workflow w s opened ts t := by
  obtain ⟨instruction, hfetch, hstep⟩ := tickStep_eq_ok hstep
  cases execute_eq_ok hstep with
  | enqueued _ htask huncached hjoins =>
    have hact := act_eq_exec_of_uncached huncached
    cases instruction with
    | execNative => exact ends_park h hfetch rfl hact (.native ..) ⟨rfl, rfl, rfl, rfl⟩ rfl hjoins
    | execDslTask => exact ends_park h hfetch rfl hact (.dsl ..) ⟨rfl, rfl, rfl, rfl⟩ rfl hjoins
    | _ => cases htask
  | failed _ _ hparks hjoins =>
    exact ends_park h hfetch hparks.1.1 (act_eq_exec hfetch hparks.2) (.incident _ hparks.1)
      ⟨rfl, rfl, rfl, rfl⟩ rfl hjoins
  | awaited hinvokes hplain hjoins =>
    have hparks : instruction.isNative = false ∧
        ts.fiber.Parks (H.forInstruction ts.inst.instanceId) instruction
          { ts.fiber with wait := .effect (ts.effectId H) } := by
      cases instruction with
      | execFfi => exact ⟨rfl, .ffi ..⟩
      | v2AwaitEffect => exact ⟨rfl, .await ..⟩
      | v2ArmEffect => cases hplain
      | _ => cases hinvokes
    exact ends_park h hfetch hplain (act_eq_exec hfetch hparks.1) hparks.2
      ⟨rfl, rfl, rfl, (raceTimers_append _ _).trans (List.append_nil _)⟩ rfl hjoins
  | waited _ hword hoperands hjoins =>
    have hplain : instruction.isPlain ∧ instruction.isNative = false := by
      rcases hword with rfl | rfl <;> exact ⟨rfl, rfl⟩
    exact ends_park h hfetch hplain.1 (act_eq_exec hfetch hplain.2) (.timer hword hoperands _)
      ⟨rfl, rfl, rfl, (raceTimers_append _ _).trans (List.append_nil _)⟩ rfl hjoins
  | subscribed _ hword hjoins =>
    subst hword
    exact ends_park h hfetch rfl (act_eq_exec hfetch rfl) (.msg ..) ⟨rfl, rfl, rfl, rfl⟩ rfl hjoins
  | raced _ hword hscopes hjoins =>
    subst hword
    refine ends_parked h hfetch (act_eq_exec hfetch rfl) (by simp [Instr.opensRecord]) rfl
      ⟨rfl, rfl, rfl, rfl⟩ (hjoins.trans (List.append_nil _).symm) ?_
    rw [List.append_nil]
    exact .raceClose (h.exec hfetch) hscopes
  | @arrived _ _ _ r record _ _ hfound hword hscopes hearly hjoins =>
    subst hword
    have hrecord : (w.during H s opened ts).table r = some record := lookup_of_fetch hfound
    obtain rfl : record.id = r := hformed.ids r record hrecord
    refine ends_parked h hfetch (act_eq_exec hfetch rfl) (by simp [Instr.opensRecord]) rfl
      ⟨rfl, rfl, rfl, rfl⟩ hjoins ?_
    rw [lookup_insert]
    exact .arrive (h.exec hfetch) hscopes hrecord hearly
  | ended _ hword hjoins hlast => exact ends_end h hw (hword ▸ hfetch) hjoins hlast
  | terminated _ hword hjoins => exact ends_endTerminate (hword ▸ hfetch) hjoins
  | forked _ hforks hword => exact ends_fork h hH hw (hword ▸ hfetch) hforks

end

end BpmnLite
