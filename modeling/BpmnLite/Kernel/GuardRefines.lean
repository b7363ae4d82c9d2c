import BpmnLite.Kernel.CommandRefines

/-!
# Commands that trigger a guard or roll one back

A guard is triggered by command, by its timer or by an error route, and a rollback guard is rolled
back by a contract violation or by its timer. Each is a step of the scope machine.
-/

namespace BpmnLite

open Maps Forest

variable {snapshot : Snapshot} {timers : List TimerMutation} {changes : Changes}
  {acks : List JobKey} {events : List RuntimeEvent} {target openedAt : Addr} {interrupting : Bool}
  {record : ConcurrencyRecord} {f : Fiber} {incident : Incident} {jobKey : Option JobKey}
  {inst inst' : ProcessInstance}

section Compose
variable {live live' : Uuid → Prop} {dead : RecordId → Prop} {gone added : RecordId → Uuid → Prop}
  {T T₁ T₂ : RecordId → Option ConcurrencyRecord}

theorem Rewrites.then_cancel
    (h₁ : Rewrites live (fun _ => False) (fun _ _ => False) added T T₁)
    (h₂ : Rewrites live' dead gone (fun _ _ => False) T₁ T₂) (hlive : ∀ m, live m → live' m)
    (hadded : ∀ y m, added y m → live' m ∧ ¬ gone y m) : Rewrites live dead gone added T T₂ where
  absent y hy := h₂.absent y (h₁.absent y hy)
  present y r hr := by
    obtain ⟨r₁, hr₁, hscope₁, -, hstate₁, hsub₁, harmed₁⟩ := h₁.present y r hr
    obtain ⟨r₂, hr₂, hscope₂, hdead, hkeep, hsub₂, harmed₂⟩ := h₂.present y r₁ hr₁
    have hstate : r₁.state = r.state := hstate₁ id
    refine ⟨r₂, hr₂, hscope₁.trans hscope₂, hdead, fun h => (hkeep h).trans hstate, ?_, ?_⟩
    · exact fun m hm => hsub₁ m ((hsub₂ m hm).resolve_right id)
    · intro harmed
      have hkept : r₂.state = r₁.state := by
        by_cases hy : dead y
        · simp [hdead hy] at harmed
        · exact hkeep hy
      obtain ⟨hin₂, hout₂, -⟩ := harmed₂ harmed
      obtain ⟨hin₁, hout₁, hadd₁⟩ := harmed₁ (hkept ▸ harmed)
      refine ⟨fun m hm => ?_, fun m hm hl hg => ?_, fun m hm => ?_⟩
      · obtain ⟨hm₁, hg⟩ := (hin₂ m hm).resolve_right id
        exact (hin₁ m hm₁).imp_left fun hm => ⟨hm.1, hg⟩
      · exact hout₂ m (hout₁ m hm hl id) (hlive m hl) hg
      · exact hout₂ m (hadd₁ m hm) (hadded y m hm).1 (hadded y m hm).2

theorem Rewrites.then_add (h₁ : Rewrites live dead gone (fun _ _ => False) T T₁)
    (h₂ : Rewrites live (fun _ => False) (fun _ _ => False) added T₁ T₂) :
    Rewrites live dead gone added T T₂ where
  absent y hy := h₂.absent y (h₁.absent y hy)
  present y r hr := by
    obtain ⟨r₁, hr₁, hscope₁, hdead, hkeep, hsub₁, harmed₁⟩ := h₁.present y r hr
    obtain ⟨r₂, hr₂, hscope₂, -, hstate₂, hsub₂, harmed₂⟩ := h₂.present y r₁ hr₁
    have hstate : r₂.state = r₁.state := hstate₂ id
    refine ⟨r₂, hr₂, hscope₁.trans hscope₂, fun h => hstate.trans (hdead h),
      fun h => hstate.trans (hkeep h), ?_, ?_⟩
    · exact fun m hm => (hsub₂ m hm).imp_left fun hm => (hsub₁ m hm).resolve_right id
    · intro harmed
      obtain ⟨hin₂, hout₂, hadd₂⟩ := harmed₂ harmed
      obtain ⟨hin₁, hout₁, -⟩ := harmed₁ (hstate ▸ harmed)
      refine ⟨fun m hm => ?_, fun m hm hl hg => ?_, hadd₂⟩
      · exact (hin₂ m hm).imp_left fun hm => (hin₁ m hm.1).resolve_right id
      · exact hout₂ m (hout₁ m hm hl hg) hl id

theorem rewrites_add (hkeyed : Keyed ConcurrencyRecord.id snapshot.concurrencyTable)
    (changes : Changes) (stack : List RecordId) (h : Uuid) :
    Rewrites live (fun _ => False) (fun _ _ => False) (fun y m => y ∈ stack ∧ m = h)
      (lookup snapshot.concurrencyTable changes.concurrencyMutations)
      (lookup snapshot.concurrencyTable (v2ReconcileAncestorMembership snapshot
        (stack.map (fun ancestor => (ancestor, .add h))) [] changes).concurrencyMutations) := by
  have hop : ∀ y m, (y, .add m) ∈ stack.map (fun a => (a, MembershipOp.add h)) ↔
      y ∈ stack ∧ m = h := by
    intro y m
    simp only [List.mem_map, Prod.mk.injEq, MembershipOp.add.injEq]
    constructor
    · rintro ⟨a, ha, rfl, rfl⟩
      exact ⟨ha, rfl⟩
    · rintro ⟨hy, rfl⟩
      exact ⟨y, hy, rfl, rfl⟩
  refine .intro (fun y hy => lookup_reconcile_none hkeyed _ _ _ hy) (fun y r hr hy => hy.elim)
    (fun y r hr _ => ?_)
  obtain ⟨r', hr', hscope, hstate, hsub, hmembers⟩ := lookup_reconcile hkeyed
    (stack.map (fun ancestor => (ancestor, .add h))) [] changes hr
  refine ⟨r', hr', hscope, fun m hm => (hsub m hm).imp_right (hop y m).mp, hstate, fun harmed => ?_⟩
  have hmem : ∀ m, m ∈ r'.members ↔ m ∈ r.members ∨ (y ∈ stack ∧ m = h) := by
    intro m
    rw [hmembers harmed (by simp), mem_applyOps_adds (by simp), hop]
  exact ⟨fun m hm => ((hmem m).mp hm).imp_left fun hm => ⟨hm, id⟩,
    fun m hm _ _ => (hmem m).mpr (Or.inl hm), fun m hm => (hmem m).mpr (Or.inr hm)⟩

end Compose

theorem takeWhile_ne_append {α : Type} [DecidableEq α] {xs : List α} {x : α} (h : x ∈ xs) :
    xs = xs.takeWhile (· ≠ x) ++ x :: (xs.dropWhile (· ≠ x)).tail := by
  induction xs with
  | nil => simp at h
  | cons a xs ih =>
    by_cases ha : a = x
    · simp [ha]
    · have hx : x ∈ xs := (List.mem_cons.mp h).resolve_left (Ne.symm ha)
      simpa [ha] using ih hx

section
variable {H : Host} {workflow : ExecutableWorkflow} {w : World} {s : Stimulus} {t : Transition}
  {r : RecordId}

theorem handlerStack_spec (interrupting : Bool) (hw : w.Coherent H) :
    (w.config H).HandlerStack r interrupting (handlerStack (w.snapshot s) r interrupting) := by
  unfold handlerStack
  cases hfound : (w.snapshot s).fibers.values.findSome? (fun fiber =>
      if r ∈ fiber.controlStack then
        some (fiber.controlStack.takeWhile (· ≠ r) ++ if interrupting then [] else [r])
      else none) with
  | some stack =>
    obtain ⟨g, hg, hstack⟩ := List.exists_of_findSome?_eq_some hfound
    obtain ⟨k, hk⟩ := mem_values.mp hg
    rw [hw.fibers] at hk
    split at hstack
    · rename_i hmem
      refine Or.inl ⟨k, g, g.controlStack.takeWhile (· ≠ r),
        (g.controlStack.dropWhile (· ≠ r)).tail, hk, ?_, (Option.some.inj hstack).symm⟩
      exact takeWhile_ne_append hmem
    · simp at hstack
  | none =>
    refine Or.inr ⟨fun m g hg hmem => ?_, rfl⟩
    rw [List.findSome?_eq_none_iff] at hfound
    have hvalue : g ∈ (w.snapshot s).fibers.values := by
      rw [hw.fibers]
      exact mem_values.mpr ⟨m, hg⟩
    have := hfound g hvalue
    simp [hmem] at this

theorem cancels_config (hw : w.Coherent H) {stack : List RecordId}
    (hstack : stack = [] ∨ ∃ m g q, (w.config H).fibers m = some g ∧
      effectiveControlStack g = stack ++ r :: q) :
    (w.config H).Cancels none stack r (· ∈ (v2CancelGuardScope (w.snapshot s) r).1) := by
  refine ⟨hw.dead_iff.mpr (Or.inl rfl), fun m g y _ hg habove =>
    hw.dead_iff.mpr (Or.inr ⟨m, g, hg, habove⟩), fun m g y _ hg hdead hy => hw.inside hdead hg hy, ?_⟩
  intro y hy hdead
  rcases hstack with rfl | ⟨m, g, q, hg, hsplit⟩
  · simp at hy
  · have hnodup := hw.formed.tree.nodup ⟨m, g, hg, rfl⟩
    rw [hsplit] at hnodup
    have hdisjoint := (List.nodup_append.mp hnodup).2.2
    rcases hw.dead_iff.mp hdead with rfl | ⟨k, f, hf, p', q', hpq, hyq⟩
    · exact hdisjoint y hy y List.mem_cons_self rfl
    · have hbelow : stack = p' :=
        hw.formed.tree.below_eq ⟨m, g, hg, rfl⟩ ⟨k, f, hf, rfl⟩ hsplit hpq
      have hchain := hw.formed.tree.nodup ⟨k, f, hf, rfl⟩
      rw [hpq] at hchain
      exact (List.nodup_append.mp hchain).2.2 y (hbelow ▸ hy) y (List.mem_cons_of_mem _ hyq) rfl

theorem mem_removalOps_config (hw : w.Coherent H) (y : RecordId) (m : Uuid) :
    (y, .remove m) ∈ removalOps (w.snapshot s) (v2CancelGuardScope (w.snapshot s) r).2 ↔
      (w.config H).Holds m r ∧ (w.config H).Leaves m y := by
  rw [mem_removalOps, hw.fibers, hw.cancelled_iff]
  rfl

/-- Changes that end nothing, schedule nothing and join nothing. -/
structure Changes.Bare (changes : Changes) : Prop where
  cleanup : changes.cleanup = none
  effects : changes.effects = []
  joins : joinLog changes.events = []

/-- A transition that does to fibres and records what the changes say, and schedules no race
timer. -/
structure Carries (changes : Changes) (t : Transition) : Prop where
  upserts : t.fibersUpsert = changes.fibersUpsert
  deletes : t.fibersDelete = changes.fibersDelete
  mutations : t.concurrencyMutations = changes.concurrencyMutations
  all : t.terminalCleanup.deleteAllFibers = false
  timers : raceTimers t.effects = []
  joins : joinLog t.events = []

theorem Changes.Bare.carries (h : changes.Bare) (hevents : joinLog events = [])
    (inst : ProcessInstance) :
    Carries changes ((changes.along acks timers events).finish inst) where
  upserts := rfl
  deletes := rfl
  mutations := rfl
  all := by simp [Changes.finish, Changes.along, h.cleanup]
  timers := by simp [Changes.finish, Changes.along, h.effects, raceTimers]
  joins := by simp [Changes.finish, Changes.along, joinLog_append, h.joins, hevents]

section
variable {context : DeterministicContext}

theorem handlerChanges_bare : (handlerChanges H snapshot context r target interrupting).Bare := by
  cases interrupting <;> exact ⟨rfl, rfl, by simp [handlerChanges, Changes.event, Changes.upsert,
    Changes.mutateAll, Changes.delete, v2ReconcileAncestorMembership, joinLog]⟩

theorem handlerChanges_deletes :
    (handlerChanges H snapshot context r target interrupting).fibersDelete =
      if interrupting then (v2CancelGuardScope snapshot r).2 else [] := by
  cases interrupting <;> rfl

theorem handlerChanges_upserts :
    (handlerChanges H snapshot context r target interrupting).fibersUpsert =
      [{ Fiber.new (context.derivedId H 0) target with
        controlStack := handlerStack snapshot r interrupting }] := by
  cases interrupting <;> rfl

theorem handlerChanges_mutations :
    (handlerChanges H snapshot context r target interrupting).concurrencyMutations =
      if interrupting then
        (v2ReconcileAncestorMembership snapshot
          (removalOps snapshot (v2CancelGuardScope snapshot r).2) (v2CancelGuardScope snapshot r).1
          ((v2ReconcileAncestorMembership snapshot
            ((handlerStack snapshot r interrupting).map
              (fun ancestor => (ancestor, .add (context.derivedId H 0)))) [] {}).mutateAll
            ((v2CancelGuardScope snapshot r).1.map .retire))).concurrencyMutations
      else
        (v2ReconcileAncestorMembership snapshot
          ((handlerStack snapshot r interrupting).map
            (fun ancestor => (ancestor, .add (context.derivedId H 0)))) []
          {}).concurrencyMutations := by
  cases interrupting with
  | true =>
    refine reconcile_mutations_congr ?_
    exact congrArg (· ++ _) (reconcile_mutations_congr rfl)
  | false => exact reconcile_mutations_congr rfl

end

open Classical in
theorem trigger_fibers (hH : Function.Injective H.uuidOfSeed) (hw : w.Coherent H) (handler : Fiber)
    (hid : handler.fiberId = (w.context s).derivedId H 0) (hupserts : t.fibersUpsert = [handler])
    (hdeletes : t.fibersDelete = if interrupting then (v2CancelGuardScope (w.snapshot s) r).2 else
      []) (hall : t.terminalCleanup.deleteAllFibers = false) (old : Set Uuid) :
    (w.after [] old t).fibers = Function.update (fun m =>
      if interrupting ∧ (w.config H).Holds m r then none else (w.config H).fibers m)
        handler.fiberId (some handler) := by
  have hnew : ¬ (w.config H).Holds handler.fiberId r := by
    rintro ⟨g, hg, -⟩
    exact derivedId_not_handedOut hH 0 (hid ▸ hw.formed.live _ g hg)
  funext m
  simp only [World.after, hupserts, hdeletes, hall, getElem?_applyFiberDeltas]
  by_cases hm : m = handler.fiberId
  · subst hm
    cases interrupting <;> simp [hw.cancelled_iff, hnew]
  · cases interrupting <;> simp [hw.cancelled_iff, hm, Ne.symm hm, World.config]

theorem trigger_step (hH : Function.Injective H.uuidOfSeed) (hw : w.Coherent H)
    (hrecord : w.state.concurrencyTable[r]? = some record)
    (hkind : record.kind = .guard interrupting) (harmed : record.state = .armed)
    (htarget : record.handler = some target ∨ ∃ code, (code, target) ∈ record.errorRoutes)
    (ht : Carries (handlerChanges H (w.snapshot s) (w.context s) r target interrupting) t) :
    ∃ old, old ⊆ handedOut H (w.revision + 1) ∧
      Step workflow.instructions (w.own H) (w.config H) (.trigger r target) (w.after [] old t) := by
  classical
  have hups := ht.upserts.trans handlerChanges_upserts
  have hdels := ht.deletes.trans handlerChanges_deletes
  have hmuts := ht.mutations.trans handlerChanges_mutations
  set h₀ := (w.context s).derivedId H 0 with hh₀
  set stack := handlerStack (w.snapshot s) r interrupting with hstack
  have hnew : h₀ ∉ (w.config H).old := derivedId_not_handedOut hH 0
  have hhandler : (w.config H).HandlerStack r interrupting stack := handlerStack_spec interrupting hw
  refine ⟨insert h₀ (w.config H).old, ?_, ?_⟩
  · exact Set.insert_subset (derivedId_handedOut 0) config_old_subset
  have hfibers := trigger_fibers hH hw { Fiber.new h₀ target with controlStack := stack } rfl
    hups hdels ht.all (insert h₀ (w.config H).old)
  have hconfig : w.after [] (insert h₀ (w.config H).old) t = { w.config H with
      fibers := (w.after [] (insert h₀ (w.config H).old) t).fibers
      table := lookup w.state.concurrencyTable t.concurrencyMutations
      old := insert h₀ (w.config H).old } := by
    simp only [World.after, World.config, raceTimers_append, ht.timers, joinLog_append,
      ht.joins, List.append_nil]
  have hadd : ∀ {live : Uuid → Prop}, Rewrites live (fun _ => False) (fun _ _ => False)
      (fun y m => y ∈ stack ∧ m = h₀) (w.config H).table _ := fun {_} =>
    rewrites_add (hw.keyedTable (s := s)) {} stack h₀
  rw [hconfig, hfibers]
  cases interrupting with
  | false =>
    simp only [Bool.false_eq_true, false_and, if_false]
    refine .triggerN rfl hrecord harmed hkind htarget hnew hhandler ?_
    rw [hmuts, if_neg (by simp)]
    exact hadd
  | true =>
    simp only [true_and]
    refine .trigger rfl hrecord harmed hkind htarget hnew hhandler
      (cancels_config (s := s) hw ?_) ?_
    · rcases hhandler with ⟨m, g, p, q, hg, hsplit, he⟩ | ⟨-, he⟩
      · obtain ⟨rest, hrest⟩ := controlStack_initial g
        refine Or.inr ⟨m, g, q ++ rest, hg, ?_⟩
        rw [← hrest, hsplit, he]
        simp
      · exact Or.inl he
    · rw [hmuts, if_pos rfl]
      -- The handler is not among the cancelled fibres.
      have hleft : ∀ y m, (w.config H).Holds m r ∧ (w.config H).Leaves m y →
          (w.config H).Live m ∨ m = h₀ := fun y m hg => Or.inl (live_of_leaves hg.2)
      refine (@hadd (w.config H).Live).then_cancel (rewrites_cancel hw.keyedTable
        (fun y m _ => mem_removalOps_config hw y m) hleft _ _) (fun m hm => Or.inl hm) ?_
      rintro y m ⟨-, rfl⟩
      refine ⟨Or.inr rfl, ?_⟩
      rintro ⟨⟨g, hg, -⟩, -⟩
      exact hnew (hw.formed.live h₀ g hg)

/-- What rolling a scope back changes, when the caller dies with it. -/
structure RollsBack (w : World) (s : Stimulus) (r : RecordId) (changes : Changes) : Prop extends
    changes.Bare where
  upserts : changes.fibersUpsert = []
  deletes : changes.fibersDelete = (v2CancelGuardScope (w.snapshot s) r).2
  mutations : changes.concurrencyMutations = (v2ReconcileAncestorMembership (w.snapshot s)
    (removalOps (w.snapshot s) (v2CancelGuardScope (w.snapshot s) r).2)
    (v2CancelGuardScope (w.snapshot s) r).1
    (({} : Changes).mutateAll
      ((v2CancelGuardScope (w.snapshot s) r).1.map .retire))).concurrencyMutations

theorem rollsBack_of_eq_ok {i : Uuid} {restored : RollbackSnapshot}
    (h : v2RollbackGuardScope H (w.snapshot s) r (.dies i) {} = .ok (restored, changes)) :
    (∃ record, w.state.concurrencyTable[r]? = some record ∧
      record.rollbackDomainPayload.isSome) ∧ RollsBack w s r changes := by
  obtain ⟨record, hrecord, hpayload, rfl⟩ := v2RollbackGuardScope_eq_ok h
  exact ⟨⟨record, hrecord, hpayload⟩, ⟨rfl, rfl, rfl⟩, rfl, rfl, reconcile_mutations_congr rfl⟩

variable {i : Uuid}

theorem RollsBack.withJobs (h : RollsBack w s r changes) (acks : List JobKey)
    (jobs : List JobMutation) : RollsBack w s r { changes with
      jobsAck := changes.jobsAck ++ acks, jobMutations := changes.jobMutations ++ jobs } :=
  ⟨⟨h.cleanup, h.effects, h.joins⟩, h.upserts, h.deletes, h.mutations⟩

theorem effectiveControlStack_split (h : r ∈ effectiveControlStack f) :
    ∃ above, effectiveControlStack f = f.controlStack.takeWhile (· ≠ r) ++ r :: above := by
  by_cases hmem : r ∈ f.controlStack
  · obtain ⟨rest, hrest⟩ := controlStack_initial f
    refine ⟨(f.controlStack.dropWhile (· ≠ r)).tail ++ rest, ?_⟩
    rw [← hrest]
    nth_rewrite 1 [takeWhile_ne_append hmem]
    simp
  · have htake : f.controlStack.takeWhile (· ≠ r) = f.controlStack :=
      List.takeWhile_eq_self_iff.mpr fun a ha => by simpa using fun he : a = r => hmem (he ▸ ha)
    refine ⟨[], ?_⟩
    rw [htake]
    unfold effectiveControlStack at h ⊢
    split <;> simp_all

/-- The fibre a rollback puts back at the scope's opening address. -/
def Fiber.reparked (f : Fiber) (r : RecordId) (openedAt : Addr) (incidentId : Uuid) : Fiber :=
  { f with
    controlStack := f.controlStack.takeWhile (· ≠ r), pc := openedAt, wait := .incident incidentId }

theorem innermostGuard_eq_some {guard : RecordId × ConcurrencyRecord}
    (h : innermostGuard (w.snapshot s) f = some guard) :
    guard.1 ∈ f.controlStack ∧ w.state.concurrencyTable[guard.1]? = some guard.2 ∧
      guard.2.state = .armed ∧ ∃ interrupting, guard.2.kind = .guard interrupting := by
  obtain ⟨id, hid, h⟩ := List.exists_of_findSome?_eq_some h
  split at h
  · rename_i record hrecord
    split at h
    · rename_i interrupting harmed hkind
      obtain rfl := Option.some.inj h
      exact ⟨List.mem_reverse.mp hid, hrecord, harmed, interrupting, hkind⟩
    · simp at h
  · simp at h

theorem matchedErrorRoute_eq_some {errorClass : ErrorClass} {code : String}
    (h : matchedErrorRoute (w.snapshot s) f errorClass = some (code, target, r)) :
    ∃ record, w.state.concurrencyTable[r]? = some record ∧
      ∃ code, (code, target) ∈ record.errorRoutes := by
  unfold matchedErrorRoute at h
  split at h
  · obtain ⟨guard, hguard, h⟩ := Option.bind_eq_some_iff.mp h
    obtain ⟨route, hroute, h⟩ := Option.map_eq_some_iff.mp h
    simp only [Prod.mk.injEq] at h
    obtain ⟨-, rfl, rfl⟩ := h
    exact ⟨guard.2, (innermostGuard_eq_some hguard).2.1, route.1, List.mem_of_find?_eq_some hroute⟩
  · simp at h
  · simp at h

theorem Changes.Bare.repark (h : changes.Bare) :
    (reparkRolledBack (w.snapshot s) r openedAt f incident jobKey changes).Bare where
  cleanup := h.cleanup
  effects := h.effects
  joins := by
    simpa [joinLog, reparkRolledBack, Changes.event, Changes.upsert, Changes.mutateAll,
      v2ReconcileAncestorMembership] using h.joins

theorem Lands.cases (hw : w.Coherent H) (hf : w.state.fibers[i]? = some f) {rolled : Changes}
    (h : Lands H workflow (w.snapshot s) (w.context s) r record i rolled inst changes inst') :
    if noOtherLive (w.snapshot s) rolled i then
      ∃ openedAt incident jobKey, record.openedAt = some openedAt ∧
        incident.incidentId = (w.context s).derivedId H 0 ∧ incident.resolvedAt = none ∧
        changes = reparkRolledBack (w.snapshot s) r openedAt f incident jobKey rolled ∧
        inst' = { inst with state := .incidented incident.incidentId }
    else changes = rolled ∧ inst' = inst := by
  cases h with
  | swept others => simp [others]
  | @reparked f' openedAt _ _ _ _ jobKey last hopened hf' =>
    rw [if_pos last]
    have hlive : w.state.fibers[i]? = some f' := by
      rcases hf' with hf' | ⟨hmem, rfl⟩
      · rwa [hw.fibers] at hf'
      · exact live_of_values hw hmem
    obtain rfl := Option.mem_unique hf hlive
    exact ⟨openedAt, _, jobKey, hopened, rfl, rfl, rfl, rfl⟩

section
variable (hw : w.Coherent H) (h : RollsBack w s r changes)
include hw h

theorem RollsBack.rewrites :
    Rewrites (w.config H).Live (· ∈ (v2CancelGuardScope (w.snapshot s) r).1)
      (fun y m => (w.config H).Holds m r ∧ (w.config H).Leaves m y) (fun _ _ => False)
      (w.config H).table (lookup w.state.concurrencyTable changes.concurrencyMutations) := by
  rw [h.mutations]
  exact rewrites_cancel hw.keyedTable (fun y m _ => mem_removalOps_config hw y m)
    (fun y m hg => live_of_leaves hg.2) {} _

theorem RollsBack.noOtherLive_iff (hi : (w.config H).Holds i r) :
    noOtherLive (w.snapshot s) changes i ↔ ∀ m, (w.config H).Live m → (w.config H).Holds m r := by
  have hkeys : ∀ m, m ∈ (applyFiberDeltas (w.snapshot s).fibers changes.fibersUpsert
      changes.fibersDelete false).keys ↔ (w.config H).Live m ∧ ¬ (w.config H).Holds m r := by
    intro m
    rw [Std.ExtTreeMap.mem_keys, Std.ExtTreeMap.mem_iff_isSome_getElem?, getElem?_applyFiberDeltas,
      h.upserts, h.deletes, hw.fibers]
    rw [← hw.cancelled_iff (s := s), Option.isSome_iff_exists]
    by_cases hhold : m ∈ (v2CancelGuardScope (w.snapshot s) r).2
    · simp [hhold]
    · simp [hhold, Config.Live, World.config]
  simp only [noOtherLive, List.isEmpty_iff, List.filter_eq_nil_iff, hkeys]
  constructor
  · intro hall m hm
    by_contra hhold
    exact hall m ⟨hm, hhold⟩ (by simpa using fun he : m = i => hhold (he ▸ hi))
  · intro hall m hm
    exact absurd (hall m hm.1) hm.2

open Classical in
theorem RollsBack.fibers (ht : Carries changes t) (old : Set Uuid) : (w.after [] old t).fibers =
      fun m => if (w.config H).Holds m r then none else (w.config H).fibers m := by
  funext m
  simp only [World.after, ht.upserts, h.upserts, ht.deletes, h.deletes, ht.all,
    getElem?_applyFiberDeltas, hw.cancelled_iff]
  rfl

theorem RollsBack.fibers_repark (hlive : w.state.fibers[i]? = some f)
    (hothers : ∀ m, (w.config H).Live m → (w.config H).Holds m r)
    (ht : Carries (reparkRolledBack (w.snapshot s) r openedAt f incident jobKey changes) t)
    (old : Set Uuid) : (w.after [] old t).fibers = Function.update (fun _ => none) i
      (some (f.reparked r openedAt incident.incidentId)) := by
  have hid : f.fiberId = i := hw.keyed i f hlive
  have hups : t.fibersUpsert = [f.reparked r openedAt incident.incidentId] := by
    rw [ht.upserts]
    simp [reparkRolledBack, Changes.event, Changes.upsert, v2ReconcileAncestorMembership,
      Changes.mutateAll, h.upserts, Fiber.reparked]
  have hdels : t.fibersDelete = (v2CancelGuardScope (w.snapshot s) r).2.filter (· ≠ i) := by
    rw [ht.deletes, ← h.deletes, ← hid]
    rfl
  funext m
  simp only [World.after, hups, hdels, ht.all, getElem?_applyFiberDeltas, List.mem_filter]
  by_cases hm : m = i
  · subst hm
    simp [Fiber.reparked, hid]
  · cases hg : w.state.fibers[m]? with
    | none =>
      have hne : ¬ f.fiberId = m := fun he => hm (he.symm.trans hid)
      simp [hm, Fiber.reparked, hne]
    | some g =>
      have hcancelled : m ∈ (v2CancelGuardScope (w.snapshot s) r).2 :=
        hw.cancelled_iff.mpr (hothers m ⟨g, hg⟩)
      simp [hm, hcancelled]

variable (hrecord : w.state.concurrencyTable[r]? = some record) (harmed : record.state = .armed)
  (hkind : ∃ interrupting, record.kind = .guard interrupting)
  (hrollback : record.rollbackDomainPayload.isSome)
include hrecord harmed hkind hrollback

theorem rollback_step (hi : (w.config H).Holds i r)
    (hothers : ¬ noOtherLive (w.snapshot s) changes i) (ht : Carries changes t) :
    Step workflow.instructions (w.own H) (w.config H) (.rollback r i)
      (w.after [] (w.config H).old t) := by
  classical
  have hconfig : w.after [] (w.config H).old t = { w.config H with
      fibers := fun m => if (w.config H).Holds m r then none else (w.config H).fibers m
      table := lookup w.state.concurrencyTable changes.concurrencyMutations } := by
    rw [← h.fibers hw ht (w.config H).old]
    simp only [World.after, World.config, ht.mutations, raceTimers_append, ht.timers,
      joinLog_append, ht.joins, List.append_nil]
  rw [hconfig]
  rw [h.noOtherLive_iff hw hi] at hothers
  push Not at hothers
  exact .rollback rfl hrecord harmed hkind hrollback hi hothers (cancels_config hw (Or.inl rfl))
    (h.rewrites hw)

theorem repark_step (hopened : record.openedAt = some openedAt)
    (hlive : w.state.fibers[i]? = some f) (hmem : r ∈ effectiveControlStack f)
    (hothers : noOtherLive (w.snapshot s) changes i)
    (ht : Carries (reparkRolledBack (w.snapshot s) r openedAt f incident jobKey changes) t) :
    Step workflow.instructions (w.own H) (w.config H) (.rollback r i)
      (w.after [] (w.config H).old t) := by
  classical
  have hid : f.fiberId = i := hw.keyed i f hlive
  have hholds : (w.config H).Holds i r := ⟨f, hlive, hmem⟩
  rw [h.noOtherLive_iff hw hholds] at hothers
  obtain ⟨above, habove⟩ := effectiveControlStack_split hmem
  set below := f.controlStack.takeWhile (· ≠ r) with hbelow
  have hmuts : t.concurrencyMutations = (v2ReconcileAncestorMembership (w.snapshot s)
      (below.map (fun ancestor => (ancestor, .add i))) [] changes).concurrencyMutations := by
    rw [ht.mutations, ← hid]
    exact reconcile_mutations_congr rfl
  have hconfig : w.after [] (w.config H).old t = { w.config H with
      fibers := Function.update (fun _ => none) i
        (some (f.reparked r openedAt incident.incidentId))
      table := lookup w.state.concurrencyTable t.concurrencyMutations } := by
    rw [← h.fibers_repark hw hlive hothers ht (w.config H).old]
    simp only [World.after, World.config, raceTimers_append, ht.timers, joinLog_append, ht.joins,
      List.append_nil]
  rw [hconfig, hmuts]
  exact .repark rfl hrecord harmed hkind hrollback hopened hlive habove hothers
    (cancels_config hw (Or.inr ⟨i, f, above, hlive, habove⟩))
    ((h.rewrites hw).then_add (rewrites_add hw.keyedTable changes below i))

theorem rolledBack_step (hlive : w.state.fibers[i]? = some f)
    (hmem : r ∈ effectiveControlStack f) {changes' : Changes}
    (hlands : Lands H workflow (w.snapshot s) (w.context s) r record i changes inst changes' inst') :
    changes'.Bare ∧ ∀ t, Carries changes' t → Step workflow.instructions (w.own H) (w.config H)
      (.rollback r i) (w.after [] (w.config H).old t) := by
  have hcases := hlands.cases hw hlive
  split at hcases
  · rename_i hothers
    obtain ⟨openedAt, incident, jobKey, hopened, -, -, rfl, -⟩ := hcases
    exact ⟨h.toBare.repark, fun t ht =>
      repark_step hw h hrecord harmed hkind hrollback hopened hlive hmem hothers ht⟩
  · rename_i hothers
    obtain ⟨rfl, -⟩ := hcases
    exact ⟨h.toBare, fun t ht =>
      rollback_step hw h hrecord harmed hkind hrollback ⟨f, hlive, hmem⟩ hothers ht⟩

end

theorem Provokes.performs (hrecord : w.state.concurrencyTable[r]? = some record)
    (h : Provokes (w.snapshot s) s.command r target acks timers events) :
    w.Performs H workflow s (.trigger r target) ∧ joinLog events = [] ∧
      (record.handler = some target ∨ ∃ code, (code, target) ∈ record.errorRoutes) := by
  cases h with
  | told hs hrecord' harmed htarget =>
    obtain rfl := Option.mem_unique hrecord hrecord'
    exact ⟨.triggered hs hrecord harmed htarget, rfl, Or.inl htarget⟩
  | timer hs hkind hrecord' harmed hguard hrollback htarget =>
    obtain rfl := Option.mem_unique hrecord hrecord'
    exact ⟨.guardTimer hs hkind hrecord harmed hrollback htarget, rfl, Or.inl htarget⟩
  | routed hs live hf retried hroute =>
    obtain ⟨record', hrecord', hcode⟩ := matchedErrorRoute_eq_some hroute
    obtain rfl := Option.mem_unique hrecord hrecord'
    exact ⟨.routed hs hf hroute, rfl, Or.inr hcode⟩

theorem Undoes.performs (hw : w.Coherent H) {gone : List Uuid} {jobs : List JobMutation}
    (h : Undoes (w.snapshot s) s.command r record i gone acks jobs timers events) :
    w.Performs H workflow s (.rollback r i) ∧ joinLog events = [] ∧
      w.state.concurrencyTable[r]? = some record ∧ record.state = .armed ∧
      (∃ interrupting, record.kind = .guard interrupting) ∧ record.rollbackDomainPayload.isSome ∧
      ∃ f, w.state.fibers[i]? = some f ∧ r ∈ effectiveControlStack f := by
  cases h with
  | @failed _ _ _ _ _ f hs live hf hi hguard hrollback =>
    subst hi
    obtain ⟨hmem, hrecord, harmed, hkind⟩ := innermostGuard_eq_some hguard
    exact ⟨.rolledBack hs hf hguard hrollback, rfl, hrecord, harmed, hkind, hrollback.2, f,
      (live_of_find hw hf).1, (controlStack_initial f).subset hmem⟩
  | timer hs hkind hrecord harmed hguard hrollback hi =>
    exact ⟨.guardTimerRollback hs hkind hrecord harmed hrollback hi, rfl, hrecord, harmed,
      ⟨_, hguard⟩, hrollback, hw.members r record hrecord harmed i
        (Std.ExtTreeSet.mem_toList.mp (List.mem_of_mem_head? hi))⟩

/-- Every form of a command is one step of the scope machine, or none. -/
theorem Reaction.answers (hH : Function.Injective H.uuidOfSeed) (hw : w.Coherent H)
    (h : Reaction H workflow (w.snapshot s) (w.context s) s.command t) :
    Answers H workflow w s t := by
  cases h with
  | ignored idle => exact answers_quiet rfl rfl rfl rfl rfl idle.joins
  | stored _ _ _ joins => exact answers_quiet rfl rfl rfl rfl rfl joins
  | cleared hs _ joins => exact after_clear rfl (List.nil_append _) rfl joins hs
  | child before => exact absurd before (hw.noChild _ _).1
  | @resolved incidentId _ _ hs =>
    cases hf : (w.snapshot s).fibers.values.find?
        (fun fiber => fiber.wait = .incident incidentId) with
    | none => exact answers_quiet rfl rfl rfl rfl rfl rfl
    | some f =>
      obtain ⟨hlive, hwait⟩ := live_of_find hw hf
      refine Or.inl ⟨_, _, .incident hs hf, config_old_subset, ?_⟩
      rw [after_upsert_quiet { f with wait := .running } (show _ = f.fiberId from rfl) rfl rfl
        rfl rfl rfl rfl]
      exact .wake rfl hlive (Or.inr (Or.inr ⟨incidentId, by simpa using hwait⟩))
  | @woken timer _ deadlineMs f hs hkind hf hwait =>
    rw [hw.fibers] at hf
    refine Or.inl ⟨_, _, .waitTimer hs hkind, config_old_subset, ?_⟩
    rw [after_upsert_quiet { f with wait := .running }
      (show _ = timer.fiberId from hw.keyed _ f hf) rfl rfl rfl rfl rfl rfl]
    exact .wake rfl hf (Or.inl ⟨deadlineMs, hwait⟩)
  | @expired timer _ r target f _ hs hkind hf hwait =>
    rw [hw.fibers] at hf
    refine Or.inl ⟨_, _, .raceTimer hs hkind hf hwait, config_old_subset, ?_⟩
    rw [after_upsert { f with pc := target, wait := .running }
      (show _ = timer.fiberId from hw.keyed _ f hf) rfl rfl rfl rfl rfl]
    exact .expire rfl hf hwait (rewrites_retire _ [] r)
  | @completed _ _ f _ _ hs hf _ joins =>
    obtain ⟨hlive, hwait⟩ := live_of_find hw hf
    refine Or.inl ⟨_, _, .jobCompleted hs hf, config_old_subset, ?_⟩
    rw [after_upsert_quiet { f with pc := f.pc + 1, wait := .running }
      (show _ = f.fiberId from rfl) rfl rfl rfl rfl rfl joins]
    exact .complete rfl hlive (Or.inl ⟨_, by simpa using hwait⟩)
  | @answered _ i _ _ _ _ f _ _ _ _ hs hf hmatch _ joins =>
    rw [hw.fibers] at hf
    refine Or.inl ⟨_, _, .ffiCompleted hs, config_old_subset, ?_⟩
    rw [after_upsert_quiet { f with pc := f.pc + 1, wait := .running }
      (show _ = i from hw.keyed i f hf) rfl rfl rfl rfl rfl joins]
    exact .complete rfl hf (Or.inr ⟨_, (matchFfiCompletion_eq_ok hmatch).1 rfl⟩)
  | @won _ i _ _ _ _ f _ _ _ r target _ hs hf hmatch _ joins =>
    rw [hw.fibers] at hf
    obtain ⟨arms, hwait, htarget⟩ := (matchFfiCompletion_eq_ok hmatch).2 r target rfl
    refine Or.inl ⟨_, _, .ffiWon hs hf hmatch, config_old_subset, ?_⟩
    rw [after_upsert { f with pc := target, wait := .running }
      (show _ = i from hw.keyed i f hf) rfl rfl rfl rfl joins]
    exact .win rfl hf hwait htarget (rewrites_retire _ [] r)
  | @received race f' _ _ _ _ _ _ _ _ _ _ hs _ found _ joins =>
    obtain ⟨f, hmem, hresume⟩ := List.exists_of_findSome?_eq_some found
    have hlive := live_of_values hw hmem
    have hspec := messageResumption_eq_some hresume
    cases race with
    | none =>
      obtain ⟨hwait, rfl⟩ := hspec
      refine Or.inl ⟨_, _, .message hs found, config_old_subset, ?_⟩
      rw [after_upsert_quiet { f with wait := .running } (show _ = f.fiberId from rfl) rfl rfl rfl
        rfl rfl joins]
      exact .wake rfl hlive (Or.inr (Or.inl hwait))
    | some r =>
      obtain ⟨arms, hwait, htarget, hf'⟩ := hspec
      have hid : f'.fiberId = f.fiberId := by rw [hf']
      refine Or.inl ⟨_, _, .messageWon hs found, config_old_subset, ?_⟩
      rw [after_upsert f' rfl rfl rfl rfl rfl
        ((joinLog_append _ _).trans (congrArg (· ++ []) joins)), hid]
      have hstep : Step workflow.instructions (w.own H) (w.config H) (.win f.fiberId f'.pc)
          { w.config H with
            fibers := (w.config H).set f.fiberId { f with pc := f'.pc, wait := .running }
            table := lookup w.state.concurrencyTable [.retire r] } :=
        .win rfl hlive hwait htarget (rewrites_retire _ [] r)
      rwa [← hf'] at hstep
  | @raised effectId jobKey _ _ _ _ f _ _ _ _ hs _ hf _ _ _ joins =>
    obtain ⟨hlive, hwait⟩ := live_of_find hw hf
    have hawaits : f.Awaits := by
      rcases (Bool.or_eq_true _ _).mp hwait with hwait | hwait
      · exact Or.inl ⟨jobKey, by simpa using hwait⟩
      · exact Or.inr ⟨effectId, by simpa using hwait⟩
    refine Or.inl ⟨_, _, .failed hs hf, config_old_subset, ?_⟩
    rw [after_upsert_quiet { f with wait := .incident ((w.context s).derivedId H 0) }
      (show _ = f.fiberId from rfl) rfl rfl rfl rfl rfl joins]
    exact .fail rfl hlive hawaits
  | missed => exact answers_quiet rfl rfl rfl rfl rfl rfl
  | triggered hrecord hkind harmed cause =>
    have hperforms : w.Performs H workflow s _ ∧ _ := cause.performs hrecord
    obtain ⟨hperforms, hjoins, htarget⟩ := hperforms
    obtain ⟨old, hold, hstep⟩ := trigger_step hH hw hrecord hkind harmed htarget
      (handlerChanges_bare.carries hjoins _)
    exact Or.inl ⟨_, old, hperforms, hold, hstep⟩
  | @rolledBack r record i _ rolled changes _ _ _ _ _ hroll cause lands =>
    have hperforms : w.Performs H workflow s _ ∧ _ := cause.performs hw
    obtain ⟨hperforms, hjoins, hrecord, harmed, hkind, hrollback, f, hlive, hmem⟩ := hperforms
    obtain ⟨-, hrolled⟩ := rollsBack_of_eq_ok hroll
    obtain ⟨hbare, hstep⟩ := rolledBack_step hw (hrolled.withJobs _ _) hrecord harmed hkind hrollback
      hlive hmem lands
    exact Or.inl ⟨_, _, hperforms, config_old_subset,
      hstep _ (hbare.carries hjoins _)⟩

end

end BpmnLite
