import BpmnLite.Kernel.Ledger
import BpmnLite.Kernel.Reference

/-!
# Jobs of fibres that go away

A fibre parked on a job that is deleted or goes on leaves a job behind, which the same transition
must take back from the workers; a job that is taken back must not have a fibre parked on it.
`World.AccountsJobs` says when a command does so. The handlers that delete fibres keep the books
differently: a guard trigger and a guard timer cancel the jobs of the fibres they delete, a rollback
on failure acknowledges only the failed job, and a join release or `V2CancelScope` none at all.
-/

namespace BpmnLite

open Maps

variable {m i : Uuid} {g f f' : Fiber} {k : JobKey} {opened : List (RecordId × Addr)}
  {ts : TickState}

/-- No fibre parked on a job is deleted by a `V2Join` that releases its barrier or by
`V2CancelScope`. -/
def Config.SparesJobs (P : List Instr) (c : Config) : Act → Prop
  | .exec i =>
    (∀ f pairing below r record, c.Exec P i f (.v2Join pairing) → f.controlStack = below ++ [r] →
      c.table r = some record → record.counters.count ≤ 1 →
      ∀ m ∈ record.members, ∀ g k, c.fibers m = some g → g.wait ≠ .job k) ∧
    ∀ f below r, c.Exec P i f .v2CancelScope → f.controlStack = below ++ [r] →
      ∀ m g k, c.Holds m r → c.fibers m = some g → g.wait ≠ .job k
  | _ => True

/-- The acts a tick is made of, but for clearing the instance. -/
def Act.isTick : Act → Prop
  | .select _ | .exec _ | .cached _ | .age => True
  | _ => False

section Machine
variable {P : List Instr} {own : Uuid → Addr → EffectId} {c c' : Config} {act : Act}

theorem Step.keeps_waiting (h : Step P own c act c') (hc : c.Formed) (hact : act.isTick)
    (hspares : c.SparesJobs P act) (hg : c.fibers m = some g) (hwait : g.wait = .job k) :
    c'.fibers m = some g := by
  have hne : ∀ {i f instruction}, c.Exec P i f instruction → m ≠ i := by
    rintro i f instruction hexec rfl
    obtain rfl := Option.mem_unique hg hexec.live
    simp [hexec.running] at hwait
  have hset : ∀ {i f instruction f'}, c.Exec P i f instruction → c.set i f' m = some g :=
    fun hexec => (Function.update_of_ne (hne hexec) ..).trans hg
  cases h with
  | select | age => exact hg
  | plain h | cached h | arm h | armError h | «open» h | close h | arrive h | park h
  | raceClose h => exact hset h
  | finish h => exact (Function.update_of_ne (hne h) ..).trans hg
  | release h hstack hrecord hcount =>
    have hmember : m ∉ _ := fun hm => hspares.1 _ _ _ _ _ h hstack hrecord hcount m hm g k hg hwait
    simp only [Function.update_of_ne (hne h), if_neg hmember]
    exact hg
  | cancel h hstack =>
    have hholds : ¬ c.Holds m _ := fun hm => hspares.2 _ _ _ h hstack m g k hm hg hwait
    simp only [Function.update_of_ne (hne h), if_neg hholds]
    exact hg
  | fork h hids hnodup hnew hrecord hmembers htable =>
    rename_i i f targets pairing r ids record table
    -- The children are new, and the fibre is not.
    have hnone : (ids.zip targets).find? (·.1 = m) = none := by
      rw [List.find?_eq_none]
      intro child hchild hid
      have hmem : child.1 ∈ r :: ids := List.mem_cons_of_mem _ (List.of_mem_zip hchild).1
      rw [of_decide_eq_true hid] at hmem
      exact hnew m hmem (hc.live m g hg)
    simp only [if_neg (hne h), hnone]
    exact hg
  | wake | complete | fail | win | expire | triggerN | trigger | rollback | repark | clear =>
    exact hact.elim

theorem Step.fibers_of_clear (h : Step P own c .clear c') : c'.fibers = fun _ => none := by
  cases h
  rfl

end Machine

section
variable (H : Host) (workflow : ExecutableWorkflow) (w : World) (s : Stimulus) (t : Transition)

def World.WaitsFor (m : Uuid) (k : JobKey) : Prop :=
  ∃ f, w.state.fibers[m]? = some f ∧ f.wait = .job k

variable {w} in
theorem World.WaitsFor.wait {m : Uuid} {k : JobKey} {f : Fiber} (h : w.WaitsFor m k)
    (hf : w.state.fibers[m]? = some f) : f.wait = .job k := by
  obtain ⟨f', hf', hwait⟩ := h
  rwa [Option.mem_unique hf hf']

/-- The jobs a transition takes back are those of the fibres that are deleted or go on. -/
structure World.Withdraws : Prop where
  voided : ∀ m k, w.WaitsFor m k → ¬ (w.commit H workflow s t).WaitsFor m k → k ∈ t.withdrawn
  kept : ∀ m, ∀ k ∈ t.withdrawn, ¬ (w.commit H workflow s t).WaitsFor m k

/-- The command voids a job exactly when it takes it back. -/
structure World.AccountsJobs : Prop where
  tick : ∀ opened ts, w.Visits H workflow s opened ts →
    (w.during H s opened ts).SparesJobs workflow.instructions (ts.act workflow s)
  complete : ∀ {effectId completion}, s.command = .effectCompleted effectId (.job completion) →
    ∀ m m', w.WaitsFor m completion.jobKey → w.WaitsFor m' completion.jobKey → m = m'
  raise : ∀ {effectId jobKey errorClass retry} {f : Fiber},
    s.Reports effectId jobKey errorClass retry → w.state.inst.state.isTerminal = false →
    failedFiber (w.snapshot s) effectId jobKey = some f → isRetried errorClass retry = false →
    matchedErrorRoute (w.snapshot s) f errorClass = none →
    spannedBy (w.snapshot s) f errorClass = none → ∀ m, w.WaitsFor m jobKey → m = f.fiberId
  route : ∀ {effectId jobKey errorClass retry} {f : Fiber} {code target r}
    {record : ConcurrencyRecord}, s.Reports effectId jobKey errorClass retry →
    failedFiber (w.snapshot s) effectId jobKey = some f →
    matchedErrorRoute (w.snapshot s) f errorClass = some (code, target, r) →
    w.state.concurrencyTable[r]? = some record →
    ∀ m, w.WaitsFor m jobKey → record.kind = .guard true ∧ (w.config H).Holds m r
  trigger : ∀ {r target} {record : ConcurrencyRecord}, w.Performs H workflow s (.trigger r target) →
    w.state.concurrencyTable[r]? = some record → record.kind = .guard true →
    ∀ k ∈ w.jobsIn H r, ∀ m, w.WaitsFor m k → (w.config H).Holds m r
  rollback : ∀ {r i}, w.Performs H workflow s (.rollback r i) →
    ∀ k ∈ w.jobsIn H r, ∀ m, w.WaitsFor m k → (w.config H).Holds m r
  fail : ∀ {effectId jobKey retry r i}, s.Reports effectId jobKey .contractViolation retry →
    w.Performs H workflow s (.rollback r i) →
    (∀ k ∈ w.jobsIn H r, k = jobKey) ∧ ∀ m, w.WaitsFor m jobKey → (w.config H).Holds m r

end

section
variable {H : Host} {workflow : ExecutableWorkflow} {w : World} {s : Stimulus} {t : Transition}

theorem isTick_act (ts : TickState) : (ts.act workflow s).isTick := by
  unfold TickState.act
  split
  · split <;> trivial
  · trivial

theorem commit_waitsFor (hw : w.Coherent H) :
    (w.commit H workflow s t).WaitsFor m k ↔ ∃ f, w.fibersAfter t m = some f ∧ f.wait = .job k := by
  rw [World.WaitsFor, commit_fibers workflow s hw]
  rfl

theorem withdraws_of_gone (hw : w.Coherent H) (gone : Uuid → Prop)
    (hafter : ∀ m k, (∃ f, w.fibersAfter t m = some f ∧ f.wait = .job k) ↔
      ¬ gone m ∧ w.WaitsFor m k)
    (hvoided : ∀ m k, gone m → w.WaitsFor m k → k ∈ t.withdrawn)
    (hkept : ∀ m k, k ∈ t.withdrawn → w.WaitsFor m k → gone m) : w.Withdraws H workflow s t := by
  refine ⟨fun m k hm hnot => ?_, fun m k hk hm => ?_⟩
  · rw [commit_waitsFor hw, hafter] at hnot
    exact hvoided m k (by_contra fun hgone => hnot ⟨hgone, hm⟩) hm
  · obtain ⟨hgone, hm⟩ := (hafter m k).mp ((commit_waitsFor hw).mp hm)
    exact hgone (hkept m k hk hm)

theorem World.Replaces.waits_iff (hfibers : w.Replaces t m f') (hf' : ∀ k, f'.wait ≠ .job k)
    (m' : Uuid) (k : JobKey) :
    (∃ f, w.fibersAfter t m' = some f ∧ f.wait = .job k) ↔ ¬ m' = m ∧ w.WaitsFor m' k := by
  by_cases hm : m' = m
  · subst hm
    simp [hfibers m', hf']
  · simp [hfibers m', hm, World.WaitsFor]

theorem mem_jobKeyList {jobKey : JobKey} : k ∈ jobKeyList jobKey ↔ k = jobKey ∧ ¬ k.isEmpty := by
  unfold jobKeyList
  split
  · rename_i hempty
    simp only [List.not_mem_nil, false_iff, not_and, not_not]
    rintro rfl
    exact hempty
  · rename_i hempty
    rw [List.mem_singleton]
    exact ⟨fun h => ⟨h, h ▸ hempty⟩, And.left⟩

theorem rollback_withdraws {r : RecordId} (hkeys : ∀ m k, w.WaitsFor m k → ¬ k.isEmpty)
    (haccounts : w.AccountsJobs H workflow s) (hperforms : w.Performs H workflow s (.rollback r i))
    (hwithdrawn : (∀ k, k ∈ t.withdrawn ↔ k ∈ w.jobsIn H r) ∨ ∃ effectId jobKey retry, s.Reports
      effectId jobKey .contractViolation retry ∧ t.withdrawn = jobKeyList jobKey) :
    (∀ m k, (w.config H).Holds m r → w.WaitsFor m k → k ∈ t.withdrawn) ∧
      ∀ m k, k ∈ t.withdrawn → w.WaitsFor m k → (w.config H).Holds m r := by
  have hjob : ∀ m k, (w.config H).Holds m r → w.WaitsFor m k → k ∈ w.jobsIn H r := by
    rintro m k hm ⟨f, hf, hwait⟩
    exact ⟨m, f, hm, hf, hwait⟩
  rcases hwithdrawn with hall | ⟨effectId, jobKey, retry, hreports, hone⟩
  · refine ⟨fun m k hm hwaits => (hall k).mpr (hjob m k hm hwaits), fun m k hk hm => ?_⟩
    exact haccounts.rollback hperforms k ((hall k).mp hk) m hm
  · obtain ⟨hfailed, hholds⟩ := haccounts.fail hreports hperforms
    refine ⟨fun m k hm hwaits => ?_, fun m k hk hm => ?_⟩
    · rw [hone, mem_jobKeyList]
      exact ⟨hfailed k (hjob m k hm hwaits), hkeys m k hwaits⟩
    · rw [hone, mem_jobKeyList] at hk
      exact hholds m (hk.1 ▸ hm)

theorem withdraws_of_handled (hw : w.Coherent H) (hkeys : ∀ m k, w.WaitsFor m k → ¬ k.isEmpty)
    (haccounts : w.AccountsJobs H workflow s) (hnext : t.nextSnapshot.state.isTerminal = false)
    (h : Handled H workflow w s t) : w.Withdraws H workflow s t := by
  cases h with
  | ignored calm fibers withdrawn =>
    refine withdraws_of_gone hw (fun _ => False) (fun m k => ?_) (fun m k h => h.elim)
      fun m k hk hm => ?_
    · simp [fibers, World.WaitsFor]
    · rcases withdrawn with hnone | hended | ⟨effectId, jobKey, errorClass, retry, -, hnone, hwithdrawn⟩
      · simp [hnone] at hk
      · rw [calm.state, hended] at hnext
        simp at hnext
      · rw [hwithdrawn, mem_jobKeyList] at hk
        obtain ⟨f, hf, hwait⟩ := hm
        have hmem : f ∈ (w.snapshot s).fibers.values := mem_values.mpr ⟨m, by rwa [hw.fibers]⟩
        have := List.find?_eq_none.mp hnone f hmem
        simp [hwait, hk.1] at this
  | completed hs live wait calm fibers withdrawn =>
    refine withdraws_of_gone hw _ (fibers.waits_iff (by simp)) (fun m k hm hwaits => ?_)
      fun m k hk hm => ?_
    · subst hm
      simp [withdrawn, ← WaitState.job.inj (wait.symm.trans (hwaits.wait live))]
    · obtain rfl := List.mem_singleton.mp (withdrawn ▸ hk)
      exact haccounts.complete hs m _ hm ⟨_, live, wait⟩
  | resumed live wait running calm fibers withdrawn =>
    refine withdraws_of_gone hw _ (fibers.waits_iff (by simp [running])) (fun m k hm hwaits => ?_)
      (by simp [withdrawn])
    subst hm
    simp [hwaits.wait live, WaitState.isOutside] at wait
  | resolved before after fibers withdrawn =>
    rcases fibers with ⟨f, hf, hwait, hfibers⟩ | ⟨-, hfibers⟩
    · refine withdraws_of_gone hw _ (hfibers.waits_iff (by simp)) (fun m k hm hwaits => ?_)
        (by simp [withdrawn])
      subst hm
      simp [hwaits.wait hf] at hwait
    · refine withdraws_of_gone hw (fun _ => False) (fun m k => ?_) (fun m k h => h.elim)
        (by simp [withdrawn])
      simp [hfibers, World.WaitsFor]
  | raised reports live hf retried route span state incidents unresolved fibers withdrawn =>
    obtain ⟨hlive, hwait⟩ := live_of_find hw hf
    have hmem : ∀ {k jobKey : JobKey} {retry : Option JobRetry}, ¬ k.isEmpty →
        (k ∈ (if retry.isSome then [jobKey] else jobKeyList jobKey) ↔ k = jobKey) := by
      intro k jobKey retry hk
      split
      · exact List.mem_singleton
      · rw [mem_jobKeyList, and_iff_left hk]
    refine withdraws_of_gone hw _ (fibers.waits_iff (by simp)) (fun m k hm hwaits => ?_)
      fun m k hk hm => ?_
    · rw [withdrawn, hmem (hkeys m k hwaits)]
      subst hm
      simpa [hwaits.wait hlive] using hwait
    · rw [withdrawn, hmem (hkeys m k hm)] at hk
      exact haccounts.raise reports live hf retried route span m (hk ▸ hm)
  | triggered performs hrecord hkind fresh starts running stack calm gone spared withdrawn routed =>
    rename_i r target record interrupting h handler keys
    refine withdraws_of_gone hw (fun m => interrupting ∧ (w.config H).Holds m r) (fun m k => ?_)
      (fun m k hm hwaits => ?_) fun m k hk hm => ?_
    · by_cases hm : m = h
      · subst hm
        simp [starts, running, World.WaitsFor, fresh]
      · by_cases hheld : interrupting ∧ (w.config H).Holds m r
        · simp [gone hheld.1 m hheld.2, hheld.1, hheld.2]
        · simp only [spared m hm hheld, hheld, not_false_eq_true, true_and, World.WaitsFor]
    · obtain ⟨f, hf, hwait⟩ := hwaits
      exact (withdrawn k).mpr (Or.inr ⟨hm.1, m, f, hm.2, hf, hwait⟩)
    · rcases (withdrawn k).mp hk with hkey | ⟨hint, hjob⟩
      · rcases routed with hnone | ⟨effectId, jobKey, errorClass, retry, f, code, hreports, hf, hroute,
          hlist⟩
        · simp [hnone] at hkey
        · rw [hlist, mem_jobKeyList] at hkey
          obtain ⟨hguard, hholds⟩ := haccounts.route hreports hf hroute hrecord m (hkey.1 ▸ hm)
          exact ⟨by simpa [hguard] using hkind.symm, hholds⟩
      · exact ⟨hint, haccounts.trigger performs hrecord (by rw [hkind, hint]) k hjob m hm⟩
  | rolledBack performs others calm sweeps withdrawn =>
    rename_i r i
    obtain ⟨hvoided, hkept⟩ := rollback_withdraws hkeys haccounts performs withdrawn
    refine withdraws_of_gone hw _ (fun m k => ?_) hvoided hkept
    by_cases hm : (w.config H).Holds m r
    · simp [sweeps.gone m hm, hm]
    · simp only [sweeps.spared m hm, hm, not_false_eq_true, true_and, World.WaitsFor]
  | reparked performs all state incidents unresolved wait fibers withdrawn =>
    obtain ⟨hvoided, -⟩ := rollback_withdraws hkeys haccounts performs withdrawn
    refine withdraws_of_gone hw (fun _ => True) (fun m k => ?_) (fun m k _ hwaits => ?_)
      fun _ _ _ _ => trivial
    · rw [fibers m]
      split <;> simp [wait]
    · obtain ⟨f, hf, -⟩ := id hwaits
      exact hvoided m k (all m ⟨f, hf⟩) hwaits
  | cleared ended fibers => simp [hnext] at ended

theorem Handled.waits_before (h : Handled H workflow w s t) (hf : w.fibersAfter t m = some f)
    (hwait : f.wait = .job k) : w.state.fibers[m]? = some f := by
  have hreplaces : ∀ {i f'}, w.Replaces t i f' → (∀ k, f'.wait ≠ .job k) →
      w.state.fibers[m]? = some f := by
    intro i f' hfibers hf'
    rw [hfibers m] at hf
    split at hf
    · obtain rfl := Option.some.inj hf
      exact absurd hwait (hf' k)
    · exact hf
  cases h with
  | ignored calm fibers withdrawn => exact fibers m ▸ hf
  | completed hs live wait calm fibers withdrawn => exact hreplaces fibers (by simp)
  | resumed live wait running calm fibers withdrawn => exact hreplaces fibers (by simp [running])
  | resolved before after fibers withdrawn =>
    rcases fibers with ⟨g, -, -, hfibers⟩ | ⟨-, hfibers⟩
    · exact hreplaces hfibers (by simp)
    · exact hfibers m ▸ hf
  | raised reports live hfound retried route span state incidents unresolved fibers withdrawn =>
    exact hreplaces fibers (by simp)
  | triggered performs hrecord hkind fresh starts running stack calm gone spared withdrawn routed =>
    rename_i r target record interrupting h handler keys
    by_cases hm : m = h
    · subst hm
      obtain rfl := Option.mem_unique hf starts
      simp [running] at hwait
    · by_cases hheld : interrupting ∧ (w.config H).Holds m r
      · simp [gone hheld.1 m hheld.2] at hf
      · exact spared m hm hheld ▸ hf
  | rolledBack performs others calm sweeps withdrawn =>
    rename_i r i
    by_cases hm : (w.config H).Holds m r
    · simp [sweeps.gone m hm] at hf
    · exact sweeps.spared m hm ▸ hf
  | reparked performs all state incidents unresolved wait fibers withdrawn =>
    rw [fibers m] at hf
    split at hf
    · obtain rfl := Option.some.inj hf
      simp [wait] at hwait
    · simp at hf
  | cleared ended fibers => simp [fibers m] at hf

/-- A fibre parked on a job is parked on the one its address and loop epoch stand for. -/
def World.Activated (workflow : ExecutableWorkflow) (w : World) : Prop :=
  ∀ (m : Uuid) (f : Fiber) (k : JobKey), w.state.fibers[m]? = some f → f.wait = .job k →
    k = f.jobKey workflow w.state.inst.instanceId

section
variable (hH : Function.Injective H.uuidOfSeed) (hw : w.Coherent H)
include hH hw

theorem trace_keeps_waiting (hticks : w.Ticks workflow s f)
    (hspares : ∀ opened ts, w.Visits H workflow s opened ts →
      (w.during H s opened ts).SparesJobs workflow.instructions (ts.act workflow s))
    {n : ℕ}
    (htrace : Trace H workflow (w.snapshot s) (w.context s) (tickStart (w.snapshot s) f) n opened
      ts)
    (hn : n ≤ workflow.limits.maxSteps) (hg : w.state.fibers[m]? = some g) (hwait : g.wait = .job k) :
    (w.during H s opened ts).fibers m = some g := by
  induction htrace with
  | start =>
    obtain ⟨hf, hrun⟩ := hticks.live hw
    have hm : m ≠ f.fiberId := by
      rintro rfl
      obtain rfl := Option.mem_unique hg hf
      simp [hrun] at hwait
    simp [World.during, tickStart, hm, hg]
  | step htrace hstep ih =>
    have hvisits : w.Visits H workflow s _ _ := ⟨f, hticks, _, by omega, htrace⟩
    obtain ⟨hmid, hpath⟩ := path_of_visits (C := fun _ _ => True) hH hw
      (fun _ _ _ _ _ => trivial) hvisits
    have hformed := hpath.formed hw.formed
    exact (hmid.next hH hw hformed hstep).2.keeps_waiting hformed (isTick_act _)
      (hspares _ _ hvisits) (ih (by omega)) hwait

theorem tick_keeps_waiting (hspares : ∀ opened ts, w.Visits H workflow s opened ts →
      (w.during H s opened ts).SparesJobs workflow.instructions (ts.act workflow s))
    (hvisits : w.Visits H workflow s opened ts)
    (hdone : tickStep H workflow (w.snapshot s) (w.context s) ts = .ok (.done t))
    (hsome : ∃ k, w.fibersAfter t k ≠ none) (hg : w.state.fibers[m]? = some g)
    (hwait : g.wait = .job k) : w.fibersAfter t m = some g := by
  obtain ⟨hmid, hpath⟩ := path_of_visits (C := fun _ _ => True) hH hw (fun _ _ _ _ _ => trivial)
    hvisits
  have hformed := hpath.formed hw.formed
  obtain ⟨f, hticks, n, hn, htrace⟩ := id hvisits
  have hbefore := trace_keeps_waiting hH hw hticks hspares htrace hn.le hg hwait
  obtain ⟨act, old, rfl | rfl, -, hstep⟩ := hmid.done hH hw hformed hdone
  · exact hstep.keeps_waiting hformed (isTick_act ts) (hspares opened ts hvisits) hbefore hwait
  · obtain ⟨k, hk⟩ := hsome
    exact absurd (congrFun hstep.fibers_of_clear k) hk

theorem parked_or_parks (h : w.respond H workflow s = .ok t) {m : Uuid} {f : Fiber} {k : JobKey}
    (hf : (w.commit H workflow s t).state.fibers[m]? = some f) (hwait : f.wait = .job k) :
    w.state.fibers[m]? = some f ∨ ∃ opened ts instruction, w.Visits H workflow s opened ts ∧
      ts.inst.instanceId = w.state.inst.instanceId ∧
      workflow.instructions[ts.fiber.pc]? = some instruction ∧ instruction.isTask ∧
      t.fibersUpsert = [f] ∧ f = { ts.fiber with wait := .job (ts.jobKey workflow) } := by
  obtain ⟨t₀, hlimits, hhandle, -, -, rfl⟩ := respond_eq_ok h
  rw [commit_envelope, commit_fibers workflow s hw] at hf
  rcases tick_or_reacts hhandle with ⟨i, hs⟩ | ⟨-, hreacts⟩
  · obtain ⟨opened, ts, hvisits, hmid, -, -, hfinished⟩ := tick_finished hH hw hs hlimits hhandle
    rcases mem_of_applyFiberDeltas hf with hnew | hold
    · cases hfinished with
      | task fetch word key upserts deletes cleanup books state =>
        rw [hmid.upserts, List.nil_append] at upserts
        rw [upserts, List.mem_singleton] at hnew
        exact .inr ⟨opened, ts, _, hvisits, hmid.instanceId, fetch, word, hnew ▸ upserts, hnew⟩
      | incident unresolved upserts deletes cleanup books state =>
        rw [upserts, hmid.upserts, List.nil_append, List.mem_singleton] at hnew
        simp [hnew] at hwait
      | other waits upserts books state =>
        rw [upserts, hmid.upserts, List.nil_append] at hnew
        exact absurd hwait ((waits f hnew).1 k)
    · exact .inl hold
  · exact .inl ((hreacts.handled hH hw).waits_before hf hwait)

theorem World.Activated.commit
    (hactivated : w.Activated workflow) (h : w.respond H workflow s = .ok t) :
    (w.commit H workflow s t).Activated workflow := by
  intro m f k hf hwait
  have hparked := parked_or_parks hH hw h hf hwait
  obtain ⟨t₀, hlimits, hhandle, -, -, rfl⟩ := respond_eq_ok h
  have hkeeps := respond_keeps hH hw hlimits hhandle
  rw [commit_envelope, commit_inst hkeeps.override]
  change k = f.jobKey workflow t₀.nextSnapshot.instanceId
  rw [hkeeps.instanceId]
  rcases hparked with hold | ⟨opened, ts, instruction, -, hid, -, -, -, rfl⟩
  · exact hactivated m f k hold hwait
  · rw [← hid]
    exact (WaitState.job.inj hwait).symm

end

theorem genesis_activated (inst : ProcessInstance) (idempotencyKey : Uuid) (revision : ℕ) :
    (World.genesis H inst idempotencyKey revision).Activated workflow := by
  intro m f k hf hwait
  rw [(genesis_fibers hf).2] at hwait
  simp [Fiber.new] at hwait

theorem activated_of_reachable (hH : Function.Injective H.uuidOfSeed)
    {G : World → Stimulus → Prop} {inst : ProcessInstance} {idempotencyKey : Uuid} {revision : ℕ}
    (h : World.Reachable H workflow G (World.genesis H inst idempotencyKey revision) w) :
    w.Coherent H ∧ w.Activated workflow := by
  induction h with
  | refl => exact ⟨genesis_coherent .., genesis_activated _ _ _⟩
  | tail _ hlast ih =>
    obtain ⟨s, t, -, hrespond, rfl⟩ := hlast
    exact ⟨ih.1.commit hH hrespond, ih.2.commit hH ih.1 hrespond⟩

theorem Finished.withdrawn (h : Finished workflow ts t)
    (hbooks : ts.changes.books = ⟨[], [], [], [], []⟩) : t.withdrawn = [] := by
  have hlists : t.books.acks = [] ∧ t.books.jobs = [] := by
    cases h with
    | task fetch word key upserts deletes cleanup books state => simp [books, hbooks]
    | incident unresolved upserts deletes cleanup books state => simp [books, hbooks]
    | other waits upserts books state => simp [books, hbooks]
  obtain ⟨hacks, hjobs⟩ := hlists
  rw [Transition.withdrawn, show t.jobsAck = [] from hacks, show t.jobMutations = [] from hjobs]
  rfl

theorem Sound.exists_fiber (hw : w.Coherent H) (h : Sound workflow (w.snapshot s) t)
    (hoverride : t.stateOverride = none) (hnext : t.nextSnapshot.state.isTerminal = false) :
    ∃ k, w.fibersAfter t k ≠ none := by
  by_contra hnone
  push Not at hnone
  have hempty : (derivePostTransitionFrame (w.snapshot s) t).1.isEmpty := by
    rw [derivePostTransitionFrame, hw.fibers, Std.ExtTreeMap.isEmpty_iff]
    exact Std.ExtTreeMap.ext_getElem? fun k => (hnone k).trans (by simp)
  have := h.live hempty
  simp [hoverride, hnext] at this

/-- A command that accounts for the jobs takes back those of the fibres it deletes or sets going,
and no others, unless it ends the instance. -/
theorem jobs_withdrawn (hH : Function.Injective H.uuidOfSeed) {inst : ProcessInstance}
    {idempotencyKey : Uuid} {revision : ℕ}
    (h : World.Reachable H workflow (fun _ _ => True)
      (World.genesis H inst idempotencyKey revision) w)
    (hrespond : w.respond H workflow s = .ok t) (haccounts : w.AccountsJobs H workflow s)
    (hlive : (w.commit H workflow s t).state.inst.state.isTerminal = false) :
    w.Withdraws H workflow s t := by
  obtain ⟨hw, hactivated⟩ := activated_of_reachable hH h
  obtain ⟨t₀, hlimits, hhandle, hring3, -, rfl⟩ := respond_eq_ok hrespond
  have hkeeps := respond_keeps hH hw hlimits hhandle
  have hnext : t₀.nextSnapshot.state.isTerminal = false := by
    rw [commit_envelope, commit_inst hkeeps.override] at hlive
    exact hlive
  suffices hwithdraws : w.Withdraws H workflow s t₀ from ⟨hwithdraws.voided, hwithdraws.kept⟩
  rcases tick_or_reacts hhandle with ⟨i, hs⟩ | ⟨-, hreacts⟩
  · obtain ⟨opened, ts, hvisits, -, hbooks, hdone, hfinished⟩ := tick_finished hH hw hs hlimits hhandle
    have hsome := (ring3ShadowCheck_eq_none.mp hring3).exists_fiber hw hkeeps.override hnext
    refine ⟨fun m k ⟨f, hf, hwait⟩ hnot => ?_, by simp [hfinished.withdrawn hbooks]⟩
    have hkept := tick_keeps_waiting hH hw haccounts.tick hvisits hdone hsome hf hwait
    exact absurd ((commit_waitsFor hw).mpr ⟨f, hkept, hwait⟩) hnot
  · have hkeys : ∀ m k, w.WaitsFor m k → ¬ k.isEmpty := by
      rintro m k ⟨f, hf, hwait⟩
      rw [hactivated m f k hf hwait]
      simp [Fiber.jobKey, JobKey.isEmpty]
    exact withdraws_of_handled hw hkeys haccounts hnext (hreacts.handled hH hw)

end

namespace Reference

def completion : Stimulus where
  command := .effectCompleted 0 (.job {
    jobKey := .activation 0 "pc_0" 0 0
    domainPayload := ""
    expectedInstancePayloadHash := 0
    orchFlags := ∅
    workerId := none
    claimToken := none })
  commandId := 0
  logicalTime := 0

/-- The completed job is acknowledged, and its fibre goes on. -/
theorem completed_job_withdrawn : ∃ t,
    (after single [.tick none]).respond host single completion = .ok t ∧
    t.withdrawn = [.activation 0 "pc_0" 0 0] ∧
    (after single [.tick none]).Withdraws host single completion t := by
  obtain ⟨t, ht, hcheck⟩ := ok_of_check (x := (after single [.tick none]).respond host single
    completion) (fun t => t.withdrawn = [.activation 0 "pc_0" 0 0] ∧ ((after single
      [.tick none]).commit host single completion t).state.inst.state = .running) (by decide +kernel)
  obtain ⟨hwithdrawn, hrunning⟩ := of_decide_eq_true hcheck
  have hone : ∀ (m : Uuid) (k : JobKey), (after single [.tick none]).WaitsFor m k →
      m = host.forCommand 0 0 0 := by
    rintro m k ⟨f, hf, -⟩
    have hmem : m ∈ (after single [.tick none]).state.fibers.keys := by
      rw [Std.ExtTreeMap.mem_keys, Std.ExtTreeMap.mem_iff_isSome_getElem?, hf]
      rfl
    rw [show (after single [.tick none]).state.fibers.keys = [host.forCommand 0 0 0] by
      decide +kernel] at hmem
    exact List.mem_singleton.mp hmem
  have haccounts : (after single [.tick none]).AccountsJobs host single completion := by
    refine ⟨fun opened ts hvisits => ?_, fun hs m m' hm hm' => (hone m _ hm).trans (hone m' _ hm').symm,
      fun hreports => ?_, fun hreports => ?_, fun hact => ?_, fun hact => ?_, fun hreports => ?_⟩
    · obtain ⟨f, ⟨⟨i, hs, -⟩, -⟩, -⟩ := hvisits
      simp [completion] at hs
    · obtain ⟨message, attempt, hs⟩ := hreports
      simp [completion] at hs
    · obtain ⟨message, attempt, hs⟩ := hreports
      simp [completion] at hs
    · cases hact <;> simp_all [completion]
    · cases hact <;> simp_all [completion]
    · obtain ⟨message, attempt, hs⟩ := hreports
      simp [completion] at hs
  exact ⟨t, ht, hwithdrawn, jobs_withdrawn host_injective (reachable_after single [.tick none]) ht
    haccounts (by rw [hrunning]; rfl)⟩

/-- Two tasks in parallel inside a rollback guard. -/
def rolledBack : ExecutableWorkflow :=
  workflow [.v2GuardR, .v2Fork [2, 4] 1, .execNative 0 0 0, .jump 5, .execNative 0 0 0, .v2Join 1,
    .v2GuardREnd, .end] ⟨0, 3, 8, 2, 2, 4⟩ (by decide +kernel)

/-- The first of the two tasks fails. -/
def failure : Stimulus where
  command := .effectFailed 0 (.activation 0 "pc_2" 2 0) .contractViolation "" none 0
  commandId := 0
  logicalTime := 0

/-- The rollback deletes the fibre of the other task as well, whose job is left with the workers. -/
theorem rolled_back_job_left : ∃ w t m,
    World.Reachable host rolledBack (fun _ _ => True) start w ∧
    w.respond host rolledBack failure = .ok t ∧
    (w.commit host rolledBack failure t).state.inst.state.isTerminal = false ∧
    w.WaitsFor m (.activation 0 "pc_4" 4 0) ∧
    ¬ (w.commit host rolledBack failure t).WaitsFor m (.activation 0 "pc_4" 4 0) ∧
    .activation 0 "pc_4" 4 0 ∉ t.withdrawn := by
  let w := after rolledBack [.tick none, .tick none, .tick none]
  obtain ⟨t, ht, hcheck⟩ := ok_of_check (x := w.respond host rolledBack failure) (fun t =>
    (w.commit host rolledBack failure t).state.inst.state.isTerminal = false ∧
    (∀ f ∈ (w.commit host rolledBack failure t).state.fibers.values,
      f.wait ≠ .job (.activation 0 "pc_4" 4 0)) ∧
    .activation 0 "pc_4" 4 0 ∉ t.withdrawn) (by decide +kernel)
  obtain ⟨hlive, hgone, hleft⟩ := of_decide_eq_true hcheck
  obtain ⟨f, hmem, hwait⟩ : ∃ f ∈ w.state.fibers.values,
      f.wait = .job (.activation 0 "pc_4" 4 0) := by decide +kernel
  obtain ⟨m, hm⟩ := mem_values.mp hmem
  refine ⟨w, t, m, reachable_after _ _, ht, hlive, ⟨f, hm, hwait⟩, ?_, hleft⟩
  rintro ⟨g, hg, hgwait⟩
  exact hgone g (mem_values.mpr ⟨m, hg⟩) hgwait

end Reference

end BpmnLite
