import BpmnLite.Kernel.Abstraction
import BpmnLite.Kernel.Executed
import BpmnLite.Kernel.Reference

/-!
# A completion from the dedupe map, or from the queue

A task word finds its completion in the dedupe map and goes on, or it enqueues a job, parks, and the
completion is applied when it arrives. The two ways are written apart. They lead to the same payload,
flags, placeholders, operands and address only for a word that takes nothing else from a completion.
-/

namespace BpmnLite

open Maps

/-- The placeholder holds the value the payload has for it. -/
def HoldsOutput (H : Host) (placeholderValues : Option Json) (payload placeholder : String) : Prop :=
  ∃ json object value placeholders, H.jsonOfText payload = .ok json ∧ json.asObject = some object ∧
    ((object.lookup placeholder).or (object.lookup (ProcessInstance.trimAt placeholder))).or
      (object.lookup (ProcessInstance.dashToUnderscore (ProcessInstance.trimAt placeholder))) =
        some value ∧
    placeholderValues = some (.object placeholders) ∧
    Json.insertField placeholder value placeholders = placeholders

/-- A task word that pushes no result, and binds no placeholder or one that holds the value. -/
def Instr.AddsNothing (H : Host) (placeholderValues : Option Json) (payload : String) : Instr → Prop
  | .execNative _ _ retc => retc = 0
  | .execDslTask _ _ (some placeholder) => HoldsOutput H placeholderValues payload placeholder
  | _ => True

/-- What a task word does beyond applying a cached completion. -/
def Instr.finishTask (H : Host) : Instr → TickState → Except TransitionError TickState
  | .execNative _ _ retc => fun ts => .ok { ts with
      fiber := { ts.fiber with stack := ts.fiber.stack ++ List.replicate retc (.bool true) } }
  | .execDslTask _ _ produces => bindProduced H produces
  | _ => .ok

/-- The same snapshot with the completion in its dedupe map. -/
def Snapshot.caching (snapshot : Snapshot) (completion : JobCompletion) : Snapshot :=
  { snapshot with dedupe := Function.update snapshot.dedupe completion.jobKey (some completion) }

/-- The instance and the fibres after a transition. -/
def Snapshot.after (snapshot : Snapshot) (t : Transition) : Snapshot :=
  { snapshot with
    inst := t.nextSnapshot
    fibers := applyFiberDeltas snapshot.fibers t.fibersUpsert t.fibersDelete
      t.terminalCleanup.deleteAllFibers }

/-- The snapshot holds what the tick state holds, as far as a completion reaches. -/
structure TickState.Agrees (ts : TickState) (snapshot : Snapshot) : Prop where
  domainPayload : snapshot.inst.domainPayload = ts.inst.domainPayload
  domainPayloadHash : snapshot.inst.domainPayloadHash = ts.inst.domainPayloadHash
  flags : snapshot.inst.flags = ts.inst.flags
  placeholderValues : snapshot.inst.placeholderValues = ts.inst.placeholderValues
  fiber : ∃ f, snapshot.fibers[ts.fiber.fiberId]? = some f ∧ f.stack = ts.fiber.stack ∧
    f.pc = ts.fiber.pc

/-- The fibre of a running instance executes a task word without a cached completion, and the
completion of the job it enqueues is applied next. -/
structure Queues (H : Host) (workflow : ExecutableWorkflow) (snapshot : Snapshot)
    (context : DeterministicContext) (f : Fiber) (instruction : Instr) (completion : JobCompletion)
    (t t' : Transition) : Prop where
  keyed : Keyed Fiber.fiberId snapshot.fibers
  running : snapshot.inst.state = .running
  word : workflow.instructions[f.pc]? = some instruction
  task : instruction.isTask
  job : completion.jobKey = f.jobKey workflow snapshot.inst.instanceId
  uncached : snapshot.dedupe completion.jobKey = none
  queued : tickStep H workflow snapshot context (tickStart snapshot f) = .ok (.done t)
  completed : applyJobCompletion H (snapshot.after t) completion = .ok t'

section
variable {H : Host} {workflow : ExecutableWorkflow} {snapshot : Snapshot}
  {context : DeterministicContext} {completion : JobCompletion} {f : Fiber} {instruction : Instr}
  {t t' : Transition}

variable (H workflow) in
theorem execute_task (hword : instruction.isTask) : ∃ taskType, ∀ snapshot context ts,
    execute H workflow snapshot context ts instruction =
      execTask H workflow snapshot ts taskType (instruction.finishTask H) := by
  cases instruction with
  | execNative taskType | execDslTask taskType => exact ⟨taskType, fun _ _ _ => rfl⟩
  | _ => simp [Instr.isTask] at hword

theorem finishTask_same_iff (hword : instruction.isTask) (ts : TickState) :
    (∃ ts', instruction.finishTask H ts = .ok ts' ∧
      ts'.inst.placeholderValues = ts.inst.placeholderValues ∧ ts'.fiber.stack = ts.fiber.stack) ↔
      instruction.AddsNothing H ts.inst.placeholderValues ts.inst.domainPayload := by
  cases instruction with
  | execNative taskType argc retc => simp [Instr.finishTask, Instr.AddsNothing]
  | execDslTask taskType args produces =>
    cases produces with
    | none => simp [Instr.finishTask, Instr.AddsNothing, bindProduced]
    | some placeholder =>
      constructor
      · rintro ⟨ts', h, hsame, -⟩
        obtain ⟨inst, hinst, h⟩ := bind_eq_ok.mp h
        obtain rfl := pure_eq_ok.mp h
        obtain ⟨json, object, value, placeholders, hjson, hobject, hvalue, hplaceholders, rfl⟩ :=
          bindPlaceholderFromPayload_eq_ok.mp (mapError_eq_ok.mp hinst)
        rw [← hsame] at hplaceholders
        refine ⟨json, object, value, placeholders, hjson, hobject, hvalue, ?_,
          Option.some.inj hplaceholders⟩
        rw [← hsame, Option.some.inj hplaceholders]
      · rintro ⟨json, object, value, placeholders, hjson, hobject, hvalue, hplaceholders, hsame⟩
        have hbind := bindPlaceholderFromPayload_eq_ok.mpr ⟨json, object, value, placeholders, hjson,
          hobject, hvalue, by simp [hplaceholders, Json.asObject], rfl⟩
        refine ⟨_, bind_eq_ok.mpr ⟨_, mapError_eq_ok.mpr hbind, rfl⟩, ?_, rfl⟩
        simp only [hsame, hplaceholders]
  | _ => simp [Instr.isTask] at hword

theorem finishTask_eq_ok {ts ts' : TickState} (h : instruction.finishTask H ts = .ok ts') :
    ∃ stack placeholderValues, ts' = { ts with
      fiber := { ts.fiber with stack }, inst := { ts.inst with placeholderValues } } := by
  cases instruction with
  | execDslTask taskType args produces =>
    obtain ⟨placeholderValues, rfl⟩ := bindProduced_eq_ok h
    exact ⟨_, _, rfl⟩
  | _ => exact ⟨_, _, (Except.ok.inj h).symm⟩

section
variable (h : Queues H workflow snapshot context f instruction completion t t')
include h

theorem Queues.step :
    ∃ taskType name, workflow.metadata.taskManifest[taskType]? = some name ∧
      ∀ snapshot', tickStep H workflow snapshot' context (tickStart snapshot f) =
        execTask H workflow snapshot' (tickStart snapshot f) taskType (instruction.finishTask H) := by
  have hword : workflow.instructions[(tickStart snapshot f).fiber.pc]? = some instruction := h.word
  obtain ⟨taskType, htask⟩ := execute_task H workflow h.task
  have hstep : ∀ snapshot', tickStep H workflow snapshot' context (tickStart snapshot f) =
      execTask H workflow snapshot' (tickStart snapshot f) taskType (instruction.finishTask H) := by
    intro snapshot'
    simp only [tickStep, hword, htask]
  obtain ⟨name, hname, -⟩ := execTask_eq_ok.mp ((hstep snapshot).symm.trans h.queued)
  exact ⟨taskType, name, hname, hstep⟩

theorem Queues.parks :
    (snapshot.after t).inst = snapshot.inst ∧ Keyed Fiber.fiberId (snapshot.after t).fibers ∧
      ∀ m, (snapshot.after t).fibers[m]? = if f.fiberId = m then
        some { f with wait := .job completion.jobKey } else snapshot.fibers[m]? := by
  obtain ⟨taskType, -, -, hstep⟩ := h.step
  obtain ⟨name, -, ⟨_, _, _, -, -, -, hnext⟩ | ⟨-, hdone⟩⟩ :=
    execTask_eq_ok.mp ((hstep snapshot).symm.trans h.queued)
  · simp at hnext
  · obtain rfl := TickOutcome.done.inj hdone
    refine ⟨rfl, keyed_applyFiberDeltas h.keyed _ _ _, fun m => ?_⟩
    rw [h.job]
    refine (getElem?_applyFiberDeltas snapshot.fibers
      [{ f with wait := .job (f.jobKey workflow snapshot.inst.instanceId) }] [] m).trans ?_
    by_cases hm : f.fiberId = m <;> simp [hm]

theorem Queues.resumes :
    ∃ inst f', applyCompletion H snapshot.inst completion = .ok inst ∧
      ((snapshot.after t).after t').inst = inst ∧
      ((snapshot.after t).after t').fibers[f.fiberId]? = some f' ∧ f'.stack = f.stack ∧
      (f'.pc = f.pc + 1 ↔ ∀ g : Fiber, snapshot.fibers[g.fiberId]? = some g →
        g.wait = .job completion.jobKey → f.fiberId ≤ g.fiberId) := by
  obtain ⟨hinst, hkeyed, hfibers⟩ := h.parks
  have hcompleted := h.completed
  simp only [applyJobCompletion, hinst, h.running] at hcompleted
  split at hcompleted
  · simp at hcompleted
  split at hcompleted
  · rename_i hended
    simp [ProcessState.isTerminal] at hended
  split at hcompleted
  · simp at hcompleted
  rename_i g hg
  obtain ⟨inst, happlied, hcompleted⟩ := bind_eq_ok.mp hcompleted
  obtain rfl := pure_eq_ok.mp hcompleted
  obtain ⟨hlive, hwaits, hfirst⟩ := find?_values hkeyed hg
  have hafter := getElem?_applyFiberDeltas (snapshot.after t).fibers
    [{ g with pc := g.pc + 1, wait := .running }] [] f.fiberId
  rw [hfibers, if_pos rfl] at hafter
  by_cases hm : g.fiberId = f.fiberId
  · rw [hfibers, if_pos hm.symm] at hlive
    obtain rfl := Option.some.inj hlive
    refine ⟨inst, { f with pc := f.pc + 1, wait := .running }, happlied, rfl,
      hafter.trans (by simp), rfl, iff_of_true rfl ?_⟩
    intro u hu hwait
    by_cases hum : f.fiberId = u.fiberId
    · exact hum.le
    · refine Nat.isLE_compare.mp (hfirst u ?_ (by simpa using hwait))
      rwa [hfibers, if_neg hum]
  · refine ⟨inst, { f with wait := .job completion.jobKey }, happlied, rfl,
      hafter.trans (by simp [hm]), rfl, iff_of_false (by simp) ?_⟩
    intro hleast
    have hle := hfirst { f with wait := .job completion.jobKey } (by simp [hfibers]) (by simp)
    rw [hfibers, if_neg (Ne.symm hm)] at hlive
    exact hm (le_antisymm (Nat.isLE_compare.mp hle) (hleast g hlive (by simpa using hwaits)))

theorem Queues.caches_iff
    {inst : ProcessInstance} (hinst : applyCompletion H snapshot.inst completion = .ok inst)
    {ts : TickState} :
    tickStep H workflow (snapshot.caching completion) context (tickStart snapshot f) =
        .ok (.next ts) ↔
      ∃ mid, instruction.finishTask H { fiber := f, inst } = .ok mid ∧ ts = mid.advance := by
  obtain ⟨taskType, name, hname, hstep⟩ := h.step
  have hcached : (snapshot.caching completion).dedupe ((tickStart snapshot f).jobKey workflow) =
      some completion := by
    change Function.update snapshot.dedupe completion.jobKey (some completion)
      (f.jobKey workflow snapshot.inst.instanceId) = _
    rw [← h.job, Function.update_self]
  rw [hstep, execTask_eq_ok]
  constructor
  · rintro ⟨_, -, ⟨completion', inst', mid, hcached', hinst', hmid, hts⟩ | ⟨-, hdone⟩⟩
    · obtain rfl := Option.mem_unique hcached hcached'
      obtain rfl := Except.ok.inj (hinst.symm.trans hinst')
      exact ⟨mid, hmid, TickOutcome.next.inj hts⟩
    · simp at hdone
  · rintro ⟨mid, hmid, rfl⟩
    exact ⟨name, hname, .inl ⟨completion, inst, mid, hcached, hinst, hmid, rfl⟩⟩

end

/-- Both ways end alike when the word adds nothing to the completion and no fibre with a smaller id
waits for the same job, and only then. -/
theorem deduped_agrees_iff (h : Queues H workflow snapshot context f instruction completion t t') :
    (∃ ts, tickStep H workflow (snapshot.caching completion) context (tickStart snapshot f) =
        .ok (.next ts) ∧ ts.Agrees ((snapshot.after t).after t')) ↔
    instruction.AddsNothing H snapshot.inst.placeholderValues completion.domainPayload ∧
      ∀ g : Fiber, snapshot.fibers[g.fiberId]? = some g → g.wait = .job completion.jobKey →
        f.fiberId ≤ g.fiberId := by
  obtain ⟨inst, f', hinst, hafter, hf', hstack, hfirst⟩ := h.resumes
  have hgiven : inst = { snapshot.inst with
      domainPayload := completion.domainPayload
      domainPayloadHash := H.contentHash completion.domainPayload
      flags := inst.flags } := by
    obtain ⟨flags, -, happlied⟩ := bind_eq_ok.mp hinst
    rw [← pure_eq_ok.mp happlied]
  have hsame := finishTask_same_iff (H := H) h.task { fiber := f, inst }
  rw [hgiven] at hsame
  rw [← hfirst, ← hsame, ← hgiven]
  constructor
  · rintro ⟨ts, hts, hagrees⟩
    obtain ⟨mid, hmid, rfl⟩ := (h.caches_iff hinst).mp hts
    obtain ⟨stack, placeholderValues, rfl⟩ := finishTask_eq_ok hmid
    obtain ⟨g, hg, hgstack, hgpc⟩ := hagrees.fiber
    obtain rfl : f' = g := Option.mem_unique hf' hg
    have hplaceholders := hagrees.placeholderValues
    rw [hafter] at hplaceholders
    exact ⟨⟨_, hmid, hplaceholders.symm, hgstack.symm.trans hstack⟩, hgpc⟩
  · rintro ⟨⟨mid, hmid, hplaceholders, hmidstack⟩, hpc⟩
    refine ⟨_, (h.caches_iff hinst).mpr ⟨mid, hmid, rfl⟩, ?_⟩
    obtain ⟨stack, placeholderValues, rfl⟩ := finishTask_eq_ok hmid
    constructor
    · rw [hafter]
      rfl
    · rw [hafter]
      rfl
    · rw [hafter]
      rfl
    · rw [hafter]
      exact hplaceholders.symm
    · exact ⟨f', hf', hstack.trans hmidstack.symm, hpc⟩

end

namespace Reference

def root : Fiber := Fiber.new (host.forCommand 0 0 0) 0

def firstCompletion (workflow : ExecutableWorkflow) : JobCompletion where
  jobKey := root.jobKey workflow inst.instanceId
  domainPayload := "done"
  expectedInstancePayloadHash := 0
  orchFlags := ∅
  workerId := none
  claimToken := none

def first : Snapshot := start.snapshot ticked

/-- The first word enqueues its job, and the completion is applied. -/
def queued (workflow : ExecutableWorkflow) : Except TransitionError Transition := do
  match ← tickStep host workflow first (start.context ticked) (tickStart first root) with
  | .done t => applyJobCompletion host (first.after t) (firstCompletion workflow)
  | .next _ => .error (.invalidCommand "")

theorem queues_first (workflow : ExecutableWorkflow) (instruction : Instr)
    (hword : workflow.instructions[0]? = some instruction) (htask : instruction.isTask)
    (hqueued : (queued workflow).toOption.any fun _ => true) :
    ∃ t t', Queues host workflow first (start.context ticked) root instruction
      (firstCompletion workflow) t t' := by
  obtain ⟨t', ht', -⟩ := ok_of_check _ hqueued
  obtain ⟨outcome, hstep, ht'⟩ := bind_eq_ok.mp ht'
  cases outcome with
  | next ts => simp at ht'
  | done t =>
    exact ⟨t, t', {
      keyed := keyed_foldl_insert [root] (keyed_empty _)
      running := rfl
      word := hword
      task := htask
      job := rfl
      uncached := rfl
      queued := hstep
      completed := ht' }⟩

def pushing : ExecutableWorkflow :=
  workflow [.execNative 0 0 1, .pop, .end] ⟨1, 1, 3, 0, 0, 0⟩ (by decide +kernel)

theorem deduped_agrees_single : ∃ t t' ts,
    Queues host single first (start.context ticked) root (.execNative 0 0 0)
      (firstCompletion single) t t' ∧
    tickStep host single (first.caching (firstCompletion single)) (start.context ticked)
      (tickStart first root) = .ok (.next ts) ∧ ts.Agrees ((first.after t).after t') := by
  obtain ⟨t, t', h⟩ := queues_first single (.execNative 0 0 0) rfl rfl (by decide +kernel)
  have hleast : ∀ g : Fiber, first.fibers[g.fiberId]? = some g →
      g.wait = .job (firstCompletion single).jobKey → root.fiberId ≤ g.fiberId := by
    intro g hg _
    have hroot := (getElem?_foldl_insert Fiber.fiberId [root] ∅ g.fiberId).symm.trans hg
    by_cases hid : root.fiberId = g.fiberId
    · exact hid.le
    · simp [hid] at hroot
  obtain ⟨ts, hts, hagrees⟩ := (deduped_agrees_iff h).mpr ⟨rfl, hleast⟩
  exact ⟨t, t', ts, h, hts, hagrees⟩

/-- A result that the word pushes is lost on the way through the queue. -/
theorem deduped_pushes : ∃ t t',
    Queues host pushing first (start.context ticked) root (.execNative 0 0 1)
      (firstCompletion pushing) t t' ∧
    ¬ ∃ ts, tickStep host pushing (first.caching (firstCompletion pushing)) (start.context ticked)
      (tickStart first root) = .ok (.next ts) ∧ ts.Agrees ((first.after t).after t') := by
  obtain ⟨t, t', h⟩ := queues_first pushing (.execNative 0 0 1) rfl rfl (by decide +kernel)
  refine ⟨t, t', h, ?_⟩
  rintro ⟨ts, hts, hagrees⟩
  obtain ⟨inst, f, hinst, -, hf, hstack, -⟩ := h.resumes
  obtain ⟨mid, hmid, rfl⟩ := (h.caches_iff hinst).mp hts
  obtain rfl := Except.ok.inj hmid
  obtain ⟨g, hg, hgstack, -⟩ := hagrees.fiber
  obtain rfl : f = g := Option.mem_unique hf hg
  simpa [root, Fiber.new, TickState.advance, TickState.goto] using hgstack.symm.trans hstack

end Reference

end BpmnLite
