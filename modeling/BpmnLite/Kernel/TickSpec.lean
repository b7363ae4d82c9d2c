import BpmnLite.Kernel.CancelWalk

/-!
# The parts of an instruction

What the helpers of the words do: popping operands and scopes, completing a task, consuming a
message, and how a fibre moves on. The forms of the words are assembled from these.
-/

namespace BpmnLite

open Maps

variable {ts ts' : TickState} {word reason : String} {value : Value} {handle : Handle}
  {inst inst' : ProcessInstance} {f : Fiber} {instruction : Instr} {pc : Addr}

def raceTimers (effects : List DurableEffect) : List (Uuid × RecordId × Addr) :=
  effects.filterMap (fun effect =>
    match effect with
    | .scheduleTimer _ fiberId _ (.v2Race recordId target) _ => some (fiberId, recordId, target)
    | _ => none)

def joinLog (events : List RuntimeEvent) : List (RecordId × Uuid × Bool) :=
  events.filterMap (fun event =>
    match event with
    | .v2JoinArrived recordId fiberId => some (recordId, fiberId, false)
    | .v2JoinReleased recordId fiberId _ _ => some (recordId, fiberId, true)
    | _ => none)

theorem raceTimers_append (es es' : List DurableEffect) :
    raceTimers (es ++ es') = raceTimers es ++ raceTimers es' := List.filterMap_append

theorem joinLog_append (es es' : List RuntimeEvent) :
    joinLog (es ++ es') = joinLog es ++ joinLog es' := List.filterMap_append

/-- The key of the job a task word at the fibre's address stands for. -/
def Fiber.jobKey (workflow : ExecutableWorkflow) (instanceId : Uuid) (f : Fiber) : JobKey :=
  .activation instanceId (nodeName workflow f.pc) f.pc f.loopEpoch

def TickState.jobKey (workflow : ExecutableWorkflow) (ts : TickState) : JobKey :=
  ts.fiber.jobKey workflow ts.inst.instanceId

theorem popLast_eq_some {α : Type} {stack rest : List α} {top : α} :
    popLast stack = some (rest, top) ↔ stack = rest ++ [top] := by
  rcases List.eq_nil_or_concat stack with rfl | ⟨stack, a, rfl⟩ <;> simp [popLast]

theorem pop_eq_ok :
    ts.pop word = .ok (ts', value) ↔ ∃ stack, ts.fiber.stack = stack ++ [value] ∧
      ts' = { ts with fiber := { ts.fiber with stack } } := by
  unfold TickState.pop
  cases h : popLast ts.fiber.stack with
  | none =>
    simp only [reduceCtorEq, false_iff, not_exists, not_and]
    intro stack hstack
    simp [popLast_eq_some.mpr hstack] at h
  | some popped =>
    obtain ⟨stack, top⟩ := popped
    have hstack := popLast_eq_some.mp h
    simp only [Except.ok.injEq, Prod.mk.injEq, hstack]
    constructor
    · rintro ⟨rfl, rfl⟩
      exact ⟨stack, rfl, rfl⟩
    · rintro ⟨rest, hrest, rfl⟩
      obtain ⟨rfl, htop⟩ := List.append_inj' hrest rfl
      exact ⟨rfl, by simpa using htop⟩

theorem popScope_eq_ok (h : ts.popScope word = .ok (ts', handle)) :
    ∃ below, ts.fiber.controlStack = below ++ [handle] ∧
      ts' = { ts with
        fiber := { ts.fiber with controlStack := below }
        changes := ts.changes.delta (.pop ts.fiber.fiberId handle) } := by
  unfold TickState.popScope at h
  cases hp : popLast ts.fiber.controlStack with
  | none => simp [hp] at h
  | some popped =>
    obtain ⟨below, top⟩ := popped
    simp only [hp, Except.ok.injEq, Prod.mk.injEq] at h
    obtain ⟨rfl, rfl⟩ := h
    exact ⟨below, popLast_eq_some.mp hp, rfl⟩

theorem popDuration_eq_ok {duration : ℤ} (h : ts.popDuration word reason = .ok (ts', duration)) :
    ∃ stack, ts.fiber.stack = stack ++ [.i64 duration] ∧
      ts' = { ts with fiber := { ts.fiber with stack } } := by
  unfold TickState.popDuration at h
  obtain ⟨⟨mid, value⟩, hp, h⟩ := bind_eq_ok.mp h
  cases value with
  | i64 n =>
    simp only [pure_eq_ok, Prod.mk.injEq] at h
    obtain ⟨rfl, rfl⟩ := h
    exact pop_eq_ok.mp hp
  | bool b | str n | ref n | array items => simp at h

theorem topScope_eq_ok :
    ts.topScope reason = .ok handle ↔ ts.fiber.controlStack.getLast? = some handle := by
  unfold TickState.topScope
  cases ts.fiber.controlStack.getLast? <;> simp

theorem applyCompletion_eq_ok {H : Host} {completion : JobCompletion}
    (h : applyCompletion H inst completion = .ok inst') :
    inst'.instanceId = inst.instanceId ∧ inst'.state = inst.state := by
  obtain ⟨flags, -, h⟩ := bind_eq_ok.mp h
  rw [pure_eq_ok] at h
  exact h ▸ ⟨rfl, rfl⟩

section
variable {H : Host} {workflow : ExecutableWorkflow} {snapshot : Snapshot}
  {context : DeterministicContext}

theorem execTask_eq_ok {taskType : ℕ} {complete : TickState → Except TransitionError TickState}
    {outcome : TickOutcome} : execTask H workflow snapshot ts taskType complete = .ok outcome ↔
      ∃ name, workflow.metadata.taskManifest[taskType]? = some name ∧
        ((∃ completion inst mid, snapshot.dedupe (ts.jobKey workflow) = some completion ∧
            applyCompletion H ts.inst completion = .ok inst ∧ complete { ts with inst } = .ok mid ∧
            outcome = .next mid.advance) ∨
          snapshot.dedupe (ts.jobKey workflow) = none ∧
            outcome = .done (({ ts.changes with
              jobsEnqueue := ts.changes.jobsEnqueue ++
                [jobActivation ts (ts.jobKey workflow) name (nodeName workflow ts.fiber.pc)]
              events := ts.changes.events ++
                [RuntimeEvent.jobActivated (ts.jobKey workflow) name (nodeName workflow ts.fiber.pc) ts.fiber.pc]
                }.upsert { ts.fiber with wait := .job (ts.jobKey workflow) }).finish ts.inst)) := by
  unfold execTask
  cases hm : workflow.metadata.taskManifest[taskType]? with
  | none => simp
  | some name =>
    simp only [Option.some.injEq, exists_eq_left']
    constructor
    · intro h
      split at h
      · rename_i completion hd
        obtain ⟨inst, hinst, h⟩ := bind_eq_ok.mp h
        obtain ⟨mid, hmid, h⟩ := bind_eq_ok.mp h
        exact .inl ⟨completion, inst, mid, hd, hinst, hmid, (pure_eq_ok.mp h).symm⟩
      · rename_i hd
        exact .inr ⟨hd, (Except.ok.inj h).symm⟩
    · unfold TickState.jobKey Fiber.jobKey
      rintro (⟨completion, inst, mid, hd, hinst, hmid, rfl⟩ | ⟨hd, rfl⟩)
      · rw [hd]
        exact bind_eq_ok.mpr ⟨inst, hinst, bind_eq_ok.mpr ⟨mid, hmid, rfl⟩⟩
      · rw [hd]
        rfl

theorem bindPlaceholderFromPayload_eq_ok {placeholder : String} :
    inst.bindPlaceholderFromPayload H placeholder = .ok inst' ↔
      ∃ json object value placeholders, H.jsonOfText inst.domainPayload = .ok json ∧
        json.asObject = some object ∧
        ((object.lookup placeholder).or (object.lookup (ProcessInstance.trimAt placeholder))).or
          (object.lookup (ProcessInstance.dashToUnderscore (ProcessInstance.trimAt placeholder))) =
            some value ∧
        (inst.placeholderValues.getD (.object [])).asObject = some placeholders ∧
        inst' = { inst with
          placeholderValues := some (.object (Json.insertField placeholder value placeholders)) } := by
  unfold ProcessInstance.bindPlaceholderFromPayload
  constructor
  · intro h
    obtain ⟨json, hjson, h⟩ := bind_eq_ok.mp h
    split at h
    · rename_i object hobject
      simp only at h
      split at h
      · rename_i value hvalue
        split at h
        · rename_i placeholders hplaceholders
          exact ⟨json, object, value, placeholders, mapError_eq_ok.mp hjson, hobject, hvalue,
            hplaceholders, (pure_eq_ok.mp h).symm⟩
        · simp at h
      · simp at h
    · simp at h
  · rintro ⟨json, object, value, placeholders, hjson, hobject, hvalue, hplaceholders, rfl⟩
    refine bind_eq_ok.mpr ⟨json, mapError_eq_ok.mpr hjson, ?_⟩
    simp only [hobject, hvalue, hplaceholders]
    rfl

theorem bindProduced_eq_ok {produces : Option String} (h : bindProduced H produces ts = .ok ts') :
    ∃ placeholderValues, ts' = { ts with inst := { ts.inst with placeholderValues } } := by
  cases produces with
  | none => exact ⟨_, (Except.ok.inj h).symm⟩
  | some placeholder =>
    obtain ⟨inst, hinst, h⟩ := bind_eq_ok.mp h
    obtain rfl := pure_eq_ok.mp h
    obtain ⟨_, _, _, _, -, -, -, -, rfl⟩ :=
      bindPlaceholderFromPayload_eq_ok.mp (mapError_eq_ok.mp hinst)
    exact ⟨_, rfl⟩

theorem consumeMessage_eq_ok {message : BufferedMessage}
    (h : consumeMessage inst message = .ok inst') :
    inst'.instanceId = inst.instanceId ∧ inst'.state = inst.state := by
  unfold consumeMessage at h
  split at h
  · simp only [Except.ok.injEq] at h
    exact h ▸ ⟨rfl, rfl⟩
  · split at h
    · simp only [Except.ok.injEq] at h
      exact h ▸ ⟨rfl, rfl⟩
    · simp at h

end

theorem moves_to {stack : List Value} (hpc : pc ∈ instruction.flow f.pc)
    (henough : (stackEffect instruction).1 ≤ f.stack.length)
    (hheight : stack.length = f.stack.length - (stackEffect instruction).1 +
      (stackEffect instruction).2)
    (hrun : f.wait = .running) : f.Moves instruction { f with stack, pc } :=
  ⟨rfl, hrun, rfl, hpc, henough, hheight⟩

theorem moves_goto (hpc : pc ∈ instruction.flow f.pc) (heffect : stackEffect instruction = (0, 0))
    (hrun : f.wait = .running) : f.Moves instruction { f with pc } :=
  moves_to hpc (by simp [heffect]) (by simp [heffect]) hrun

theorem moves_next (hflow : instruction.flow f.pc = [f.pc + 1])
    (heffect : stackEffect instruction = (0, 0)) (hrun : f.wait = .running) :
    f.Moves instruction { f with pc := f.pc + 1 } :=
  moves_goto (by simp [hflow]) heffect hrun

theorem moves_pop {stack : List Value} (hpc : pc ∈ instruction.flow f.pc)
    (heffect : stackEffect instruction = (1, 0)) (hstack : f.stack = stack ++ [value])
    (hrun : f.wait = .running) : f.Moves instruction { f with stack, pc } :=
  moves_to hpc (by simp [heffect, hstack]) (by simp [heffect, hstack]) hrun

theorem moves_push (hflow : instruction.flow f.pc = [f.pc + 1])
    (heffect : stackEffect instruction = (0, 1)) (hrun : f.wait = .running) :
    f.Moves instruction { f with stack := f.stack ++ [value], pc := f.pc + 1 } :=
  moves_to (by simp [hflow]) (by simp [heffect]) (by simp [heffect]) hrun

end BpmnLite
