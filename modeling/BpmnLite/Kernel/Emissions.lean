import BpmnLite.Kernel.Ledger

/-!
# What a tick schedules and publishes

The words that wait for a timer or for a foreign effect schedule it under an id derived from the
instance, the fibre and the address; `PublishMessage` writes a message under an id derived from the
same three. `execute_emits` says which word adds what; a tick adds it for the instructions it
executes, in order, and no other command adds anything.
-/

namespace BpmnLite

open Maps

/-- The id of an effect, the fibre it belongs to and, for an invocation, its address. -/
def DurableEffect.site : DurableEffect → EffectId × Uuid × Option Addr
  | .scheduleTimer timerId fiberId .. => (timerId, fiberId, none)
  | .invoke effectId fiberId pc .. => (effectId, fiberId, some pc)

def insertedIds (mutations : List BufferedMessageMutation) : List String :=
  mutations.filterMap (fun mutation =>
    match mutation with
    | .insert message => some message.msgId
    | .deliver _ | .release _ | .consume _ => none)

def Instr.sites (own : Uuid → Addr → EffectId) (f : Fiber) (instruction : Instr) :
    List (EffectId × Uuid × Option Addr) :=
  if instruction.schedulesTimer then [(own f.fiberId f.pc, f.fiberId, none)]
  else if instruction.invokes then [(own f.fiberId f.pc, f.fiberId, some f.pc)]
  else []

def Instr.published (instanceId : Uuid) (f : Fiber) (instruction : Instr) : List String :=
  if instruction.publishes then [publishedId instanceId f.fiberId f.pc] else []

namespace TickOutcome

def effects : TickOutcome → List DurableEffect
  | .next ts => ts.changes.effects
  | .done t => t.effects

def messages : TickOutcome → List BufferedMessageMutation
  | .next ts => ts.changes.bufferedMessages
  | .done t => t.bufferedMessages

def instanceId : TickOutcome → Uuid
  | .next ts => ts.inst.instanceId
  | .done t => t.nextSnapshot.instanceId

end TickOutcome

structure Emits (H : Host) (ts : TickState) (instruction : Instr) (outcome : TickOutcome) :
    Prop where
  sites : outcome.effects.map DurableEffect.site = ts.changes.effects.map DurableEffect.site ++
    instruction.sites (H.forInstruction ts.inst.instanceId) ts.fiber
  messages : insertedIds outcome.messages = insertedIds ts.changes.bufferedMessages ++
    instruction.published ts.inst.instanceId ts.fiber
  instanceId : outcome.instanceId = ts.inst.instanceId

section
variable {H : Host} {workflow : ExecutableWorkflow} {snapshot : Snapshot}
  {context : DeterministicContext} {ts ts' : TickState} {instruction : Instr}
  {outcome : TickOutcome}

theorem emits_nothing (hsilent : instruction.silent) (heffects : outcome.effects = ts.changes.effects)
    (hmessages : insertedIds outcome.messages = insertedIds ts.changes.bufferedMessages)
    (hid : outcome.instanceId = ts.inst.instanceId) : Emits H ts instruction outcome := by
  simp only [Instr.silent, Bool.and_eq_true, Bool.not_eq_true'] at hsilent
  obtain ⟨⟨htimer, hinvokes⟩, hpublishes⟩ := hsilent
  refine ⟨?_, ?_, hid⟩
  · simp [Instr.sites, htimer, hinvokes, heffects]
  · simp [Instr.published, hpublishes, hmessages]

theorem sites_of_schedulesTimer (h : instruction.schedulesTimer)
    (own : Uuid → Addr → EffectId) (f : Fiber) :
    instruction.sites own f = [(own f.fiberId f.pc, f.fiberId, none)] := by
  simp [Instr.sites, h]

theorem sites_of_invokes (h : instruction.invokes) (own : Uuid → Addr → EffectId) (f : Fiber) :
    instruction.sites own f = [(own f.fiberId f.pc, f.fiberId, some f.pc)] := by
  cases instruction with
  | execFfi | v2AwaitEffect | v2ArmEffect => rfl
  | _ => cases h

theorem emits_site {site : EffectId × Uuid × Option Addr}
    (hword : instruction.schedulesTimer ∨ instruction.invokes)
    (hsite : instruction.sites (H.forInstruction ts.inst.instanceId) ts.fiber = [site])
    (heffects : outcome.effects.map DurableEffect.site =
      ts.changes.effects.map DurableEffect.site ++ [site])
    (hmessages : outcome.messages = ts.changes.bufferedMessages)
    (hid : outcome.instanceId = ts.inst.instanceId) : Emits H ts instruction outcome := by
  have hpublishes : instruction.publishes = false := by
    cases instruction with
    | publishMessage => simp [Instr.schedulesTimer, Instr.invokes] at hword
    | _ => rfl
  refine ⟨heffects.trans (by rw [hsite]), ?_, hid⟩
  simp [Instr.published, hpublishes, hmessages]

theorem execute_emits (h : execute H workflow snapshot context ts instruction = .ok outcome) :
    Emits H ts instruction outcome := by
  cases execute_eq_ok h with
  | moved hsilent | opened hsilent | enqueued hsilent | failed hsilent | ended hsilent
  | listened hsilent | terminated hsilent | closed hsilent | raced hsilent | subscribed hsilent
  | released hsilent | arrived hsilent | routed hsilent =>
    exact emits_nothing hsilent rfl rfl rfl
  | forked hsilent hforks =>
    obtain rfl := TickOutcome.done.inj hforks
    exact emits_nothing hsilent rfl rfl rfl
  | cached hsilent hcompleted =>
    exact emits_nothing hsilent rfl rfl (applyCompletion_eq_ok hcompleted).1
  | awaited hinvokes | armed hinvokes =>
    exact emits_site (Or.inr hinvokes) (sites_of_invokes hinvokes _ _) List.map_append rfl rfl
  | timed hschedules | waited hschedules =>
    exact emits_site (Or.inl hschedules) (sites_of_schedulesTimer hschedules _ _) List.map_append
      rfl rfl
  | published hpublishes hmessage =>
    cases instruction with
    | publishMessage =>
      refine ⟨(List.append_nil _).symm, ?_, rfl⟩
      simp [TickOutcome.messages, insertedIds, Instr.published, Instr.publishes, hmessage]
    | _ => cases hpublishes
  | cycled hsilent hlast =>
    have hsites : instruction.sites (H.forInstruction ts.inst.instanceId) ts.fiber = [] := by
      simp only [Instr.silent, Bool.and_eq_true, Bool.not_eq_true'] at hsilent
      simp [Instr.sites, hsilent]
    have hpublished : instruction.published ts.inst.instanceId ts.fiber = [] := by
      simp only [Instr.silent, Bool.and_eq_true, Bool.not_eq_true'] at hsilent
      simp [Instr.published, hsilent]
    refine ⟨?_, by rw [hpublished, List.append_nil]; rfl, rfl⟩
    -- The last timer is replaced by one with the same id.
    have heffects := List.dropLast_append_getLast? _ hlast
    conv_rhs => rw [← heffects]
    simp [TickOutcome.effects, DurableEffect.site, hsites]
  | consumed hsilent _ _ _ hconsumes =>
    exact emits_nothing hsilent rfl (by simp [TickOutcome.messages, insertedIds])
      (consumeMessage_eq_ok hconsumes).1
  | cancelled hsilent hrolls =>
    obtain ⟨record, -, -, rfl⟩ := v2RollbackGuardScope_eq_ok hrolls
    exact emits_nothing hsilent rfl rfl rfl

def Fiber.sites (workflow : ExecutableWorkflow) (own : Uuid → Addr → EffectId) (f : Fiber) :
    List (EffectId × Uuid × Option Addr) :=
  match workflow.instructions[f.pc]? with
  | some instruction => instruction.sites own f
  | none => []

def Fiber.published (workflow : ExecutableWorkflow) (instanceId : Uuid) (f : Fiber) :
    List String :=
  match workflow.instructions[f.pc]? with
  | some instruction => instruction.published instanceId f
  | none => []

theorem tickStep_emits (h : tickStep H workflow snapshot context ts = .ok outcome) :
    outcome.effects.map DurableEffect.site = ts.changes.effects.map DurableEffect.site ++
      ts.fiber.sites workflow (H.forInstruction ts.inst.instanceId) ∧
    insertedIds outcome.messages = insertedIds ts.changes.bufferedMessages ++
      ts.fiber.published workflow ts.inst.instanceId ∧
    outcome.instanceId = ts.inst.instanceId := by
  obtain ⟨instruction, hfetch, h⟩ := tickStep_eq_ok h
  obtain ⟨hsites, hmessages, hid⟩ := execute_emits h
  simp only [Fiber.sites, Fiber.published, hfetch]
  exact ⟨hsites, hmessages, hid⟩

variable (H workflow snapshot context) in
def tickExecutions : ℕ → TickState → List Fiber
  | 0, _ => []
  | steps + 1, ts =>
    ts.fiber ::
      match tickStep H workflow snapshot context ts with
      | .ok (.next ts) => tickExecutions steps ts
      | _ => []

theorem runTick_emits {steps : ℕ} {t : Transition}
    (h : runTick H workflow snapshot context steps ts = .ok t) :
    t.effects.map DurableEffect.site = ts.changes.effects.map DurableEffect.site ++
      (tickExecutions H workflow snapshot context steps ts).flatMap
        (Fiber.sites workflow (H.forInstruction ts.inst.instanceId)) ∧
    insertedIds t.bufferedMessages = insertedIds ts.changes.bufferedMessages ++
      (tickExecutions H workflow snapshot context steps ts).flatMap
        (Fiber.published workflow ts.inst.instanceId) := by
  induction steps generalizing ts with
  | zero => simp [runTick] at h
  | succ steps ih =>
    obtain ⟨outcome, hstep, h⟩ := bind_eq_ok.mp h
    obtain ⟨hsites, hmessages, hid⟩ := tickStep_emits hstep
    cases outcome with
    | next ts' =>
      obtain ⟨hrest, hrest'⟩ := ih h
      have hid' : ts'.inst.instanceId = ts.inst.instanceId := hid
      simp only [TickOutcome.effects, TickOutcome.messages] at hsites hmessages
      rw [hid', hsites] at hrest
      rw [hid', hmessages] at hrest'
      simp only [tickExecutions, hstep, List.flatMap_cons, hrest, hrest', List.append_assoc,
        and_self]
    | done t' =>
      rw [pure_eq_ok] at h
      subst h
      simp only [tickExecutions, hstep, List.flatMap_cons, List.flatMap_nil, List.append_nil]
      exact ⟨hsites, hmessages⟩

end

def Command.messageIds : Command → List String
  | .messageDelivered messageId .. => [messageId]
  | _ => []

/-- The command schedules nothing, writes no message but the one it brings in, and records no
completion but of a job whose fibre goes on. -/
structure Passes (snapshot : Snapshot) (command : Command) (t : Transition) : Prop where
  effects : t.effects = []
  messages : insertedIds t.bufferedMessages ⊆ command.messageIds
  recorded : ∀ d ∈ t.dedupe, ∃ f ∈ snapshot.fibers.values, f.wait = .job d.key ∧
    t.fibersUpsert = [{ f with pc := f.pc + 1, wait := .running }]

section
variable {H : Host} {workflow : ExecutableWorkflow} {snapshot : Snapshot}
  {context : DeterministicContext} {command : Command} {t : Transition}

theorem passes_of_silent (heffects : t.effects = []) (hmessages : t.bufferedMessages = [])
    (hdedupe : t.dedupe = []) : Passes snapshot command t :=
  ⟨heffects, by simp [hmessages, insertedIds], by simp [hdedupe]⟩

theorem Reaction.passes (h : Reaction H workflow snapshot context command t) :
    Passes snapshot command t := by
  cases h with
  | stored hs carried kept =>
    refine ⟨rfl, ?_, by simp⟩
    rcases kept with rfl | rfl <;> simp [insertedIds, hs, Command.messageIds, carried.1]
  | @completed _ _ f _ _ hs hf =>
    refine ⟨rfl, by simp [insertedIds], fun d hd => ?_⟩
    obtain rfl := List.mem_singleton.mp hd
    exact ⟨f, List.mem_of_find?_eq_some hf, by simpa using List.find?_some hf, rfl⟩
  | @received race =>
    cases race <;> exact ⟨rfl, by simp [insertedIds, winRace, Changes.mutate, Changes.event,
      Changes.upsert, Changes.finish], by simp [winRace, Changes.mutate, Changes.event,
      Changes.upsert, Changes.finish]⟩
  | @triggered interrupting => cases interrupting <;> exact passes_of_silent rfl rfl rfl
  | rolledBack hroll _ lands =>
    obtain ⟨record, -, -, rfl⟩ := v2RollbackGuardScope_eq_ok hroll
    cases lands <;> exact passes_of_silent rfl rfl rfl
  | _ => exact passes_of_silent rfl rfl rfl

end

/-- The fibre before each instruction the command executes: only a tick executes any. -/
def World.executes (H : Host) (workflow : ExecutableWorkflow) (w : World) (s : Stimulus) :
    List Fiber :=
  match s.command with
  | .tick fiberId =>
    match selectFiber (w.snapshot s) fiberId with
    | .ok fiber => tickExecutions H workflow (w.snapshot s) (w.context s) workflow.limits.maxSteps
        (tickStart (w.snapshot s) fiber)
    | .error _ => []
  | _ => []

theorem respond_emits {H : Host} {workflow : ExecutableWorkflow} {w : World} {s : Stimulus}
    {t : Transition} (h : w.respond H workflow s = .ok t) :
    t.effects.map DurableEffect.site =
      (w.executes H workflow s).flatMap (Fiber.sites workflow (w.own H)) ∧
    insertedIds t.bufferedMessages ⊆ s.command.messageIds ++
      (w.executes H workflow s).flatMap (Fiber.published workflow w.state.inst.instanceId) := by
  obtain ⟨t₀, -, hhandle, -, -, rfl⟩ := respond_eq_ok h
  rcases tick_or_reacts hhandle with ⟨i, hs⟩ | ⟨hother, hreacts⟩
  · rw [hs] at hhandle
    obtain ⟨-, f, hselect, hrun⟩ := applyTick_runs hhandle
    obtain ⟨hsites, hmessages⟩ := runTick_emits hrun
    simp only [World.executes, hs, hselect]
    refine ⟨hsites, fun id hid => List.mem_append_right _ ?_⟩
    have hwritten : id ∈ insertedIds t₀.bufferedMessages := hid
    rw [hmessages] at hwritten
    exact hwritten
  · have hpasses := hreacts.passes
    have hnone : w.executes H workflow s = [] := by
      unfold World.executes
      split
      · rename_i i hs
        exact absurd hs (hother i)
      · rfl
    simp only [hnone, List.flatMap_nil, List.append_nil]
    exact ⟨by simp [hpasses.effects], hpasses.messages⟩

end BpmnLite
