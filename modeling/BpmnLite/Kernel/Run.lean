import BpmnLite.Kernel.Apply

/-!
# Runs of an instance

A run starts from one fibre at address 0 and goes on by accepted commands: `apply` on the snapshot
of the current state, then `materializeSnapshot`. The caller may hand any buffered messages and
cached completions to a command. A world keeps, beside the state, what the run has emitted so far
and the address each record was opened at.
-/

namespace BpmnLite

/-- One command with what the caller supplies to it. -/
structure Stimulus where
  command : Command
  commandId : Uuid
  logicalTime : ℕ
  dedupe : JobKey → Option JobCompletion := fun _ => none
  bufferedMessages : List ClaimedBufferedMessage := []

structure World where
  state : PersistedSnapshotState
  revision : ℕ
  effects : List DurableEffect := []
  events : List RuntimeEvent := []
  openings : List (RecordId × Addr) := []

def Instr.opensRecord : Instr → Bool
  | .v2Guard _ | .v2GuardN _ | .v2GuardR | .v2RaceOpen _ | .v2Fork .. => true
  | _ => false

section
variable (H : Host) (workflow : ExecutableWorkflow) (snapshot : Snapshot)
  (context : DeterministicContext)

/-- The record an instruction about to be executed opens, with its address. -/
def opening (ts : TickState) : List (RecordId × Addr) :=
  match workflow.instructions[ts.fiber.pc]? with
  | some instruction =>
    if instruction.opensRecord then [(context.derivedId H ts.ordinal, ts.fiber.pc)] else []
  | none => []

def tickOpenings : ℕ → TickState → List (RecordId × Addr)
  | 0, _ => []
  | steps + 1, ts =>
    opening H workflow context ts ++
      match tickStep H workflow snapshot context ts with
      | .ok (.next ts) => tickOpenings steps ts
      | _ => []

/-- The states a tick goes through, with the number of instructions executed and the records opened
on the way. -/
inductive Trace (start : TickState) : ℕ → List (RecordId × Addr) → TickState → Prop
  | start : Trace start 0 [] start
  | step {n : ℕ} {opened : List (RecordId × Addr)} {ts next : TickState}
      (trace : Trace start n opened ts)
      (step : tickStep H workflow snapshot context ts = .ok (.next next)) :
      Trace start (n + 1) (opened ++ opening H workflow context ts) next

end

def tickStart (snapshot : Snapshot) (fiber : Fiber) : TickState :=
  { fiber, inst := snapshot.inst }

namespace World

variable (H : Host) (workflow : ExecutableWorkflow)

/-- The state a start command commits: one fibre, at address 0. -/
def genesis (inst : ProcessInstance) (idempotencyKey : Uuid) (revision : ℕ) : World where
  state := PersistedSnapshotState.new { inst with state := .running }
    [Fiber.new (H.forCommand idempotencyKey 0 0) 0] ∅ [] ∅ []
  revision := revision

variable (w : World) (s : Stimulus)

def snapshot : Snapshot :=
  { w.state.toRuntimeSnapshot with dedupe := s.dedupe, bufferedMessages := s.bufferedMessages }

def context : DeterministicContext := ⟨s.logicalTime, s.commandId, w.revision + 1⟩

def respond : Except TransitionError Transition :=
  apply H workflow (w.snapshot s) s.command (w.context s)

/-- The records the command opens: only a tick opens any. -/
def opens : List (RecordId × Addr) :=
  match s.command with
  | .tick fiberId =>
    match selectFiber (w.snapshot s) fiberId with
    | .ok fiber => tickOpenings H workflow (w.snapshot s) (w.context s) workflow.limits.maxSteps
        (tickStart (w.snapshot s) fiber)
    | .error _ => []
  | _ => []

/-- The world after the command's transition has been materialized. -/
def commit (transition : Transition) : World where
  state := (materializeSnapshot w.state transition workflow.abiVersion (w.revision + 1)).state
  revision := w.revision + 1
  effects := w.effects ++ transition.effects
  events := w.events ++ transition.events
  openings := w.openings ++ w.opens H workflow s

/-- One accepted command that meets the condition `G`. -/
def Step (G : World → Stimulus → Prop) (w w' : World) : Prop :=
  ∃ s transition, G w s ∧ w.respond H workflow s = .ok transition ∧
    w' = w.commit H workflow s transition

/-- Reached by accepted commands that all meet the condition `G`. -/
def Reachable (G : World → Stimulus → Prop) (w w' : World) : Prop :=
  Relation.ReflTransGen (Step H workflow G) w w'

/-- The command is a tick that gets to run this fibre. -/
structure Ticks (fiber : Fiber) : Prop where
  command : ∃ fiberId, s.command = .tick fiberId ∧ selectFiber (w.snapshot s) fiberId = .ok fiber
  limits : validateSnapshotLimits workflow (w.snapshot s) true = .ok ()
  running : w.state.inst.state = .running

/-- A state in which the command's tick executes an instruction, with the records the tick has
opened by then. -/
def Visits (opened : List (RecordId × Addr)) (ts : TickState) : Prop :=
  ∃ fiber, w.Ticks workflow s fiber ∧ ∃ n < workflow.limits.maxSteps,
    Trace H workflow (w.snapshot s) (w.context s) (tickStart (w.snapshot s) fiber) n opened ts

end World

end BpmnLite
