import BpmnLite.Kernel.Run
import BpmnLite.Maps

/-!
# A concrete host

Ids that number their seeds, documents that are all empty, and workflows with one task type: enough
to run the kernel on concrete programs.
-/

namespace BpmnLite

/-- Seeds numbered injectively. -/
def IdSeed.number : IdSeed → ℕ
  | .instruction instanceId fiberId pc ordinal =>
    Nat.pair 0 (Nat.pair instanceId (Nat.pair fiberId (Nat.pair pc ordinal)))
  | .transition instanceId revision ordinal =>
    Nat.pair 1 (Nat.pair instanceId (Nat.pair revision ordinal))
  | .timerFire timerId fireCount => Nat.pair 2 (Nat.pair timerId fireCount)
  | .command commandId revision ordinal =>
    Nat.pair 3 (Nat.pair commandId (Nat.pair revision ordinal))
  | .runnable instanceId revision => Nat.pair 4 (Nat.pair instanceId revision)

theorem IdSeed.number_injective : Function.Injective IdSeed.number := by
  intro a b h
  cases a <;> cases b <;> simp_all [IdSeed.number, Nat.pair_eq_pair]

namespace Reference

def host : Host where
  uuidOfSeed := IdSeed.number
  contentHash text := text.length
  jsonOfText _ := .ok (.object [])
  jsonToText _ := ""
  jsonOfBytes _ := .ok (.object [])
  jsonToBytes _ := []
  toRollbackSnapshot _ := ""
  fromRollbackSnapshot _ := .ok {}

theorem host_injective : Function.Injective host.uuidOfSeed := IdSeed.number_injective

def inst : ProcessInstance where
  instanceId := 0
  tenantId := ""
  processKey := ""
  bytecodeVersion := 0
  domainPayload := ""
  domainPayloadHash := 0
  sessionStack := {}
  flags := ∅
  counters := ∅
  joinExpected := ∅
  state := .running
  correlationId := ""
  entryId := 0
  runbookId := 0
  createdAt := 0
  integrityHash := none
  quarantineState := none
  planHash := none
  currentNodeId := none
  placeholderValues := none

def metadata : ArtifactMetadata := { taskManifest := ["task"] }

def workflow (instructions : List Instr) (limits : VerifiedLimits)
    (verified : verifyProgram instructions metadata = .ok limits) : ExecutableWorkflow where
  abiVersion := currentArtifactAbi
  instructions
  metadata
  limits
  hash := 0
  verified

def single : ExecutableWorkflow :=
  workflow [.execNative 0 0 0, .end] ⟨0, 1, 2, 0, 0, 0⟩ (by decide +kernel)

def start : World := World.genesis host inst 0 1

def ticked : Stimulus := { command := .tick none, commandId := 0, logicalTime := 0 }

/-- The world after accepted commands, each at time 0 with the command id 0. -/
def run (workflow : ExecutableWorkflow) : List Command → World → Except TransitionError World
  | [], w => .ok w
  | command :: rest, w => do
    let s : Stimulus := { command, commandId := 0, logicalTime := 0 }
    let transition ← w.respond host workflow s
    run workflow rest (w.commit host workflow s transition)

/-- Where accepted commands lead; the start when one is rejected. -/
def after (workflow : ExecutableWorkflow) (commands : List Command) : World :=
  match run workflow commands start with
  | .ok w => w
  | .error _ => start

/-- Where accepted commands lead from a world; the world itself when one is rejected. -/
def resume (workflow : ExecutableWorkflow) (commands : List Command) (w : World) : World :=
  match run workflow commands w with
  | .ok w' => w'
  | .error _ => w

theorem ok_of_check {ε α : Type} {x : Except ε α} (p : α → Bool)
    (h : x.toOption.any p) : ∃ t, x = .ok t ∧ p t := by
  cases x with
  | ok t => exact ⟨t, rfl, h⟩
  | error e => simp [Except.toOption] at h

def rejection : Except TransitionError Transition → Option TransitionError
  | .ok _ => none
  | .error e => some e

theorem eq_error_of_rejection {x : Except TransitionError Transition} {e : TransitionError}
    (h : rejection x = some e) : x = .error e := by
  cases x with
  | ok t => simp [rejection] at h
  | error e' => exact congrArg _ (Option.some.inj h)

section
variable {workflow : ExecutableWorkflow} {commands : List Command} {G : World → Stimulus → Prop}

theorem reachable_run
    (hG : ∀ w, ∀ command ∈ commands, G w { command, commandId := 0, logicalTime := 0 })
    {w w' : World} (h : run workflow commands w = .ok w') :
    World.Reachable host workflow G w w' := by
  induction commands generalizing w with
  | nil =>
    obtain rfl := Except.ok.inj h
    exact .refl
  | cons command rest ih =>
    unfold run at h
    obtain ⟨transition, htransition, h⟩ := Maps.bind_eq_ok.mp h
    exact .head ⟨_, transition, hG w command List.mem_cons_self, htransition, rfl⟩
      (ih (fun w command hmem => hG w command (List.mem_cons_of_mem _ hmem)) h)

theorem reachable_resume (commands : List Command)
    (hG : ∀ w, ∀ command ∈ commands, G w { command, commandId := 0, logicalTime := 0 }) (w : World) :
    World.Reachable host workflow G w (resume workflow commands w) := by
  unfold resume
  split
  · rename_i w' h
    exact reachable_run hG h
  · exact .refl

theorem reachable_after_of (commands : List Command)
    (hG : ∀ w, ∀ command ∈ commands, G w { command, commandId := 0, logicalTime := 0 }) :
    World.Reachable host workflow G start (after workflow commands) := by
  unfold after
  split
  · rename_i w h
    exact reachable_run hG h
  · exact .refl

end

theorem reachable_after (workflow : ExecutableWorkflow) (commands : List Command) :
    World.Reachable host workflow (fun _ _ => True) start (after workflow commands) :=
  reachable_after_of commands fun _ _ _ => trivial

end Reference

end BpmnLite
