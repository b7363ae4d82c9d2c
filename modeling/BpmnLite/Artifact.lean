import BpmnLite.Bindings
import BpmnLite.Worklist

/-!
# The artifact verifier: control flow and operand heights

`successors` is the control-flow graph of a program. `verifyProgram` checks the side tables, walks
the graph from address 0 assigning one operand height to every instruction it reaches, and counts
the resources a run may use. The control-stack walk and the terminal-reachability check it also
performs are in `BpmnLite.ControlVerifier`.
-/

namespace BpmnLite

def u32Max : ℕ := 2 ^ 32 - 1
def u64Max : ℕ := 2 ^ 64 - 1
def satAdd32 (a b : ℕ) : ℕ := min (a + b) u32Max
def satAdd64 (a b : ℕ) : ℕ := min (a + b) u64Max
def satMul32 (a b : ℕ) : ℕ := min (a * b) u32Max
def satMul64 (a b : ℕ) : ℕ := min (a * b) u64Max

inductive ScopeKind where
  | guard
  | guardN
  | guardR
  | race
  | barrier
  deriving DecidableEq

structure ScopeToken where
  kind : ScopeKind
  openedAt : Addr
  deriving DecidableEq

abbrev AbstractStack := List ScopeToken

/-- Why the verifier rejects an instruction, with the data its message prints. -/
inductive RejectReason where
  | addressOutOfRange (description : String) (target : Addr)
  | taskTypeHasNoManifestEntry (taskType : ℕ)
  | stackUnderflow (requires has : ℕ)
  | noAbstractStackState
  | inconsistentStackHeight (existing next : ℕ)
  | payloadRouteHasNoBranches
  | backwardCounterBranchHasZeroBound
  | unboundedBackwardControlFlow
  | raceHasNoOpen
  | raceArmCountMismatch (openAt : Addr) (declared found : ℕ)
  | raceRegionNotContiguous (cursor : Addr)
  | controlStackUnderflow (expected : ScopeKind)
  | nestingViolation (expected found : ScopeKind) (openedAt : Addr)
  | mergeDisagreement (at_ : Addr) (existing sent : AbstractStack)
  | backwardEdge (edge : String) (target : Addr)
  | guardRInsideFork (barrierAt : Addr)
  | guardTimerMisplaced (top : Option ScopeToken)
  | guardTimerCycleZero
  | guardTimerCycleMisplaced (top : Option ScopeToken)
  | guardErrorMisplaced (top : Option ScopeToken)
  | guardErrorDuplicate (errorCode : Option String)
  | joinPairingIsNotFork (pairing : Addr)
  | joinPairingMismatch (pairing : Addr) (top : ScopeToken)
  | cancelScopeEmpty
  | cancelScopeNotGuardR (top : ScopeToken)
  | controlStackNotEmptyAtEnd (open_ : AbstractStack)
  | noPathToTerminal
  deriving DecidableEq

inductive ArtifactError where
  | invalidInstruction (address : Addr) (reason : RejectReason)
  | invalidMetadata (reason : String) (address : Option Addr)
  | limitMismatch
  | walkExhausted
  deriving DecidableEq

structure ScopeFailureBudget where
  version : ℕ
  maxFailures : ℕ
  deriving DecidableEq

/-- The side tables the kernel and the verifier read. Of the join and wait plans only the keys
matter. -/
structure ArtifactMetadata where
  debugMap : BTreeMap Addr String := ∅
  joinPlan : BTreeSet JoinId := ∅
  waitPlan : BTreeSet WaitId := ∅
  messageNameMap : BTreeMap ℕ String := ∅
  taskManifest : List String := []
  ffiTaskDecls : BTreeMap Addr FfiTaskDecl := ∅
  v2FfiTaskDecls : BTreeMap Addr FfiTaskDecl := ∅
  v2CorrSources : BTreeMap Addr BindingSource := ∅
  v2GuardBudgets : BTreeMap Addr ScopeFailureBudget := ∅
  deriving DecidableEq

structure VerifiedLimits where
  maxStack : ℕ
  maxFibers : ℕ
  maxSteps : ℕ
  maxControlDepth : ℕ
  maxBarriers : ℕ
  maxRecords : ℕ
  deriving DecidableEq

def requireAddress (target len address : Addr) (description : String) :
    Except ArtifactError Unit :=
  if target < len then .ok ()
  else .error (.invalidInstruction address (.addressOutOfRange description target))

def stackEffect : Instr → ℕ × ℕ
  | .pushBool _ | .pushI64 _ | .loadFlag _ | .v2LoadPlaceholderMatch .. | .v2MiIndexLive ..
  | .v2MiLoadElement .. => (0, 1)
  | .pop | .storeFlag _ | .brIf _ | .brIfNot _ => (1, 0)
  | .execNative _ argc retc => (argc, retc)
  | .v2WaitFor | .v2WaitUntil | .v2ArmTimer _ | .v2GuardArmTimer => (1, 0)
  | _ => (0, 0)

/-- Scans back from a race close for the targets of its arms, down to the race open. -/
def scanArms (instructions : List Instr) (closeAddress : Addr) :
    ℕ → List Addr → Except ArtifactError (List Addr)
  | 0, _ => .error (.invalidInstruction closeAddress .raceHasNoOpen)
  | cursor + 1, targets =>
    match instructions[cursor]? with
    | some (.v2ArmTimer target) | some (.v2ArmMsg target _) | some (.v2ArmEffect target _ _ _) =>
      scanArms instructions closeAddress cursor (target :: targets)
    | some (.v2RaceOpen armCount) =>
      if targets.length ≠ armCount then
        .error (.invalidInstruction closeAddress
          (.raceArmCountMismatch cursor armCount targets.length))
      else .ok targets
    | some (.pushBool _) | some (.pushI64 _) | some (.loadFlag _) | some .pop =>
      scanArms instructions closeAddress cursor targets
    | _ => .error (.invalidInstruction closeAddress (.raceRegionNotContiguous cursor))

def raceArmTargets (closeAddress : Addr) (instructions : List Instr) :
    Except ArtifactError (List Addr) :=
  scanArms instructions closeAddress closeAddress []

def fallThrough (address len : ℕ) : List Addr :=
  if address + 1 < len then [address + 1] else []

def requireTargets (len address : ℕ) (description : String) :
    List Addr → Except ArtifactError (List Addr)
  | [] => .ok []
  | target :: rest => do
    requireAddress target len address description
    return target :: (← requireTargets len address description rest)

def successors (address : Addr) (instruction : Instr) (instructions : List Instr) (len : ℕ) :
    Except ArtifactError (List Addr) :=
  match instruction with
  | .jump target => requireTargets len address "jump" [target]
  | .brIf target | .brIfNot target | .brCounterLt _ _ target => do
    return (← requireTargets len address "branch" [target]) ++ fallThrough address len
  | .routePayload branches defaultTarget => do
    return (← requireTargets len address "payload route" (branches.map (·.target))) ++
      (← requireTargets len address "payload route default" defaultTarget.toList)
  | .end | .endTerminate | .fail _ => .ok []
  | .v2Guard handler | .v2GuardN handler => do
    return (← requireTargets len address "guard handler" [handler]) ++ fallThrough address len
  | .v2GuardArmError _ handler => do
    return (← requireTargets len address "guard error-arm handler" [handler]) ++
      fallThrough address len
  | .v2Fork targets _ => requireTargets len address "v2 fork" targets
  | .v2RaceClose => do
    requireTargets len address "race arm target (via \x7dRACE resolution)"
      (← raceArmTargets address instructions)
  | .v2CancelScope | .v2RouteZeroMatch => .ok []
  | _ => .ok (fallThrough address len)

structure HeightAcc where
  reachableEnd : Bool := false
  maxStack : ℕ := 0
  maxFibers : ℕ := 1
  loopMultiplier : ℕ := 1
  deriving DecidableEq

/-- The checks the height walk makes on the instruction it visits. -/
def checkVisited (address : Addr) : Instr → Except ArtifactError Unit
  | .routePayload [] _ => .error (.invalidInstruction address .payloadRouteHasNoBranches)
  | .brCounterLt _ limit target =>
    if target < address ∧ limit = 0 then
      .error (.invalidInstruction address .backwardCounterBranchHasZeroBound)
    else .ok ()
  | .jump target | .brIf target | .brIfNot target =>
    if target ≤ address then .error (.invalidInstruction address .unboundedBackwardControlFlow)
    else .ok ()
  | _ => .ok ()

def heightEdges (instructions : List Instr) (address : Addr) (height : ℕ) :
    List (Except ArtifactError (Addr × ℕ)) :=
  match instructions[address]? with
  | none => [.error (.invalidInstruction address .noAbstractStackState)]
  | some instruction =>
    let (pops, pushes) := stackEffect instruction
    if height < pops then [.error (.invalidInstruction address (.stackUnderflow pops height))]
    else
      match checkVisited address instruction with
      | .error e => [.error e]
      | .ok () =>
        match successors address instruction instructions instructions.length with
        | .error e => [.error e]
        | .ok targets => targets.map (fun target => .ok (target, height - pops + pushes))

def spawnBound (instructions : List Instr) (address : Addr) (maxFibers : ℕ) : Instr → ℕ
  | .v2Fork targets _ => satAdd32 maxFibers targets.length
  | .v2Guard _ | .v2GuardN _ =>
    match instructions[address + 1]?, instructions[address + 2]? with
    | some .v2GuardArmTimer, some (.v2GuardTimerCycle maxFires) =>
      satAdd32 (satAdd32 maxFibers 1) (maxFires - 1)
    | _, _ => satAdd32 maxFibers 1
  | _ => maxFibers

def loopBound (address : Addr) (loopMultiplier : ℕ) : Instr → ℕ
  | .brCounterLt _ limit target =>
    if target < address then satMul64 loopMultiplier limit else loopMultiplier
  | _ => loopMultiplier

def heightNote (instructions : List Instr) (address : Addr) (height : ℕ) (acc : HeightAcc) :
    HeightAcc :=
  match instructions[address]? with
  | none => acc
  | some instruction =>
    { reachableEnd := acc.reachableEnd || instruction = .end || instruction = .endTerminate
      maxStack := max acc.maxStack
        (height - (stackEffect instruction).1 + (stackEffect instruction).2)
      maxFibers := spawnBound instructions address acc.maxFibers instruction
      loopMultiplier := loopBound address acc.loopMultiplier instruction }

def heightWalk (instructions : List Instr) : Worklist.Walk ℕ ArtifactError HeightAcc where
  edges := heightEdges instructions
  clash _ address existing next :=
    .invalidInstruction address (.inconsistentStackHeight existing next)
  note := heightNote instructions
  exhausted := .walkExhausted

/-- The height walk from address 0: every reached address with its operand height. -/
def walkHeights (instructions : List Instr) :
    Except ArtifactError (Worklist.Entry ℕ × HeightAcc) :=
  (heightWalk instructions).run instructions.length
    ((∅ : Worklist.Entry ℕ).insert 0 0) [0] {}

end BpmnLite
