import BpmnLite.Artifact

/-!
# The artifact verifier: control stacks and terminal reachability

The second walk of the verifier assigns an abstract control stack to every address it reaches; the
third checks that every reachable instruction can reach a terminal one. `ExecutableWorkflow` is an
artifact that passed `verifyProgram` with the limits it declares.
-/

namespace BpmnLite

structure V2ControlStackLimits where
  maxControlDepth : ℕ := 0
  maxBarriers : ℕ := 0
  maxRecords : ℕ := 0
  deriving DecidableEq

/-- A vector's `pop`: the last element and the rest. -/
def popLast {α : Type} (stack : List α) : Option (List α × α) :=
  match stack.getLast? with
  | some top => some (stack.dropLast, top)
  | none => none

def popExpecting (address : Addr) (state : AbstractStack) (expected : ScopeKind) :
    Except ArtifactError AbstractStack :=
  match popLast state with
  | none => .error (.invalidInstruction address (.controlStackUnderflow expected))
  | some (popped, top) =>
    if top.kind ≠ expected then
      .error (.invalidInstruction address (.nestingViolation expected top.kind top.openedAt))
    else .ok popped

def forkArity (pairing : Addr) (instructions : List Instr) : ℕ :=
  match instructions[pairing]? with
  | some (.v2Fork targets _) => max targets.length 1
  | _ => 1

def isBarrier (token : ScopeToken) : Bool := token.kind = .barrier

def fibreMultiplicity (state : AbstractStack) (instructions : List Instr) : ℕ :=
  (state.filter isBarrier).foldl
    (fun acc token => satMul32 acc (forkArity token.openedAt instructions)) 1

def forwardEdge (address target : Addr) (edge : String) (state : AbstractStack) :
    Except ArtifactError (Addr × AbstractStack) :=
  if target ≤ address then .error (.invalidInstruction address (.backwardEdge edge target))
  else .ok (target, state)

section
variable (instructions : List Instr) (address : Addr) (state : AbstractStack)

def nextEdge : List (Except ArtifactError (Addr × AbstractStack)) :=
  (fallThrough address instructions.length).map (fun next => .ok (next, state))

def closeEdges (expected : ScopeKind) : List (Except ArtifactError (Addr × AbstractStack)) :=
  match popExpecting address state expected with
  | .error e => [.error e]
  | .ok popped => nextEdge instructions address popped

def isGuardKind (kind : ScopeKind) : Bool := kind = .guard || kind = .guardN || kind = .guardR

def guardArmTimerEdges : List (Except ArtifactError (Addr × AbstractStack)) :=
  match state.getLast? with
  | some top =>
    if isGuardKind top.kind && top.openedAt + 1 = address then nextEdge instructions address state
    else [.error (.invalidInstruction address (.guardTimerMisplaced (some top)))]
  | none => [.error (.invalidInstruction address (.guardTimerMisplaced none))]

def guardTimerCycleEdges (maxFires : ℕ) : List (Except ArtifactError (Addr × AbstractStack)) :=
  if maxFires = 0 then [.error (.invalidInstruction address .guardTimerCycleZero)]
  else
    match state.getLast? with
    | some top =>
      if top.kind = .guardN ∧ 0 < address ∧ instructions[address - 1]? = some .v2GuardArmTimer then
        nextEdge instructions address state
      else [.error (.invalidInstruction address (.guardTimerCycleMisplaced (some top)))]
    | none => [.error (.invalidInstruction address (.guardTimerCycleMisplaced none))]

def isArmWord : Instr → Bool
  | .v2GuardArmTimer | .v2GuardArmError .. | .v2GuardTimerCycle _ => true
  | _ => false

/-- Whether an error arm for the same code already stands between the guard and `address`. -/
def hasDuplicateErrorArm (openedAt : Addr) (errorCode : Option String) : Bool :=
  (List.range address).any (fun i => openedAt < i &&
    match instructions[i]? with
    | some (.v2GuardArmError other _) => other = errorCode
    | _ => false)

def guardArmErrorEdges (errorCode : Option String) :
    List (Except ArtifactError (Addr × AbstractStack)) :=
  match state.getLast? with
  | some top =>
    let followsArm := 0 < address ∧ (instructions[address - 1]?.map isArmWord) = some true
    if isGuardKind top.kind ∧ (top.openedAt + 1 = address ∨ followsArm) then
      if hasDuplicateErrorArm instructions address top.openedAt errorCode then
        [.error (.invalidInstruction address (.guardErrorDuplicate errorCode))]
      else nextEdge instructions address state
    else [.error (.invalidInstruction address (.guardErrorMisplaced (some top)))]
  | none => [.error (.invalidInstruction address (.guardErrorMisplaced none))]

def joinEdges (pairing : Addr) : List (Except ArtifactError (Addr × AbstractStack)) :=
  match instructions[pairing]? with
  | some (.v2Fork ..) =>
    match state.getLast? with
    | some top =>
      if top.kind = .barrier ∧ top.openedAt = pairing then
        closeEdges instructions address state .barrier
      else [.error (.invalidInstruction address (.joinPairingMismatch pairing top))]
    | none => [.error (.invalidInstruction address (.controlStackUnderflow .barrier))]
  | _ => [.error (.invalidInstruction address (.joinPairingIsNotFork pairing))]

/-- What visiting an instruction in an abstract control stack propagates. -/
def controlEdgesOf (instruction : Instr) : List (Except ArtifactError (Addr × AbstractStack)) :=
  match instruction with
  | .v2Guard handler =>
    forwardEdge address handler "guard handler" state ::
      nextEdge instructions address (state ++ [⟨.guard, address⟩])
  | .v2GuardN handler =>
    forwardEdge address handler "guard-n handler" (state ++ [⟨.guardN, address⟩]) ::
      nextEdge instructions address (state ++ [⟨.guardN, address⟩])
  | .v2GuardEnd => closeEdges instructions address state .guard
  | .v2GuardNEnd => closeEdges instructions address state .guardN
  | .v2GuardR =>
    match state.find? isBarrier with
    | some enclosingFork =>
      [.error (.invalidInstruction address (.guardRInsideFork enclosingFork.openedAt))]
    | none => nextEdge instructions address (state ++ [⟨.guardR, address⟩])
  | .v2GuardREnd => closeEdges instructions address state .guardR
  | .v2GuardArmTimer => guardArmTimerEdges instructions address state
  | .v2GuardTimerCycle maxFires => guardTimerCycleEdges instructions address state maxFires
  -- The handler address is not propagated.
  | .v2GuardArmError errorCode _ => guardArmErrorEdges instructions address state errorCode
  | .v2RaceOpen _ => nextEdge instructions address (state ++ [⟨.race, address⟩])
  | .v2ArmTimer _ | .v2ArmMsg .. | .v2ArmEffect .. => nextEdge instructions address state
  | .v2RaceClose =>
    match popExpecting address state .race with
    | .error e => [.error e]
    | .ok popped =>
      match raceArmTargets address instructions with
      | .error e => [.error e]
      | .ok targets =>
        targets.map (fun target => forwardEdge address target "race arm (via \x7dRACE)" popped)
  | .v2Fork targets pairing =>
    targets.map (fun target =>
      forwardEdge address target "fork" (state ++ [⟨.barrier, pairing⟩]))
  | .v2Join pairing => joinEdges instructions address state pairing
  | .v2CancelScope =>
    match state.getLast? with
    | none => [.error (.invalidInstruction address .cancelScopeEmpty)]
    | some top =>
      if top.kind ≠ .guardR then
        [.error (.invalidInstruction address (.cancelScopeNotGuardR top))]
      else []
  | .end =>
    if state ≠ [] then
      [.error (.invalidInstruction address (.controlStackNotEmptyAtEnd state))]
    else []
  | _ =>
    match successors address instruction instructions instructions.length with
    | .error e => [.error e]
    | .ok targets => targets.map (fun target => .ok (target, state))

def controlEdges : List (Except ArtifactError (Addr × AbstractStack)) :=
  match instructions[address]? with
  | none => [.error (.invalidInstruction address (.addressOutOfRange "v2 verifier" address))]
  | some instruction => controlEdgesOf instructions address state instruction

def controlNote (acc : V2ControlStackLimits) : V2ControlStackLimits :=
  let multiplicity := fibreMultiplicity state instructions
  { maxControlDepth := max acc.maxControlDepth state.length
    maxRecords := max acc.maxRecords (satMul32 state.length multiplicity)
    maxBarriers := max acc.maxBarriers
      (satMul32 (state.filter isBarrier).length multiplicity) }

end

variable (instructions : List Instr)

def controlWalk : Worklist.Walk AbstractStack ArtifactError V2ControlStackLimits where
  edges := controlEdges instructions
  clash source address existing sent :=
    .invalidInstruction source (.mergeDisagreement address existing sent)
  note _ := controlNote instructions
  exhausted := .walkExhausted

/-- The control-stack walk from address 0. An address past the program is rejected when it is
visited, so it may be entered once: the walk has one visit more than the program has addresses. -/
def walkControl : Except ArtifactError (Worklist.Entry AbstractStack × V2ControlStackLimits) :=
  (controlWalk instructions).run (instructions.length + 1)
    ((∅ : Worklist.Entry AbstractStack).insert 0 []) [0] {}

def verifyV2ControlStack (loopMultiplier : ℕ) : Except ArtifactError V2ControlStackLimits := do
  let (_, limits) ← walkControl instructions
  let multiplier := min loopMultiplier u32Max
  return { limits with
    maxBarriers := satMul32 limits.maxBarriers multiplier
    maxRecords := satMul32 limits.maxRecords multiplier }

def isTerminal : Instr → Bool
  | .end | .endTerminate | .fail _ | .v2CancelScope | .v2RouteZeroMatch => true
  | _ => false

def successorsAt (address : Addr) : Except ArtifactError (List Addr) :=
  match instructions[address]? with
  | none => .error (.invalidInstruction address .noAbstractStackState)
  | some instruction => successors address instruction instructions instructions.length

def forwardWalk : Worklist.Walk Unit ArtifactError Unit where
  edges address _ :=
    match successorsAt instructions address with
    | .error e => [.error e]
    | .ok targets => targets.map (fun target => .ok (target, ()))
  clash _ address _ _ := .invalidInstruction address .noPathToTerminal
  note _ _ := id
  exhausted := .walkExhausted

/-- Walks the edges among `reachable` addresses backwards. -/
def reverseWalk (reachable : List Addr) : Worklist.Walk Unit ArtifactError Unit where
  edges address _ :=
    (reachable.filter (fun source =>
      match successorsAt instructions source with
      | .error _ => false
      | .ok targets => targets.contains address)).map (fun source => .ok (source, ()))
  clash _ address _ _ := .invalidInstruction address .noPathToTerminal
  note _ _ := id
  exhausted := .walkExhausted

def verifyTerminalReachability : Except ArtifactError Unit := do
  if instructions = [] then return ()
  let (forward, _) ← (forwardWalk instructions).run instructions.length
    ((∅ : Worklist.Entry Unit).insert 0 ()) [0] ()
  let reachable := forward.keys
  let terminals := reachable.filter
    (fun address => (instructions[address]?.map isTerminal) = some true)
  let (reaches, _) ← (reverseWalk instructions reachable).run instructions.length
    (terminals.foldl (fun entry address => entry.insert address ()) ∅) terminals ()
  match reachable.find? (fun address => address ∉ reaches) with
  | some address => .error (.invalidInstruction address .noPathToTerminal)
  | none => return ()

/-- One side table: its addresses must lie in the program, on instructions it is about. -/
def checkTable (description : String) (fits : Instr → Bool)
    (reason : String) : List Addr → Except ArtifactError Unit
  | [] => .ok ()
  | address :: rest => do
    requireAddress address instructions.length address description
    if (instructions[address]?.map fits) ≠ some true then
      throw (.invalidMetadata reason (some address))
    checkTable description fits reason rest

def isExecFfi : Instr → Bool
  | .execFfi .. => true
  | _ => false

def isV2Effect : Instr → Bool
  | .v2ArmEffect .. | .v2AwaitEffect .. => true
  | _ => false

def isGuardOpen : Instr → Bool
  | .v2Guard _ | .v2GuardN _ | .v2GuardR => true
  | _ => false

def isMessageWord : Instr → Bool
  | .v2WaitMsg _ | .v2ArmMsg .. | .publishMessage _ => true
  | _ => false

def checkReferences (metadata : ArtifactMetadata) (address : Addr) :
    Instr → Except ArtifactError Unit
  | .execNative taskType _ _ | .execDslTask taskType _ _ =>
    if metadata.taskManifest.length ≤ taskType then
      .error (.invalidInstruction address (.taskTypeHasNoManifestEntry taskType))
    else .ok ()
  | .execFfi .. =>
    if address ∈ metadata.ffiTaskDecls then .ok ()
    else .error (.invalidMetadata "ExecFfi has no FFI declaration" (some address))
  | .v2ArmEffect .. | .v2AwaitEffect .. =>
    if address ∈ metadata.v2FfiTaskDecls then .ok ()
    else .error (.invalidMetadata "no v2 FFI effect declaration" (some address))
  | _ => .ok ()

def checkAllReferences (metadata : ArtifactMetadata) :
    Addr → List Instr → Except ArtifactError Unit
  | _, [] => .ok ()
  | address, instruction :: rest => do
    checkReferences metadata address instruction
    checkAllReferences metadata (address + 1) rest

def verifyMetadata (metadata : ArtifactMetadata) : Except ArtifactError Unit := do
  if instructions = [] then throw (.invalidMetadata "instruction stream is empty" none)
  checkTable instructions "debug map" (fun _ => true) "" metadata.debugMap.keys
  checkTable instructions "FFI task table" isExecFfi "FFI declaration address is not ExecFfi"
    metadata.ffiTaskDecls.keys
  checkTable instructions "v2 FFI effect table" isV2Effect
    "v2 FFI effect declaration address is not V2ArmEffect/V2AwaitEffect"
    metadata.v2FfiTaskDecls.keys
  checkTable instructions "v2 guard budget table" isGuardOpen
    "guard budget address is not a guard-opening instruction (V2Guard/V2GuardN/V2GuardR)"
    metadata.v2GuardBudgets.keys
  checkTable instructions "v2 correlation source table" isMessageWord
    "correlation source address is not a message word (V2WaitMsg/V2ArmMsg/PublishMessage)"
    metadata.v2CorrSources.keys
  checkAllReferences metadata 0 instructions
  if ¬ metadata.waitPlan.isEmpty then
    throw (.invalidMetadata
      "wait side table is non-empty but no v1 instruction can populate it any more" none)
  if ¬ metadata.joinPlan.isEmpty then
    throw (.invalidMetadata
      "static join side table and instruction references are not bijective" none)

def verifyProgram (metadata : ArtifactMetadata) : Except ArtifactError VerifiedLimits := do
  verifyMetadata instructions metadata
  let (_, acc) ← walkHeights instructions
  if ¬ acc.reachableEnd then
    throw (.invalidMetadata "entry point cannot reach an End or EndTerminate instruction" none)
  let control ← verifyV2ControlStack instructions acc.loopMultiplier
  verifyTerminalReachability instructions
  return {
    maxStack := acc.maxStack
    maxFibers := acc.maxFibers
    maxSteps := satMul64 instructions.length acc.loopMultiplier
    maxControlDepth := control.maxControlDepth
    maxBarriers := control.maxBarriers
    maxRecords := control.maxRecords }

def currentArtifactAbi : ℕ := 1

/-- A verified artifact: the limits it declares are the ones the verifier computes. -/
structure ExecutableWorkflow where
  abiVersion : ℕ
  instructions : List Instr
  metadata : ArtifactMetadata
  limits : VerifiedLimits
  hash : Digest
  verified : verifyProgram instructions metadata = .ok limits

end BpmnLite
