import BpmnLite.Isa
import BpmnLite.Dmn.Types

/-!
# The decision verifier

`verify` checks the bytecode of a compiled decision once, before the machine ever runs it: lengths
and pool indices, one reachable `EndDecision`, stack heights, and the shape the hit policy asks for.
It is the only way to a `VerifiedDecision`.
-/

namespace BpmnLite.Dmn

inductive VerifierError where
  | instructionSpanLengthMismatch (instructions sourceSpans : ℕ)
  | branchTargetOutOfBounds (pos target len : ℕ)
  | unknownLoadFieldId (pos field : ℕ)
  | unknownStoreOutputId (pos field : ℕ)
  | unknownConstId (pos id : ℕ)
  | unknownConstSetId (pos id : ℕ)
  | unknownRangeId (pos id : ℕ)
  | unknownRuleId (pos : ℕ)
  | missingEndDecision
  | multipleEndDecisions
  | unreachableEndDecision
  | danglingInstruction (pos : ℕ)
  | stackUnderflow (pos expected actual : ℕ)
  | stackJoinMismatch (pos : ℕ) (heights : List ℕ)
  | nonZeroStackAtEnd (pos height : ℕ)
  | hitPolicyShapeMismatch (policy expectedShape actualShape : String)
  | reservedOpcode (pos : ℕ) (opcode : String)
  deriving DecidableEq, Repr

section Operands

def checkReserved (pos : ℕ) (instr : Instr) : Except VerifierError Unit :=
  if instr.isReserved then throw (.reservedOpcode pos instr.mnemonic) else pure ()

def checkOperands (decision : CompiledDecision) (pos : ℕ) : Instr → Except VerifierError Unit
  | .br t | .brFalse t | .brTrue t =>
    if decision.instructions.length ≤ t then
      throw (.branchTargetOutOfBounds pos t decision.instructions.length)
    else pure ()
  | .loadField f =>
    if decision.inputSchema.length ≤ f then throw (.unknownLoadFieldId pos f) else pure ()
  | .storeOutputTos f =>
    if decision.outputSchema.length ≤ f then throw (.unknownStoreOutputId pos f) else pure ()
  | .storeOutput f c =>
    if decision.outputSchema.length ≤ f then throw (.unknownStoreOutputId pos f)
    else if decision.constPool.length ≤ c then throw (.unknownConstId pos c)
    else pure ()
  | .pushConst c =>
    if decision.constPool.length ≤ c then throw (.unknownConstId pos c) else pure ()
  | .pushConstSet s =>
    if decision.constSetPool.length ≤ s then throw (.unknownConstSetId pos s) else pure ()
  | .rangeCheck r =>
    if decision.rangePool.length ≤ r then throw (.unknownRangeId pos r) else pure ()
  | .ruleMatched rid =>
    if decision.ruleMap.any (·.ruleId = rid) then pure () else throw (.unknownRuleId pos)
  | _ => pure ()

end Operands

section Reachability

def successors (pc : ℕ) : Instr → List ℕ
  | .endDecision => []
  | .br t => [t]
  | .brFalse t | .brTrue t => [t, pc + 1]
  | _ => [pc + 1]

/-- The walk of `compute_reachable`; the head of the list is the top of the work stack. -/
def reachFrom (instrs : List Instr) : ℕ → List ℕ → BTreeSet ℕ → BTreeSet ℕ
  | 0, _, reachable => reachable
  | _ + 1, [], reachable => reachable
  | fuel + 1, pc :: worklist, reachable =>
    match instrs[pc]? with
    | none => reachFrom instrs fuel worklist reachable
    | some instr =>
      if reachable.contains pc then reachFrom instrs fuel worklist reachable
      else
        reachFrom instrs fuel ((successors pc instr).reverse ++ worklist) (reachable.insert pc)

/-- Every instruction is expanded once and pushes at most two addresses, so the walk ends. -/
def computeReachable (instrs : List Instr) : BTreeSet ℕ :=
  reachFrom instrs (2 * instrs.length + 1) [0] ∅

def checkDangling (instrs : List Instr) (pos : ℕ) : Except VerifierError Unit :=
  match instrs[pos]? with
  | some .endDecision | some (.br _) | some (.brFalse _) | some (.brTrue _) => pure ()
  | _ => if instrs.length ≤ pos + 1 then throw (.danglingInstruction pos) else pure ()

end Reachability

section StackHeights

/-- `stack_delta`: how many values an instruction pops and pushes. -/
def stackDelta : Instr → ℕ × ℕ
  | .loadField _ | .pushConst _ | .pushConstSet _ => (0, 1)
  | .pop => (1, 0)
  | .dup => (0, 1)
  | .eq | .notEq | .lt | .le | .gt | .ge => (2, 1)
  | .inSet => (2, 1)
  | .rangeCheck _ => (1, 1)
  | .isNull | .isNotNull => (1, 1)
  | .and | .or => (2, 1)
  | .not => (1, 1)
  | .br _ => (0, 0)
  | .brFalse _ | .brTrue _ => (1, 0)
  | .ruleMatched _ => (0, 0)
  | .storeOutputTos _ => (1, 0)
  | .storeOutput _ _ => (0, 0)
  | .endDecision => (0, 0)
  | _ => (0, 0)

def setHeight (heights : List (Option ℕ)) (pos h source : ℕ) :
    Except VerifierError (List (Option ℕ)) :=
  match heights[pos]? with
  | none => pure heights
  | some none => pure (heights.set pos (some h))
  | some (some existing) =>
    if existing = h then pure heights else throw (.stackJoinMismatch source [existing, h])

/-- One round of `verify_stack_heights`: an address without a height is skipped, any other passes
its height on, to the next address first and then to the branch target. -/
def visitHeight (instrs : List Instr) (heights : List (Option ℕ)) (pos : ℕ) :
    Except VerifierError (List (Option ℕ)) :=
  match heights[pos]?.join, instrs[pos]? with
  | some h, some instr => do
    let (pop, push) := stackDelta instr
    if h < pop then throw (.stackUnderflow pos pop h)
    let newH := h - pop + push
    let heights ← (successors pos instr).reverse.foldlM
      (fun heights q => setHeight heights q newH pos) heights
    if instr = .endDecision ∧ newH ≠ 0 then throw (.nonZeroStackAtEnd pos newH)
    pure heights
  | _, _ => pure heights

/-- Heights are propagated in one pass over the reachable addresses in ascending order. -/
def verifyStackHeights (instrs : List Instr) (reachable : BTreeSet ℕ) :
    Except VerifierError (List (Option ℕ)) :=
  reachable.toList.foldlM (visitHeight instrs) ((List.replicate instrs.length none).set 0 (some 0))

end StackHeights

section HitPolicyShape

def checkFirstShape (instrs : List Instr) (pos : ℕ) : Instr → Except VerifierError Unit
  | .ruleMatched _ =>
    match instrs[pos + 1]? with
    | some (.br _) | some .endDecision => pure ()
    | next =>
      let found := (next.map Instr.mnemonic).getD "none"
      throw (.hitPolicyShapeMismatch "FIRST" "RuleMatched followed by Br(end) or EndDecision"
        s!"instruction {found} after RuleMatched at {pos}")
  | _ => pure ()

def checkUniqueShape (instrs : List Instr) (pos : ℕ) : Instr → Except VerifierError Unit
  | .ruleMatched _ =>
    match instrs[pos + 1]? with
    | some (.br _) =>
      throw (.hitPolicyShapeMismatch "UNIQUE" "RuleMatched followed by fall-through (no Br)"
        s!"Br after RuleMatched at {pos}")
    | _ => pure ()
  | _ => pure ()

def verifyHitPolicyShape (decision : CompiledDecision) : Except VerifierError Unit :=
  match decision.hitPolicy with
  | .first => decision.instructions.zipIdx.forM fun (instr, pos) =>
      checkFirstShape decision.instructions pos instr
  | .unique => decision.instructions.zipIdx.forM fun (instr, pos) =>
      checkUniqueShape decision.instructions pos instr

end HitPolicyShape

section Verify

def endPositions (instrs : List Instr) : List ℕ :=
  (instrs.zipIdx.filter fun (instr, _) => instr = .endDecision).map Prod.snd

/-- The checks that follow control through the code: `EndDecision` is reachable, nothing reachable
runs off the end, and the stack heights agree. -/
def verifyFlow (instrs : List Instr) (endPos : ℕ) : Except VerifierError Unit := do
  let reachable := computeReachable instrs
  if ¬ reachable.contains endPos then throw .unreachableEndDecision
  reachable.toList.forM (checkDangling instrs)
  let _ ← verifyStackHeights instrs reachable

def verifyEnding (instrs : List Instr) : Except VerifierError Unit :=
  match endPositions instrs with
  | [] => throw .missingEndDecision
  | [endPos] => verifyFlow instrs endPos
  | _ => throw .multipleEndDecisions

def verifyChecks (decision : CompiledDecision) : Except VerifierError Unit := do
  let instrs := decision.instructions
  if instrs.length ≠ decision.sourceSpans.length then
    throw (.instructionSpanLengthMismatch instrs.length decision.sourceSpans.length)
  if instrs.length = 0 then throw .missingEndDecision
  instrs.zipIdx.forM fun (instr, pos) => checkReserved pos instr
  instrs.zipIdx.forM fun (instr, pos) => checkOperands decision pos instr
  verifyEnding instrs
  verifyHitPolicyShape decision

structure VerifiedDecision where
  asCompiled : CompiledDecision
  verified : verifyChecks asCompiled = .ok ()

def verify (decision : CompiledDecision) : Except VerifierError VerifiedDecision :=
  match h : verifyChecks decision with
  | .ok () => .ok ⟨decision, h⟩
  | .error e => .error e

end Verify

end BpmnLite.Dmn
