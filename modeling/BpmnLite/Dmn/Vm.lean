import BpmnLite.Dmn.Verify

/-!
# The decision machine

The stack machine that runs a verified decision. Pops of an empty stack fall back to a default as
in the source; an index outside its vector panics there and gives `none` here. The loop takes fuel,
and `Ending` tells a run that is still going from one that panicked or returned.
-/

namespace BpmnLite.Dmn

namespace Vm

structure VmState where
  pc : ℕ
  /-- The head is the top of the stack. -/
  dataStack : List TypedValue
  matchedRules : List RuleId
  output : List (Option TypedValue)
  halted : Bool
  ruleTraces : List RuleTrace
  currentRulePredicates : List PredicateTrace
  /-- Index into the rule map. -/
  currentRuleIdx : Option ℕ
  deriving DecidableEq

def VmState.new (compiled : CompiledDecision) : VmState where
  pc := 0
  dataStack := []
  matchedRules := []
  output := List.replicate compiled.outputSchema.length none
  halted := false
  ruleTraces := []
  currentRulePredicates := []
  currentRuleIdx := none

section Helpers

def valuesEqual (a b : TypedValue) : Bool :=
  match a, b with
  | .null, _ | _, .null => false
  | a, b => a.eq b

def valuesDiffer (a b : TypedValue) : Bool :=
  match a, b with
  | .null, _ | _, .null => false
  | a, b => !valuesEqual a b

def asBool : TypedValue → Bool
  | .bool true => true
  | _ => false

def isNull : TypedValue → Bool
  | .null => true
  | _ => false

def compares (accept : Ordering → Bool) (a b : TypedValue) : Bool :=
  (a.compareNumeric b).any accept

def evalRangeCheck (value : TypedValue) (range : RangeEntry) : Bool :=
  !isNull value &&
  (match range.lower with
    | none => true
    | some lb =>
      match value.compareNumeric lb with
      | none | some .lt => false
      | some .eq => range.lowerInclusive
      | some .gt => true) &&
  (match range.upper with
    | none => true
    | some ub =>
      match value.compareNumeric ub with
      | none | some .gt => false
      | some .eq => range.upperInclusive
      | some .lt => true)

end Helpers

section Trace

variable (compiled : CompiledDecision) (source : String) (state : VmState)

/-- The first rule whose code begins at the address becomes the current one. -/
def detectRuleTransition : VmState :=
  match compiled.ruleMap.findIdx? (·.entryAddr = state.pc) with
  | some idx => { state with currentRuleIdx := some idx, currentRulePredicates := [] }
  | none => state

def recordPredicateTrace (result : Bool) (span : SourceSpan) : VmState :=
  { state with
    currentRulePredicates := state.currentRulePredicates ++
      [{ result, sourceSpan := span, description := extractSource source span }] }

def finaliseNonMatchingRule : Option VmState :=
  match state.currentRuleIdx with
  | none => some state
  | some idx => do
    let entry ← compiled.ruleMap[idx]?
    return { state with
      ruleTraces := state.ruleTraces ++
        [{ ruleId := entry.ruleId, ruleName := entry.ruleName, matched := false,
           predicates := state.currentRulePredicates, sourceSpan := entry.sourceSpan }]
      currentRulePredicates := []
      currentRuleIdx := none }

def finaliseMatchingRule (ruleId : RuleId) : Option VmState :=
  match state.currentRuleIdx with
  | none => some state
  | some idx => do
    let entry ← compiled.ruleMap[idx]?
    -- a rule that tested nothing is a catch-all
    let predicates := if state.currentRulePredicates = [] then
      [{ result := true, sourceSpan := entry.sourceSpan, description := "catch-all" }]
      else state.currentRulePredicates
    return { state with
      ruleTraces := state.ruleTraces ++
        [{ ruleId, ruleName := entry.ruleName, matched := true, predicates,
           sourceSpan := entry.sourceSpan }]
      currentRulePredicates := []
      currentRuleIdx := none }

end Trace

section Step

variable (state : VmState)

def advance : VmState := { state with pc := state.pc + 1 }

def push (v : TypedValue) : VmState :=
  { state with dataStack := v :: state.dataStack }

/-- The value of a pop, with what the source falls back to on an empty stack. -/
def top (fallback : TypedValue) : TypedValue := state.dataStack.head?.getD fallback

def pop : VmState := { state with dataStack := state.dataStack.tail }

def unary (fallback : TypedValue) (f : TypedValue → Bool) (state : VmState) : VmState :=
  advance (push (pop state) (.bool (f (top state fallback))))

/-- Replace the two topmost values `a`, `b` by the result of a test on them; `b` is the top. -/
def binary (f : TypedValue → TypedValue → Bool) (state : VmState) : VmState :=
  let b := top state .null
  let a := top (pop state) .null
  advance (push (pop (pop state)) (.bool (f a b)))

/-- `InSet`: any integer on top is taken for the index of a set. -/
def inSet (compiled : CompiledDecision) (state : VmState) : Option VmState :=
  let value := top (pop state) .null
  match top state .null with
  | .integer sid => do
    let set ← if sid < 0 then none else compiled.constSetPool[sid.toNat]?
    return advance (push (pop (pop state)) (.bool (set.any (valuesEqual value))))
  | _ => some (advance (push (pop (pop state)) (.bool false)))

def storeOutput (field : OutputFieldId) (v : TypedValue) : Option VmState :=
  if field < state.output.length then some { state with output := state.output.set field (some v) }
  else none

def execute (compiled : CompiledDecision) (input : TypedInputContext) (source : String)
    (span : SourceSpan) (state : VmState) : Instr → Option VmState
  | .loadField field => some (advance (push state ((input.get field).getD .null)))
  | .pushConst c => do return advance (push state (← compiled.constPool[c]?))
  | .pushConstSet s => some (advance (push state (.integer s)))
  | .pop => some (advance (pop state))
  | .dup => some (advance { state with dataStack := state.dataStack.head?.toList ++ state.dataStack })
  | .eq => some (binary valuesEqual state)
  | .notEq => some (binary valuesDiffer state)
  | .lt => some (binary (compares (· = .lt)) state)
  | .le => some (binary (compares (· ≠ .gt)) state)
  | .gt => some (binary (compares (· = .gt)) state)
  | .ge => some (binary (compares (· ≠ .lt)) state)
  | .inSet => inSet compiled state
  | .rangeCheck r => do
    let range ← compiled.rangePool[r]?
    return unary .null (evalRangeCheck · range) state
  | .isNull => some (unary .null isNull state)
  | .isNotNull => some (unary .null (fun v => !isNull v) state)
  | .and => some (binary (fun a b => asBool a && asBool b) state)
  | .or => some (binary (fun a b => asBool a || asBool b) state)
  | .not => some (unary (.bool false) (fun v => !asBool v) state)
  | .br addr => some { state with pc := addr }
  | .brFalse addr => do
    let v := top state (.bool false)
    let state := recordPredicateTrace source (pop state) (asBool v) span
    if asBool v then return advance state
    else
      let state ← finaliseNonMatchingRule compiled state
      return { state with pc := addr }
  | .brTrue addr =>
    if asBool (top state (.bool false)) then some { pop state with pc := addr }
    else some (advance (pop state))
  | .ruleMatched rid => do
    let state ← finaliseMatchingRule compiled
      { state with matchedRules := state.matchedRules ++ [rid] } rid
    return advance state
  | .storeOutputTos field => do
    return advance (← storeOutput (pop state) field (top state .null))
  | .storeOutput field c => do
    let v ← compiled.constPool[c]?
    return advance (← storeOutput state field v)
  | .endDecision => some { state with halted := true }
  | _ => some (advance state)

def step (compiled : CompiledDecision) (input : TypedInputContext) (source : String)
    (state : VmState) : Option VmState := do
  let span ← compiled.sourceSpans[state.pc]?
  let instr ← compiled.instructions[state.pc]?
  execute compiled input source span (detectRuleTransition compiled state) instr

end Step

section Run

variable (compiled : CompiledDecision) (state : VmState)

inductive Ending (α : Type) where
  | running
  | panicked
  | returned (result : α)
  deriving DecidableEq

def Ending.map {α β : Type} (f : α → β) : Ending α → Ending β
  | running => running
  | panicked => panicked
  | returned a => returned (f a)

/-- The loop of `run_vm` stops when the machine has halted or has left the code. -/
def Stopped : Prop :=
  state.halted = true ∨ compiled.instructions.length ≤ state.pc

instance decidableStopped : Decidable (Stopped compiled state) :=
  inferInstanceAs (Decidable (_ ∨ _))

def runLoop (compiled : CompiledDecision) (input : TypedInputContext) (source : String) :
    ℕ → VmState → Ending VmState
  | 0, state => if Stopped compiled state then .returned state else .running
  | fuel + 1, state =>
    if Stopped compiled state then .returned state
    else
      match step compiled input source state with
      | none => .panicked
      | some state => runLoop compiled input source fuel state

theorem runLoop_of_stopped {compiled : CompiledDecision} {state : VmState}
    (h : Stopped compiled state) (input : TypedInputContext) (source : String) (fuel : ℕ) :
    runLoop compiled input source fuel state = .returned state := by
  cases fuel <;> simp [runLoop, h]

theorem runLoop_of_step {compiled : CompiledDecision} {input : TypedInputContext} {source : String}
    {state state' : VmState} (h : ¬ Stopped compiled state)
    (hstep : step compiled input source state = some state') (fuel : ℕ) :
    runLoop compiled input source (fuel + 1) state = runLoop compiled input source fuel state' := by
  simp [runLoop, h, hstep]

def stubTrace (entry : RuleMapEntry) : RuleTrace where
  ruleId := entry.ruleId
  ruleName := entry.ruleName
  matched := false
  predicates := []
  sourceSpan := entry.sourceSpan

/-- Traces are padded with stubs and sorted into rule order. -/
def padTraces : List RuleTrace :=
  let missing := compiled.ruleMap.filter fun entry =>
    !state.ruleTraces.any (·.ruleId = entry.ruleId)
  (state.ruleTraces ++ missing.map stubTrace).insertionSort (·.ruleId ≤ ·.ruleId)

def decideOutcome (hitPolicy : HitPolicy) (matchedRules : List RuleId) : Except EvalError RuleId :=
  match hitPolicy, matchedRules with
  | .unique, [] => .error .noMatch
  | .unique, [rule] => .ok rule
  | .unique, rules => .error (.multipleMatches rules)
  | .first, [] => .error .noMatch
  | .first, rule :: _ => .ok rule

variable (R : Runtime)

def finalize (compiled : CompiledDecision) (state : VmState) :
    Except EvalError EvaluationOutput := do
  let rule ← decideOutcome compiled.hitPolicy state.matchedRules
  return {
    output := { slots := state.output.map (·.getD .null)
                schemaHash := R.computeSchemaHash compiled.outputSchema }
    trace := { rules := padTraces compiled state, outcome := .hit rule } }

def runVm (fuel : ℕ) (compiled : CompiledDecision) (input : TypedInputContext)
    (source : String) : Ending (Except EvalError EvaluationOutput) :=
  if R.computeSchemaHash compiled.inputSchema ≠ input.schemaHash then
    .returned (.error .schemaHashMismatch)
  else if input.slots.length ≠ compiled.inputSchema.length then
    .returned (.error (.inputSchemaMismatch compiled.inputSchema.length input.slots.length))
  else (runLoop compiled input source fuel (VmState.new compiled)).map (finalize R compiled)

def evaluate (fuel : ℕ) (decision : VerifiedDecision) (input : TypedInputContext)
    (source : String) : Ending (Except EvalError EvaluationOutput) :=
  runVm R fuel decision.asCompiled input source

end Run

end Vm

end BpmnLite.Dmn
