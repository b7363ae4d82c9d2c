import BpmnLite.Codec
import BpmnLite.Dmn.Types

/-!
# The bytecode emitter

From a typed decision to code and pools. A rule is its tests, each followed by a branch to the next
rule, then its assignments and `RuleMatched`; branch targets are patched in once they are known. A
conjunction or disjunction of fewer than two predicates is an assertion failure in the source and
`none` here.
-/

namespace BpmnLite.Dmn

namespace Emit

section Keys

/-- The bytes by which constants are told apart. -/
def serializeTypedValue : TypedValue → List UInt8
  | .null => [0x00]
  | .bool b => [0x01, if b then 1 else 0]
  | .integer i => 0x02 :: Codec.le 8 (i % 2 ^ 64).toNat
  | .decimal f => 0x03 :: Codec.le 8 f.bits.toNat
  | .str s => 0x04 :: Codec.le 4 s.toUTF8.size ++ s.toUTF8.data.toList
  | .enum d v => 0x05 :: (Codec.le 16 d.toNat).reverse ++ (Codec.le 16 v.toNat).reverse

def boundKey : Option TypedValue → List UInt8
  | none => [0]
  | some v => 1 :: serializeTypedValue v

def rangeKey (r : RangeEntry) : List UInt8 :=
  (if r.lowerInclusive then 1 else 0) :: (if r.upperInclusive then 1 else 0) ::
    (boundKey r.lower ++ boundKey r.upper)

/-- What is left of a list after `last` when neighbours with equal keys are merged. -/
def dedupAfter (last : TypedValue) : List TypedValue → List TypedValue
  | [] => []
  | v :: vs =>
    if serializeTypedValue v = serializeTypedValue last then dedupAfter last vs
    else v :: dedupAfter v vs

def canonicalSet (values : List TypedValue) : List TypedValue :=
  match values.insertionSort (fun a b => serializeTypedValue a ≤ serializeTypedValue b) with
  | [] => []
  | v :: vs => v :: dedupAfter v vs

/-- An entry with an equal key is used again, a new one is appended. -/
def intern {α κ : Type} [DecidableEq κ] (key : α → κ) (pool : List α) (v : α) : ℕ × List α :=
  match pool.findIdx? (fun w => key w = key v) with
  | some idx => (idx, pool)
  | none => (pool.length, pool ++ [v])

end Keys

structure EmitContext where
  instructions : List Instr
  sourceSpans : List SourceSpan
  constPool : List TypedValue
  constSetPool : List (List TypedValue)
  rangePool : List RangeEntry
  ruleMap : List RuleMapEntry
  /-- Where the branches to the end stand. -/
  patchesEnd : List ℕ

namespace EmitContext

variable (ctx : EmitContext)

def new : EmitContext := ⟨[], [], [], [], [], [], []⟩

def emit (instr : Instr) (span : SourceSpan) : EmitContext :=
  { ctx with
    instructions := ctx.instructions ++ [instr]
    sourceSpans := ctx.sourceSpans ++ [span] }

def pc : ℕ := ctx.instructions.length

def internConst (v : TypedValue) : ConstId × EmitContext :=
  let (id, pool) := intern serializeTypedValue ctx.constPool v
  (id, { ctx with constPool := pool })

def internConstSet (values : List TypedValue) : ConstSetId × EmitContext :=
  let (id, pool) := intern (List.map serializeTypedValue) ctx.constSetPool (canonicalSet values)
  (id, { ctx with constSetPool := pool })

def internRange (range : RangeEntry) : RangeId × EmitContext :=
  let (id, pool) := intern rangeKey ctx.rangePool range
  (id, { ctx with rangePool := pool })

end EmitContext

section Predicates

def comparisonInstr : ComparisonOp → Instr
  | .eq => .eq
  | .notEq => .notEq
  | .lt => .lt
  | .le => .le
  | .gt => .gt
  | .ge => .ge

variable (ctx : EmitContext) (field : FieldId)

def emitComparison (op : ComparisonOp) (rhs : TypedValue) (span : SourceSpan) : EmitContext :=
  let ctx := ctx.emit (.loadField field) span
  let (id, ctx) := ctx.internConst rhs
  (ctx.emit (.pushConst id) span).emit (comparisonInstr op) span

def emitInSet (values : List TypedValue) (span : SourceSpan) : EmitContext :=
  let ctx := ctx.emit (.loadField field) span
  let (id, ctx) := ctx.internConstSet values
  (ctx.emit (.pushConstSet id) span).emit .inSet span

def emitRange (range : RangeEntry) (span : SourceSpan) : EmitContext :=
  let ctx := ctx.emit (.loadField field) span
  let (id, ctx) := ctx.internRange range
  ctx.emit (.rangeCheck id) span

def emitNullTest (isNull : Bool) (span : SourceSpan) : EmitContext :=
  (ctx.emit (.loadField field) span).emit (if isNull then .isNull else .isNotNull) span

mutual

/-- The code of a predicate leaves its truth value on the stack. -/
def emitPredicateNested : TypedPredicate → EmitContext → Option EmitContext
  | .comparison field op rhs span, ctx => some (emitComparison ctx field op rhs span)
  | .inSet field values span, ctx => some (emitInSet ctx field values span)
  | .range field lower upper lowerInclusive upperInclusive span, ctx =>
    some (emitRange ctx field ⟨lower, upper, lowerInclusive, upperInclusive⟩ span)
  | .isNull field span, ctx => some (emitNullTest ctx field true span)
  | .isNotNull field span, ctx => some (emitNullTest ctx field false span)
  | .not inner span, ctx => do return (← emitPredicateNested inner ctx).emit .not span
  | .and items span, ctx => emitJunction .and span items ctx
  | .or items span, ctx => emitJunction .or span items ctx

/-- `emit_and` and `emit_or`: the first two items, then one more after each operator. -/
def emitJunction (instr : Instr) (span : SourceSpan) :
    List TypedPredicate → EmitContext → Option EmitContext
  | [], _ => none
  | first :: items, ctx => do
    if items = [] then none
    emitOperands instr span items (← emitPredicateNested first ctx)

def emitOperands (instr : Instr) (span : SourceSpan) :
    List TypedPredicate → EmitContext → Option EmitContext
  | [], ctx => some ctx
  | item :: items, ctx => do
    emitOperands instr span items ((← emitPredicateNested item ctx).emit instr span)

end

end Predicates

section Rules

/-- `u32::MAX`, until the target is known. -/
def placeholder : ℕ := 2 ^ 32 - 1

/-- The tests of a rule, each followed by its branch; returns where the branches stand. -/
def emitTests : List TypedPredicate → EmitContext → Option (EmitContext × List ℕ)
  | [], ctx => some (ctx, [])
  | p :: ps, ctx => do
    let ctx ← emitPredicateNested p ctx
    let brIdx := ctx.pc
    let (ctx, patches) ← emitTests ps (ctx.emit (.brFalse placeholder) (predSpan p))
    return (ctx, brIdx :: patches)

def emitAssignments (ctx : EmitContext) : List TypedAssignment → EmitContext
  | [] => ctx
  | a :: as =>
    let (id, ctx) := ctx.internConst a.value
    emitAssignments ((ctx.emit (.pushConst id) a.sourceSpan).emit
      (.storeOutputTos a.outputField) a.sourceSpan) as

def patchBrFalse (addr : ℕ) (instrs : List Instr) (idx : ℕ) : List Instr :=
  match instrs[idx]? with
  | some (.brFalse _) => instrs.set idx (.brFalse addr)
  | _ => instrs

def patchBr (addr : ℕ) (instrs : List Instr) (idx : ℕ) : List Instr :=
  match instrs[idx]? with
  | some (.br _) => instrs.set idx (.br addr)
  | _ => instrs

def emitWhen (ctx : EmitContext) : TypedWhen → Option (EmitContext × List ℕ)
  | .catchAll _ => some (ctx, [])
  | .predicates preds _ => emitTests preds ctx

/-- Under FIRST a rule that has matched leaves for the end. -/
def emitExit (hitPolicy : HitPolicy) (ctx : EmitContext) (span : SourceSpan) : EmitContext :=
  match hitPolicy with
  | .first =>
    { ctx.emit (.br placeholder) span with patchesEnd := ctx.patchesEnd ++ [ctx.pc] }
  | .unique => ctx

def emitRule (hitPolicy : HitPolicy) (ctx : EmitContext) (rule : TypedRule) :
    Option EmitContext := do
  let ctx := { ctx with
    ruleMap := ctx.ruleMap ++ [⟨rule.ruleId, rule.ruleName, ctx.pc, rule.sourceSpan⟩] }
  let (ctx, patches) ← emitWhen ctx rule.when
  let ctx := emitAssignments ctx rule.assigns
  let ctx := ctx.emit (.ruleMatched rule.ruleId) rule.sourceSpan
  let ctx := emitExit hitPolicy ctx rule.sourceSpan
  return { ctx with instructions := patches.foldl (patchBrFalse ctx.pc) ctx.instructions }

end Rules

def emit (typed : TypedDecision) : Option CompiledDecision := do
  let ctx ← typed.rules.foldlM (emitRule typed.hitPolicy) EmitContext.new
  let endAddr := ctx.pc
  let ctx := ctx.emit .endDecision typed.sourceSpan
  return {
    decisionId := typed.decisionId
    name := typed.name
    hitPolicy := typed.hitPolicy
    inputSchema := typed.inputSchema
    outputSchema := typed.outputSchema
    constPool := ctx.constPool
    constSetPool := ctx.constSetPool
    rangePool := ctx.rangePool
    instructions := ctx.patchesEnd.foldl (patchBr endAddr) ctx.instructions
    sourceSpans := ctx.sourceSpans
    ruleMap := ctx.ruleMap
    typedIr := typed }

end Emit

end BpmnLite.Dmn
