import Mathlib

/-!
# Decisions: values, typed rules and bytecode

The typed form of a decision that the compiler produces and the reference evaluator reads, the
instructions and pools of the stack machine, and the contexts and traces both evaluators return.
Ids that index a vector are natural numbers, catalogue ids are 128-bit words, an `f64` is its bit
pattern.
-/

namespace BpmnLite.Dmn

abbrev FieldId := ℕ
abbrev RuleId := ℕ
abbrev ConstId := ℕ
abbrev ConstSetId := ℕ
abbrev RangeId := ℕ
abbrev OutputFieldId := ℕ
abbrev DomainId := BitVec 128
abbrev ValueId := BitVec 128
abbrev SchemaHash := UInt64

structure SourceSpan where
  start : ℕ
  stop : ℕ
  deriving DecidableEq, Repr, Inhabited

section Floats

/-- An `f64`, by its bits. -/
structure F64 where
  bits : UInt64
  deriving DecidableEq, Repr

namespace F64

/-- The value of a number that is not a NaN, in units of the smallest subnormal `2 ^ -1074`;
the infinities lie beyond every finite number. -/
def units (f : F64) : Option ℤ :=
  let word := f.bits.toNat
  let exponent := word / 2 ^ 52 % 2 ^ 11
  let mantissa := word % 2 ^ 52
  let magnitude : Option ℕ :=
    if exponent = 2047 then if mantissa = 0 then some (2 ^ 2098) else none
    else if exponent = 0 then some mantissa
    else some ((2 ^ 52 + mantissa) * 2 ^ (exponent - 1))
  magnitude.map fun m => if word / 2 ^ 63 = 1 then -(m : ℤ) else m

/-- Rounding to 53 significant bits, to the nearest and from the middle to the even one. -/
def roundSignificand (n : ℕ) : ℕ :=
  let shift := n.size - 53
  let q := n / 2 ^ shift
  let r := n % 2 ^ shift
  if shift = 0 then n
  else if 2 ^ (shift - 1) < r ∨ r = 2 ^ (shift - 1) ∧ q % 2 = 1 then (q + 1) * 2 ^ shift
  else q * 2 ^ shift

def unitsOfInt (i : ℤ) : ℤ := i.sign * roundSignificand i.natAbs * 2 ^ 1074

def partialCmp (a b : Option ℤ) : Option Ordering := do
  return compare (← a) (← b)

end F64

end Floats

section Typed

inductive HitPolicy where
  | unique
  | first
  deriving DecidableEq, Repr

inductive ResolvedType where
  | enum (domainId : DomainId)
  | bool
  | integer
  | decimal
  | str
  deriving DecidableEq, Repr

def ResolvedType.typeName : ResolvedType → String
  | .enum _ => "enum"
  | .bool => "bool"
  | .integer => "integer"
  | .decimal => "decimal"
  | .str => "string"

def ResolvedType.isNumeric : ResolvedType → Bool
  | .integer | .decimal => true
  | _ => false

structure FieldSchema where
  fieldId : FieldId
  name : String
  fieldType : ResolvedType
  sourceSpan : SourceSpan
  deriving DecidableEq, Repr

inductive ComparisonOp where
  | eq
  | notEq
  | lt
  | le
  | gt
  | ge
  deriving DecidableEq, Repr

inductive TypedValue where
  | enum (domainId : DomainId) (valueId : ValueId)
  | bool (b : Bool)
  | integer (i : ℤ)
  | decimal (f : F64)
  | str (s : String)
  | null
  deriving DecidableEq, Repr

inductive TypedPredicate where
  | comparison (field : FieldId) (op : ComparisonOp) (rhs : TypedValue) (sourceSpan : SourceSpan)
  | inSet (field : FieldId) (values : List TypedValue) (sourceSpan : SourceSpan)
  | range (field : FieldId) (lower upper : Option TypedValue)
      (lowerInclusive upperInclusive : Bool) (sourceSpan : SourceSpan)
  | isNull (field : FieldId) (sourceSpan : SourceSpan)
  | isNotNull (field : FieldId) (sourceSpan : SourceSpan)
  | not (inner : TypedPredicate) (sourceSpan : SourceSpan)
  | and (items : List TypedPredicate) (sourceSpan : SourceSpan)
  | or (items : List TypedPredicate) (sourceSpan : SourceSpan)

@[induction_eliminator]
theorem TypedPredicate.induction {motive : TypedPredicate → Prop}
    (comparison : ∀ field op rhs span, motive (.comparison field op rhs span))
    (inSet : ∀ field values span, motive (.inSet field values span))
    (range : ∀ field lower upper lowerInclusive upperInclusive span,
      motive (.range field lower upper lowerInclusive upperInclusive span))
    (isNull : ∀ field span, motive (.isNull field span))
    (isNotNull : ∀ field span, motive (.isNotNull field span))
    (not : ∀ inner span, motive inner → motive (.not inner span))
    (and : ∀ items span, (∀ p ∈ items, motive p) → motive (.and items span))
    (or : ∀ items span, (∀ p ∈ items, motive p) → motive (.or items span))
    (p : TypedPredicate) : motive p :=
  @TypedPredicate.rec motive (fun items => ∀ p ∈ items, motive p)
    comparison inSet range isNull isNotNull (fun inner span => not inner span)
    (fun items span => and items span) (fun items span => or items span)
    (by simp) (fun _ _ hhead htail => List.forall_mem_cons.mpr ⟨hhead, htail⟩) p

inductive TypedWhen where
  | catchAll (sourceSpan : SourceSpan)
  | predicates (preds : List TypedPredicate) (sourceSpan : SourceSpan)

structure TypedAssignment where
  outputField : FieldId
  value : TypedValue
  sourceSpan : SourceSpan
  deriving DecidableEq, Repr

structure TypedRule where
  ruleId : RuleId
  ruleName : String
  when : TypedWhen
  assigns : List TypedAssignment
  sourceSpan : SourceSpan

structure EntityRef where
  domainId : DomainId
  valueId : ValueId
  sourceSpan : SourceSpan
  deriving DecidableEq, Repr

structure TypedDecision where
  decisionId : String
  name : String
  hitPolicy : HitPolicy
  inputSchema : List FieldSchema
  outputSchema : List FieldSchema
  rules : List TypedRule
  resolvedEntities : List EntityRef
  sourceSpan : SourceSpan

/-- The span of a predicate, which the trace and the `BrFalse` that tests it carry. -/
def predSpan : TypedPredicate → SourceSpan
  | .comparison _ _ _ span | .inSet _ _ span | .range _ _ _ _ _ span | .isNull _ span
  | .isNotNull _ span | .not _ span | .and _ span | .or _ span => span

end Typed

section Bytecode

inductive AggregateOpKind where
  | count
  | sum
  | min
  | max
  | mean
  deriving DecidableEq, Repr

inductive Instr where
  | loadField (field : FieldId)
  | pushConst (const : ConstId)
  | pushConstSet (set : ConstSetId)
  | pop
  | dup
  | eq
  | notEq
  | lt
  | le
  | gt
  | ge
  | inSet
  | rangeCheck (range : RangeId)
  | isNull
  | isNotNull
  | and
  | or
  | not
  | br (target : ℕ)
  | brFalse (target : ℕ)
  | brTrue (target : ℕ)
  | ruleMatched (rule : RuleId)
  | storeOutputTos (output : OutputFieldId)
  | storeOutput (output : OutputFieldId) (const : ConstId)
  | endDecision
  -- reserved for later profiles: never emitted, refused by the verifier
  | call (bkm : ℕ)
  | return
  | forAllBegin (collection : FieldId) (boundVar : ℕ) (stop : ℕ)
  | forAllEnd
  | aggregateBegin (collection : FieldId) (boundVar : ℕ) (op : AggregateOpKind) (stop : ℕ)
  | aggregateEnd
  | loadPath (path : ℕ)
  deriving DecidableEq, Repr

namespace Instr

def isReserved : Instr → Bool
  | call _ | .return | forAllBegin .. | forAllEnd | aggregateBegin .. | aggregateEnd
  | loadPath _ => true
  | _ => false

def mnemonic : Instr → String
  | loadField _ => "LoadField"
  | pushConst _ => "PushConst"
  | pushConstSet _ => "PushConstSet"
  | pop => "Pop"
  | dup => "Dup"
  | eq => "Eq"
  | notEq => "NotEq"
  | lt => "Lt"
  | le => "Le"
  | gt => "Gt"
  | ge => "Ge"
  | inSet => "InSet"
  | rangeCheck _ => "RangeCheck"
  | isNull => "IsNull"
  | isNotNull => "IsNotNull"
  | and => "And"
  | or => "Or"
  | not => "Not"
  | br _ => "Br"
  | brFalse _ => "BrFalse"
  | brTrue _ => "BrTrue"
  | ruleMatched _ => "RuleMatched"
  | storeOutputTos _ => "StoreOutputTos"
  | storeOutput _ _ => "StoreOutput"
  | endDecision => "EndDecision"
  | call _ => "Call"
  | .return => "Return"
  | forAllBegin .. => "ForAllBegin"
  | forAllEnd => "ForAllEnd"
  | aggregateBegin .. => "AggregateBegin"
  | aggregateEnd => "AggregateEnd"
  | loadPath _ => "LoadPath"

end Instr

structure RangeEntry where
  lower : Option TypedValue
  upper : Option TypedValue
  lowerInclusive : Bool
  upperInclusive : Bool
  deriving DecidableEq, Repr

structure RuleMapEntry where
  ruleId : RuleId
  ruleName : String
  entryAddr : ℕ
  sourceSpan : SourceSpan
  deriving DecidableEq, Repr

structure CompiledDecision where
  decisionId : String
  name : String
  hitPolicy : HitPolicy
  inputSchema : List FieldSchema
  outputSchema : List FieldSchema
  constPool : List TypedValue
  constSetPool : List (List TypedValue)
  rangePool : List RangeEntry
  instructions : List Instr
  sourceSpans : List SourceSpan
  ruleMap : List RuleMapEntry
  typedIr : TypedDecision

end Bytecode

section Evaluation

/-- What the decision crates take from outside: `DefaultHasher` over a schema and `str::parse` to
an `f64`. -/
structure Runtime where
  computeSchemaHash : List FieldSchema → SchemaHash
  parseF64 : String → Option F64

structure TypedInputContext where
  slots : List (Option TypedValue)
  schemaHash : SchemaHash

/-- `TypedInputContext::get`: a missing slot and one that is not there read alike. -/
def TypedInputContext.get (input : TypedInputContext) (field : FieldId) : Option TypedValue :=
  input.slots[field]?.join

/-- A context built for a schema, by `from_slots` or by the builder. -/
def TypedInputContext.IsFor (R : Runtime) (schema : List FieldSchema)
    (input : TypedInputContext) : Prop :=
  input.schemaHash = R.computeSchemaHash schema ∧ input.slots.length = schema.length

structure TypedOutputContext where
  slots : List TypedValue
  schemaHash : SchemaHash
  deriving DecidableEq

structure PredicateTrace where
  result : Bool
  sourceSpan : SourceSpan
  description : String
  deriving DecidableEq, Repr

structure RuleTrace where
  ruleId : RuleId
  ruleName : String
  matched : Bool
  predicates : List PredicateTrace
  sourceSpan : SourceSpan
  deriving DecidableEq, Repr

/-- An evaluation that returns Ok has one winning rule: the other outcomes of the source's enum
are returned as errors. -/
inductive TraceOutcome where
  | hit (ruleId : RuleId)
  | noMatch
  | multipleMatches (rules : List RuleId)
  | evalError
  deriving DecidableEq, Repr

structure EvaluationTrace where
  rules : List RuleTrace
  outcome : TraceOutcome
  deriving DecidableEq, Repr

structure EvaluationOutput where
  output : TypedOutputContext
  trace : EvaluationTrace
  deriving DecidableEq

inductive EvalError where
  | noMatch
  | multipleMatches (rules : List RuleId)
  | inputSchemaMismatch (expected actual : ℕ)
  | inputTypeMismatch (field : String) (fieldId : FieldId) (expected actual : String)
  | inputDomainMismatch (field : String) (fieldId : FieldId) (domain symbol : String)
  | schemaHashMismatch
  deriving DecidableEq, Repr

/-- `source.get(start..end).unwrap_or("")`: the empty text when the span is not one of whole
characters inside the source. -/
def extractSource (source : String) (span : SourceSpan) : String :=
  if span.start ≤ span.stop ∧ span.stop ≤ source.toUTF8.size then
    (String.fromUTF8? (source.toUTF8.extract span.start span.stop)).getD ""
  else ""

end Evaluation

section Values

namespace TypedValue

/-- The derived `==`: bitwise everywhere but on decimals, where a NaN equals nothing and the two
zeros are equal. -/
def eq : TypedValue → TypedValue → Bool
  | enum d v, enum d' v' => d = d' && v = v'
  | bool a, bool b => a = b
  | integer a, integer b => a = b
  | decimal a, decimal b => F64.partialCmp a.units b.units = some .eq
  | str a, str b => a = b
  | null, null => true
  | _, _ => false

def compareNumeric : TypedValue → TypedValue → Option Ordering
  | integer x, integer y => some (compare x y)
  | integer x, decimal y => F64.partialCmp (some (F64.unitsOfInt x)) y.units
  | decimal x, integer y => F64.partialCmp x.units (some (F64.unitsOfInt y))
  | decimal x, decimal y => F64.partialCmp x.units y.units
  | _, _ => none

end TypedValue

end Values

end BpmnLite.Dmn
