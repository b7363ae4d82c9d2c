import BpmnLite.Dmn.Types

/-!
# The reference evaluator

The evaluator over typed rules that the machine is tested against. It looks at every predicate of
every rule and applies the hit policy afterwards. An assignment outside the output schema panics in
the source and gives `none` here.
-/

namespace BpmnLite.Dmn.Reference

section Predicates

variable (input : TypedInputContext)

def present (field : FieldId) : Option TypedValue :=
  (input.get field).filter (· ≠ .null)

def compareValues (op : ComparisonOp) (lhs rhs : TypedValue) : Bool :=
  match op with
  | .eq => lhs.eq rhs
  | .notEq => rhs ≠ .null && !lhs.eq rhs
  | .lt => (lhs.compareNumeric rhs).any (· = .lt)
  | .le => (lhs.compareNumeric rhs).any (· ≠ .gt)
  | .gt => (lhs.compareNumeric rhs).any (· = .gt)
  | .ge => (lhs.compareNumeric rhs).any (· ≠ .lt)

def evalComparison (field : FieldId) (op : ComparisonOp) (rhs : TypedValue) : Bool :=
  match present input field with
  | none => false
  | some lhs => compareValues op lhs rhs

def evalInSet (field : FieldId) (values : List TypedValue) : Bool :=
  match present input field with
  | none => false
  | some lhs => values.any lhs.eq

/-- Whether a value lies on the right side of a bound; `outside` is the wrong side. -/
def meetsBound (lhs : TypedValue) (bound : Option TypedValue) (inclusive : Bool)
    (outside : Ordering) : Bool :=
  match bound with
  | none => true
  | some b =>
    match lhs.compareNumeric b with
    | none => false
    | some .eq => inclusive
    | some o => o ≠ outside

def evalRange (field : FieldId) (lower upper : Option TypedValue)
    (lowerInclusive upperInclusive : Bool) : Bool :=
  match present input field with
  | none => false
  | some lhs =>
    meetsBound lhs lower lowerInclusive .lt && meetsBound lhs upper upperInclusive .gt

def evalIsNull (field : FieldId) : Bool := (present input field).isNone

def evalIsNotNull (field : FieldId) : Bool := (present input field).isSome

mutual

def evalPredicate : TypedPredicate → Bool
  | .comparison field op rhs _ => evalComparison input field op rhs
  | .inSet field values _ => evalInSet input field values
  | .range field lower upper lowerInclusive upperInclusive _ =>
    evalRange input field lower upper lowerInclusive upperInclusive
  | .isNull field _ => evalIsNull input field
  | .isNotNull field _ => evalIsNotNull input field
  | .not inner _ => !evalPredicate inner
  | .and items _ => (evalPredicates items).all id
  | .or items _ => (evalPredicates items).any id

/-- All results are collected before they are combined. -/
def evalPredicates : List TypedPredicate → List Bool
  | [] => []
  | p :: ps => evalPredicate p :: evalPredicates ps

end

theorem evalPredicates_eq_map (ps : List TypedPredicate) :
    evalPredicates input ps = ps.map (evalPredicate input) := by
  induction ps with
  | nil => rfl
  | cons p ps ih => rw [evalPredicates, ih, List.map_cons]

end Predicates

section Rules

def evalRule (rule : TypedRule) (input : TypedInputContext) (source : String) :
    Bool × List PredicateTrace :=
  match rule.when with
  | .catchAll span => (true, [{ result := true, sourceSpan := span, description := "catch-all" }])
  | .predicates preds _ =>
    let traces : List PredicateTrace := preds.map fun p =>
      { result := evalPredicate input p, sourceSpan := predSpan p
        description := extractSource source (predSpan p) }
    (traces.all (·.result), traces)

def matchesRule (input : TypedInputContext) (rule : TypedRule) : Bool :=
  match rule.when with
  | .catchAll _ => true
  | .predicates preds _ => preds.all (evalPredicate input)

theorem evalRule_fst (rule : TypedRule) (input : TypedInputContext) (source : String) :
    (evalRule rule input source).1 = matchesRule input rule := by
  unfold evalRule matchesRule
  cases rule.when with
  | catchAll span => rfl
  | predicates preds span => simp [Function.comp_def]

def ruleTrace (input : TypedInputContext) (source : String) (rule : TypedRule) : RuleTrace where
  ruleId := rule.ruleId
  ruleName := rule.ruleName
  matched := (evalRule rule input source).1
  predicates := (evalRule rule input source).2
  sourceSpan := rule.sourceSpan

def applyHitPolicy (hitPolicy : HitPolicy) (matched : List TypedRule) : Except EvalError TypedRule :=
  match hitPolicy, matched with
  | .unique, [] => .error .noMatch
  | .unique, [rule] => .ok rule
  | .unique, rules => .error (.multipleMatches (rules.map (·.ruleId)))
  | .first, [] => .error .noMatch
  | .first, rule :: _ => .ok rule

def assign (slots : List TypedValue) (a : TypedAssignment) : Option (List TypedValue) :=
  if a.outputField < slots.length then some (slots.set a.outputField a.value) else none

end Rules

section Inputs

/-- The 32 hexadecimal digits of a uuid, grouped as `Display` prints them. -/
def showUuid (id : BitVec 128) : String :=
  let digits := (Nat.toDigits 16 id.toNat).leftpad 32 '0'
  "-".intercalate ([(0, 8), (8, 4), (12, 4), (16, 4), (20, 12)].map fun (start, len) =>
    String.ofList ((digits.drop start).take len))

def valueTypeName : TypedValue → String
  | .enum _ _ => "enum"
  | .bool _ => "bool"
  | .integer _ => "integer"
  | .decimal _ => "decimal"
  | .str _ => "string"
  | .null => "null"

def checkInputTypeMatch (field : FieldSchema) (actual : TypedValue) : Except EvalError Unit :=
  match field.fieldType, actual with
  | .enum domain, .enum d _ =>
    if domain ≠ d then
      throw (.inputDomainMismatch field.name field.fieldId (showUuid domain)
        ("domain " ++ showUuid d))
    else pure ()
  | .bool, .bool _ | .integer, .integer _ | .decimal, .decimal _ | .decimal, .integer _
  | .str, .str _ => pure ()
  | expected, actual =>
    throw (.inputTypeMismatch field.name field.fieldId expected.typeName (valueTypeName actual))

/-- Missing and null fields are not checked. -/
def validateInputTypes (decision : TypedDecision) (input : TypedInputContext) :
    Except EvalError Unit :=
  decision.inputSchema.forM fun field =>
    match present input field.fieldId with
    | none => pure ()
    | some v => checkInputTypeMatch field v

end Inputs

variable (R : Runtime) (decision : TypedDecision) (input : TypedInputContext)

def buildOutputContext (outputSchema : List FieldSchema) (assignments : List TypedAssignment) :
    Option TypedOutputContext := do
  let slots ← assignments.foldlM assign (List.replicate outputSchema.length .null)
  return { slots, schemaHash := R.computeSchemaHash outputSchema }

def validateInput : Except EvalError Unit := do
  if R.computeSchemaHash decision.inputSchema ≠ input.schemaHash then throw .schemaHashMismatch
  if input.slots.length ≠ decision.inputSchema.length then
    throw (.inputSchemaMismatch decision.inputSchema.length input.slots.length)
  validateInputTypes decision input

def winner : Except EvalError TypedRule :=
  applyHitPolicy decision.hitPolicy (decision.rules.filter (matchesRule input))

def evaluate (source : String) : Option (Except EvalError EvaluationOutput) :=
  match validateInput R decision input >>= fun _ => winner decision input with
  | .error e => some (.error e)
  | .ok rule => do
    let output ← buildOutputContext R decision.outputSchema rule.assigns
    return .ok {
      output
      trace := { rules := decision.rules.map (ruleTrace input source)
                 outcome := .hit rule.ruleId } }

end BpmnLite.Dmn.Reference
