import BpmnLite.Collect
import BpmnLite.Dmn.Ast
import BpmnLite.Dmn.Typing

/-!
# Lowering a decision to its typed form

`lower` resolves the declared fields against a catalogue and types every predicate and assignment.
It reports what is wrong and goes on, leaving out what it could not type. The name maps of the source
are association lists here, and the integers of `str::parse` are read digit by digit.
-/

namespace BpmnLite.Dmn

open Collect (fail giveUp report attempt reportIf strictly)

inductive CompileError where
  | unknownDomain (name : String) (span : SourceSpan)
  | unknownDomainValue (domain symbol : String) (span : SourceSpan)
  | unknownInputField (name : String) (span : SourceSpan)
  | unknownOutputField (name : String) (span : SourceSpan)
  | duplicateInputField (name : String) (span previous : SourceSpan)
  | duplicateOutputField (name : String) (span previous : SourceSpan)
  | duplicateRuleId (name : String) (span previous : SourceSpan)
  | predicateTypeMismatch (field fieldType literalType : String) (span : SourceSpan)
  | orderedComparisonOnNonNumeric (field fieldType op : String) (span : SourceSpan)
  | rangeOnNonNumeric (field fieldType : String) (span : SourceSpan)
  | setMemberTypeMismatch (field fieldType elementType : String) (index : ℕ) (span : SourceSpan)
  | assignmentTypeMismatch (output outputType literalType : String) (span : SourceSpan)
  | missingOutputAssignment (rule output : String) (span : SourceSpan)
  | duplicateOutputAssignment (rule output : String) (span previous : SourceSpan)
  | multipleCatchAllRules (span previous : SourceSpan)
  | unreachableAfterCatchAll (rule : String) (span catchAll : SourceSpan)
  | emptyInputs (span : SourceSpan)
  | emptyOutputs (span : SourceSpan)
  deriving DecidableEq

inductive CompileWarning where
  | domainOnNonEnum (field typeName domain : String) (span : SourceSpan)
  | emptyRules (span : SourceSpan)
  deriving DecidableEq

namespace Lower

structure Notes where
  warnings : List CompileWarning
  entities : List EntityRef

abbrev LowerM := Collect CompileError Notes

def warn (w : CompileWarning) : LowerM Unit :=
  Collect.update fun notes => { notes with warnings := notes.warnings ++ [w] }

def recordEntity (e : EntityRef) : LowerM Unit :=
  Collect.update fun notes => { notes with entities := notes.entities ++ [e] }

section Numbers

def digitsValue (digits : List Char) : Option ℕ :=
  if digits ≠ [] ∧ digits.all (fun c => '0' ≤ c && c ≤ '9') then
    some (digits.foldl (fun n c => 10 * n + (c.toNat - '0'.toNat)) 0)
  else none

/-- `str::parse::<i64>`: an optional sign, then digits, with the value in range. -/
def parseI64 (text : String) : Option ℤ :=
  let value : Option ℤ :=
    match text.toList with
    | '-' :: digits => (digitsValue digits).map fun n => -(n : ℤ)
    | '+' :: digits => (digitsValue digits).map fun n => (n : ℤ)
    | digits => (digitsValue digits).map fun n => (n : ℤ)
  value.filter fun i => -2 ^ 63 ≤ i ∧ i < 2 ^ 63

/-- The field is not named in these errors. -/
def parseInteger (text : String) (span : SourceSpan) : LowerM TypedValue :=
  match parseI64 text with
  | some i => pure (.integer i)
  | none => fail (.predicateTypeMismatch "" "integer" "overflow" span)

def parseDecimal (R : Runtime) (text : String) (span : SourceSpan) : LowerM TypedValue :=
  match R.parseF64 text with
  | some f => pure (.decimal f)
  | none => fail (.predicateTypeMismatch "" "decimal" "overflow" span)

/-- Called on numeric types only; the source has an `unreachable!` for the others. -/
def lowerNumberForType (R : Runtime) (n : NumberLitAst) (ty : ResolvedType) : LowerM TypedValue :=
  match ty with
  | .integer =>
    if n.kind = .decimal then
      fail (.predicateTypeMismatch "" "integer" "decimal" n.span)
    else parseInteger n.text n.span
  | .decimal => parseDecimal R n.text n.span
  | _ => giveUp

end Numbers

section Literals

def literalTypeName : LiteralAst → String
  | .symbol _ => "symbol"
  | .string _ => "string"
  | .number n => if n.kind = .integer then "integer" else "decimal"
  | .boolean _ _ => "bool"

def typeNameOf : TypedValue → String
  | .enum _ _ => "enum"
  | .bool _ => "bool"
  | .integer _ => "integer"
  | .decimal _ => "decimal"
  | .str _ => "string"
  | .null => "null"

def typeMismatch (isAssignment : Bool) (field fieldType literalType : String) (span : SourceSpan) :
    CompileError :=
  if isAssignment then .assignmentTypeMismatch field fieldType literalType span
  else .predicateTypeMismatch field fieldType literalType span

/-- A domain that is not there is given up without an error. -/
def lowerEnumLiteral (catalogue : Catalogue) (domainId : DomainId) (symbol : SymbolAst) :
    LowerM TypedValue :=
  match catalogue.findDomainById domainId with
  | none => giveUp
  | some domain =>
    match domain.resolveValue symbol.name with
    | some valueId => do
      recordEntity ⟨domainId, valueId, symbol.span⟩
      return .enum domainId valueId
    | none => fail (.unknownDomainValue domain.name symbol.name symbol.span)

def lowerLiteral (R : Runtime) (catalogue : Catalogue) (isAssignment : Bool) (literal : LiteralAst)
    (ty : ResolvedType) (field : String) : LowerM TypedValue :=
  match ty, literal with
  | .enum domainId, .symbol symbol => lowerEnumLiteral catalogue domainId symbol
  | .bool, .boolean value _ => pure (.bool value)
  | .integer, .number n =>
    if n.kind = .integer then parseInteger n.text n.span
    else fail (typeMismatch isAssignment field "integer" "decimal" n.span)
  | .decimal, .number n => parseDecimal R n.text n.span
  | .str, .string s => pure (.str s.value)
  | ty, other => fail
      (typeMismatch isAssignment field ty.typeName (literalTypeName other) other.span)

end Literals

section Schemas

/-- Maps from names; an entry added later hides an earlier one. -/
abbrev NameMap (α : Type) := List (String × α)

def advisoryType (catalogue : Catalogue) (name domainRef : SymbolAst) (ty : ResolvedType) :
    LowerM ResolvedType :=
  if catalogue.resolveDomain domainRef.name = none then
    fail (.unknownDomain domainRef.name domainRef.span)
  else do
    warn (.domainOnNonEnum name.name ty.typeName domainRef.name domainRef.span)
    return ty

def resolveFieldType (catalogue : Catalogue) (name : SymbolAst) (typeRef : TypeRefAst)
    (domainRef : SymbolAst) : LowerM ResolvedType :=
  match typeRef with
  | .enum _ =>
    match catalogue.resolveDomain domainRef.name with
    | some domain => pure (.enum domain.domainId)
    | none => fail (.unknownDomain domainRef.name domainRef.span)
  | .bool _ => advisoryType catalogue name domainRef .bool
  | .integer _ => advisoryType catalogue name domainRef .integer
  | .decimal _ => advisoryType catalogue name domainRef .decimal
  | .string _ => advisoryType catalogue name domainRef .str

structure Schemas where
  schema : List FieldSchema
  nameMap : NameMap FieldId

/-- The loop of `resolve_field_schema`: a declaration that fails is fatal, but the others are still
looked at. -/
def resolveDecls (catalogue : Catalogue) (isInput : Bool) :
    ℕ → NameMap SourceSpan → List FieldDeclAst → LowerM (List FieldSchema × NameMap FieldId × Bool)
  | _, _, [] => pure ([], [], false)
  | idx, seen, decl :: decls =>
    let name := decl.name.name
    match seen.lookup name with
    | some previous => do
      report (if isInput then .duplicateInputField name decl.name.span previous
        else .duplicateOutputField name decl.name.span previous)
      let (schema, nameMap, _) ← resolveDecls catalogue isInput (idx + 1) seen decls
      return (schema, nameMap, true)
    | none => do
      let ty ← attempt (resolveFieldType catalogue decl.name decl.typeRef decl.domainRef)
      let (schema, nameMap, hadFatal) ←
        resolveDecls catalogue isInput (idx + 1) ((name, decl.name.span) :: seen) decls
      match ty with
      | some fieldType =>
        return (⟨idx, name, fieldType, decl.span⟩ :: schema, (name, idx) :: nameMap, hadFatal)
      | none => return (schema, nameMap, true)

def resolveFieldSchema (catalogue : Catalogue) (isInput : Bool) (decls : List FieldDeclAst) :
    LowerM Schemas := do
  let (schema, nameMap, hadFatal) ← resolveDecls catalogue isInput 0 [] decls
  if hadFatal then giveUp else return ⟨schema, nameMap⟩

end Schemas

section Predicates

variable (R : Runtime) (catalogue : Catalogue) (inputs : Schemas)

/-- The id in the map indexes the schema; the source panics if it does not. -/
def resolveInputField (field : SymbolAst) : LowerM (FieldId × ResolvedType) :=
  match inputs.nameMap.lookup field.name with
  | none => fail (.unknownInputField field.name field.span)
  | some id =>
    match inputs.schema[id]? with
    | none => giveUp
    | some entry => pure (id, entry.fieldType)

def lowerLiteralComparison (field : SymbolAst) (op : ComparisonOp) (value : LiteralAst)
    (span : SourceSpan) : LowerM TypedPredicate := do
  let (id, ty) ← resolveInputField inputs field
  let rhs ← lowerLiteral R catalogue false value ty field.name
  return .comparison id op rhs span

def opText : ComparisonOp → String
  | .eq => "="
  | .notEq => "!="
  | .lt => "<"
  | .le => "<="
  | .gt => ">"
  | .ge => ">="

def lowerComparisonPred (field : SymbolAst) (op : ComparisonOp) (value : NumberLitAst)
    (span : SourceSpan) : LowerM TypedPredicate := do
  let (id, ty) ← resolveInputField inputs field
  if ty.isNumeric then
    let rhs ← lowerNumberForType R value ty
    return .comparison id op rhs span
  else fail (.orderedComparisonOnNonNumeric field.name ty.typeName (opText op) span)

/-- The members of a set; those that fail are left out. An enum member is recorded a second time,
and every member is compared with the first one kept. -/
def lowerSetValues (field : String) (ty : ResolvedType) :
    ℕ → Option TypedValue → List LiteralAst → LowerM (List TypedValue)
  | _, _, [] => pure []
  | index, first, literal :: literals => do
    match ← attempt (lowerLiteral R catalogue false literal ty field) with
    | none => lowerSetValues field ty (index + 1) first literals
    | some v => do
      match v with
      | .enum domainId valueId => recordEntity ⟨domainId, valueId, literal.span⟩
      | _ => pure ()
      reportIf (∃ w ∈ first, typeNameOf w ≠ typeNameOf v)
        (.setMemberTypeMismatch field ty.typeName (typeNameOf v) index literal.span)
      let rest ← lowerSetValues field ty (index + 1) (first.or (some v)) literals
      return v :: rest

def lowerRangeBound (bound : RangeBound) (ty : ResolvedType) : LowerM (Option TypedValue) :=
  match bound with
  | .unbounded _ => pure none
  | .value n => attempt (lowerNumberForType R n ty)

def lowerRange (field : SymbolAst) (lower upper : RangeBound) (lowerInclusive upperInclusive : Bool)
    (span : SourceSpan) : LowerM TypedPredicate := do
  let (id, ty) ← resolveInputField inputs field
  if ty.isNumeric then
    let lower ← lowerRangeBound R lower ty
    let upper ← lowerRangeBound R upper ty
    return .range id lower upper lowerInclusive upperInclusive span
  else fail (.rangeOnNonNumeric field.name ty.typeName span)

def lowerInSet (field : SymbolAst) (values : List LiteralAst) (span : SourceSpan) :
    LowerM TypedPredicate := do
  let (id, ty) ← resolveInputField inputs field
  let values ← lowerSetValues R catalogue field.name ty 0 none values
  return .inSet id values span

mutual

def lowerPredicate : PredicateAst → LowerM TypedPredicate
  | .eq field value span => lowerLiteralComparison R catalogue inputs field .eq value span
  | .notEq field value span => lowerLiteralComparison R catalogue inputs field .notEq value span
  | .lt field value span => lowerComparisonPred R inputs field .lt value span
  | .le field value span => lowerComparisonPred R inputs field .le value span
  | .gt field value span => lowerComparisonPred R inputs field .gt value span
  | .ge field value span => lowerComparisonPred R inputs field .ge value span
  | .inSet field values span => lowerInSet R catalogue inputs field values span
  | .range field lower upper lowerInclusive upperInclusive span =>
    lowerRange R inputs field lower upper lowerInclusive upperInclusive span
  | .isNull field span => do
    let (id, _) ← resolveInputField inputs field
    return .isNull id span
  | .isNotNull field span => do
    let (id, _) ← resolveInputField inputs field
    return .isNotNull id span
  | .not inner span => do
    let inner ← lowerPredicate inner
    return .not inner span
  | .and items span => do
    let items ← lowerPredicates items
    return .and items span
  | .or items span => do
    let items ← lowerPredicates items
    return .or items span

/-- Predicates that fail are left out. -/
def lowerPredicates : List PredicateAst → LowerM (List TypedPredicate)
  | [] => pure []
  | p :: ps => do
    let q ← attempt (lowerPredicate p)
    let qs ← lowerPredicates ps
    return q.toList ++ qs

end

def lowerWhen : WhenAst → LowerM TypedWhen
  | .catchAll span => pure (.catchAll span)
  | .predicates preds span => do
    let preds ← lowerPredicates R catalogue inputs preds
    return .predicates preds span

end Predicates

section Rules

variable (R : Runtime) (catalogue : Catalogue)

/-- The loop over the assignments of a rule. A field counts as assigned even if its literal fails;
`assigned` at the end tells which fields those are. -/
def lowerAssignments (rule : String) (outputs : Schemas) :
    List (FieldId × SourceSpan) → List AssignmentAst →
      LowerM (List TypedAssignment × List (FieldId × SourceSpan))
  | assigned, [] => pure ([], assigned)
  | assigned, a :: rest =>
    match outputs.nameMap.lookup a.output.name with
    | none => do
      report (.unknownOutputField a.output.name a.output.span)
      lowerAssignments rule outputs assigned rest
    | some id =>
      match outputs.schema[id]? with
      | none => giveUp
      | some entry =>
        match assigned.lookup id with
        | some previous => do
          report (.duplicateOutputAssignment rule a.output.name a.span previous)
          lowerAssignments rule outputs assigned rest
        | none => do
          let value ← attempt
            (lowerLiteral R catalogue true a.value entry.fieldType a.output.name)
          let (typed, assigned) ← lowerAssignments rule outputs ((id, a.span) :: assigned) rest
          return ((value.map fun v => ⟨id, v, a.span⟩).toList ++ typed, assigned)

def reportMissing (rule : String) (span : SourceSpan) (assigned : List (FieldId × SourceSpan)) :
    List FieldSchema → LowerM Unit
  | [] => pure ()
  | field :: fields => do
    reportIf (assigned.lookup field.fieldId = none)
      (.missingOutputAssignment rule field.name span)
    reportMissing rule span assigned fields

def lowerThen (rule : String) (outputs : Schemas) (assigns : List AssignmentAst) :
    LowerM (List TypedAssignment) := do
  let (typed, assigned) ← lowerAssignments R catalogue rule outputs [] assigns
  let span := (assigns.getLast?.map (·.span)).getD ⟨0, 0⟩
  reportMissing rule span assigned outputs.schema
  return typed

def checkRuleIds : NameMap SourceSpan → List RuleAst → LowerM Unit
  | _, [] => pure ()
  | seen, rule :: rules =>
    match seen.lookup rule.id.name with
    | some previous => do
      report (.duplicateRuleId rule.id.name rule.id.span previous)
      checkRuleIds seen rules
    | none => checkRuleIds ((rule.id.name, rule.id.span) :: seen) rules

/-- Catch-all tracking: the span of the first one, and a report on a second one or, under FIRST, on
a rule behind it. -/
def checkCatchAll (policy : HitPolicy) (catchAll : Option SourceSpan) (rule : RuleAst) :
    LowerM (Option SourceSpan) :=
  match rule.when, catchAll with
  | .catchAll span, some previous => do
    report (.multipleCatchAllRules span previous)
    return some previous
  | .catchAll span, none => pure (some span)
  | .predicates _ _, some span => do
    reportIf (policy = .first) (.unreachableAfterCatchAll rule.id.name rule.span span)
    return some span
  | .predicates _ _, none => pure none

def lowerRules (policy : HitPolicy) (inputs outputs : Schemas) :
    ℕ → Option SourceSpan → List RuleAst → LowerM (List TypedRule)
  | _, _, [] => pure []
  | idx, catchAll, rule :: rules => do
    let catchAll ← checkCatchAll policy catchAll rule
    let when ← lowerWhen R catalogue inputs rule.when
    let assigns ← lowerThen R catalogue rule.id.name outputs rule.assigns
    let rest ← lowerRules policy inputs outputs (idx + 1) catchAll rules
    return ⟨idx, rule.id.name, when, assigns, rule.span⟩ :: rest

def hitPolicyOf : HitPolicyAst → HitPolicy
  | .unique _ => .unique
  | .first _ => .first

/-- The schemas come first; nothing else is looked at if anything is wrong with them. -/
def lowerSchemas (ast : DecisionAst) : LowerM (Schemas × Schemas) := do
  let (inputs, outputs) ← strictly do
    let inputs ← resolveFieldSchema catalogue true ast.inputs
    let outputs ← resolveFieldSchema catalogue false ast.outputs
    return (inputs, outputs)
  strictly do
    reportIf (ast.inputs = []) (.emptyInputs ast.span)
    reportIf (ast.outputs = []) (.emptyOutputs ast.span)
  return (inputs, outputs)

def lowerDecision (ast : DecisionAst) : LowerM TypedDecision := do
  let (inputs, outputs) ← lowerSchemas catalogue ast
  if ast.rules.isEmpty then warn (.emptyRules ast.span)
  checkRuleIds [] ast.rules
  let policy := hitPolicyOf ast.hitPolicy
  let rules ← lowerRules R catalogue policy inputs outputs 0 none ast.rules
  let notes ← Collect.read
  return {
    decisionId := (ast.decisionId.map (·.value)).getD ast.name.name
    name := ast.name.name
    hitPolicy := policy
    inputSchema := inputs.schema
    outputSchema := outputs.schema
    rules
    resolvedEntities := notes.entities
    sourceSpan := ast.span }

end Rules

end Lower

structure LowerResult where
  decision : Option TypedDecision
  errors : List CompileError
  warnings : List CompileWarning

def lower (R : Runtime) (catalogue : Catalogue) (ast : DecisionAst) : LowerResult :=
  match Lower.lowerDecision R catalogue ast ⟨[], []⟩ with
  | (decision, errors, notes) => ⟨decision, errors, notes.warnings⟩

/-- `lower_to_ir_with_warnings`: the first decision of a source. -/
def lowerToIr (R : Runtime) (catalogue : Catalogue) (source : Source) : LowerResult :=
  match source.decisions with
  | [] => ⟨none, [.emptyInputs source.span], []⟩
  | ast :: _ => lower R catalogue ast

end BpmnLite.Dmn
