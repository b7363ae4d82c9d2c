import BpmnLite.Isa
import BpmnLite.Dmn.Intervals
import BpmnLite.Dmn.Typing

/-!
# Input regions of rules

The static analysis abstracts a rule to one region per input field. An index outside the schema and
a domain that is not in the catalogue panic in the source and give `none` here.
-/

namespace BpmnLite.Dmn

open Std (ExtTreeSet)

inductive FieldRegion where
  | empty
  | any
  | notNull
  | nullOnly
  | enumSet (domainId : DomainId) (values : BTreeSet ValueId)
  | boolSet (values : BTreeSet Bool)
  | integerInterval (set : IntervalSet)
  | decimalOpaque
  | stringSet (values : BTreeSet String)
  | stringOpaque
  | opaqueRegion (reason : String)
  deriving DecidableEq

structure RuleRegion where
  fields : List FieldRegion
  isCatchAll : Bool

namespace Region

scoped instance valueIdTransOrd : Std.TransOrd ValueId := inferInstance

section Operations

/-- A set of values, or nothing at all if there are none. -/
def orEmpty {κ : Type} [Ord κ] (make : BTreeSet κ → FieldRegion) (values : BTreeSet κ) : FieldRegion :=
  if values.isEmpty then .empty else make values

/-- Null only and anything but null only or unconstrained has no value, opaque regions included. -/
def intersect (a b : FieldRegion) : FieldRegion :=
  match a, b with
  | .empty, _ => .empty
  | _, .empty => .empty
  | .any, x => x
  | x, .any => x
  | .nullOnly, .nullOnly => .nullOnly
  | .nullOnly, _ => .empty
  | _, .nullOnly => .empty
  | .notNull, .notNull => .notNull
  | .notNull, other => other
  | other, .notNull => other
  | .enumSet d v, .enumSet d' v' => if d ≠ d' then .empty else orEmpty (.enumSet d) (v ∩ v')
  | .boolSet v, .boolSet v' => orEmpty .boolSet (v ∩ v')
  | .integerInterval s, .integerInterval t =>
    if (s.intersect t).isEmpty then .empty else .integerInterval (s.intersect t)
  | .decimalOpaque, _ => .decimalOpaque
  | _, .decimalOpaque => .decimalOpaque
  | .stringSet v, .stringSet v' => orEmpty .stringSet (v ∩ v')
  | .stringOpaque, _ => .stringOpaque
  | _, .stringOpaque => .stringOpaque
  | .opaqueRegion reason, _ => .opaqueRegion reason
  | _, .opaqueRegion reason => .opaqueRegion reason
  | _, _ => .empty

def unionField (a b : FieldRegion) : FieldRegion :=
  match a, b with
  | .empty, x => x
  | x, .empty => x
  | .any, _ => .any
  | _, .any => .any
  | .nullOnly, .nullOnly => .nullOnly
  | .notNull, .notNull => .notNull
  | .enumSet d v, .enumSet d' v' =>
    if d = d' then .enumSet d (v ∪ v') else .opaqueRegion "union of mixed region kinds"
  | .boolSet v, .boolSet v' => .boolSet (v ∪ v')
  | .integerInterval s, .integerInterval t => .integerInterval (s.union t)
  | .stringSet v, .stringSet v' => .stringSet (v ∪ v')
  | _, _ => .opaqueRegion "union of mixed region kinds"

def isSubset {κ : Type} [Ord κ] [Std.TransOrd κ] (a b : BTreeSet κ) : Bool := a.toList.all (· ∈ b)

/-- Opaque regions are only below `any`. -/
def isSubsetOf (a b : FieldRegion) : Bool :=
  match a, b with
  | .empty, _ => true
  | _, .any => true
  | .any, _ => false
  | .notNull, .notNull => true
  | .nullOnly, .nullOnly => true
  | .notNull, .nullOnly => false
  | .nullOnly, .notNull => false
  | .enumSet d v, .enumSet d' v' => d = d' && isSubset v v'
  | .boolSet v, .boolSet v' => isSubset v v'
  | .integerInterval s, .integerInterval t => (s.intersect t.complement).isEmpty
  | .stringSet v, .stringSet v' => isSubset v v'
  | .notNull, .enumSet _ _ | .notNull, .boolSet _ | .notNull, .integerInterval _
  | .notNull, .stringSet _ => false
  | .enumSet _ _, .notNull | .boolSet _, .notNull | .integerInterval _, .notNull
  | .stringSet _, .notNull => true
  | .decimalOpaque, _ | _, .decimalOpaque => false
  | .opaqueRegion _, _ | _, .opaqueRegion _ => false
  | .stringOpaque, _ | _, .stringOpaque => false
  | _, _ => false

def intersectField (fields : List FieldRegion) (field : FieldId) (other : FieldRegion) :
    Option (List FieldRegion) := do
  let region ← fields[field]?
  return fields.set field (intersect region other)

end Operations

section Tests

def catalogueValues (catalogue : Catalogue) (domainId : DomainId) : Option (BTreeSet ValueId) :=
  (catalogue.findDomainById domainId).map fun domain => ExtTreeSet.ofList domain.valueIds compare

def integerComparison (op : ComparisonOp) (v : Int64) : FieldRegion :=
  .integerInterval (match op with
    | .eq => .singleton v
    | .notEq => (IntervalSet.singleton v).complement
    | .lt => .fromRange none (some v) false false
    | .le => .fromRange none (some v) false true
    | .gt => .fromRange (some v) none false false
    | .ge => .fromRange (some v) none true false)

def comparisonRegion (catalogue : Catalogue) (ty : ResolvedType) (op : ComparisonOp)
    (rhs : TypedValue) : Option FieldRegion :=
  match op, ty, rhs with
  | .eq, .enum d, .enum _ v => some (.enumSet d (ExtTreeSet.ofList [v] compare))
  | .notEq, .enum d, .enum _ v =>
    (catalogueValues catalogue d).map fun all => .enumSet d (all.erase v)
  | .eq, .bool, .bool b => some (.boolSet (ExtTreeSet.ofList [b] compare))
  | .notEq, .bool, .bool b => some (.boolSet (ExtTreeSet.ofList [!b] compare))
  | op, .integer, .integer i => some (integerComparison op (Int64.ofInt i))
  | _, .decimal, _ => some .decimalOpaque
  | op, .str, .str s =>
    some (if op = .eq then .stringSet (ExtTreeSet.ofList [s] compare) else .stringOpaque)
  | _, _, _ => some (.opaqueRegion "unsupported comparison/type combination")

def enumOf : TypedValue → Option ValueId
  | .enum _ v => some v
  | _ => none

def boolOf : TypedValue → Option Bool
  | .bool b => some b
  | _ => none

def integerOf : TypedValue → Option Int64
  | .integer i => some (Int64.ofInt i)
  | _ => none

def strOf : TypedValue → Option String
  | .str s => some s
  | _ => none

def isDecimal : TypedValue → Bool
  | .decimal _ => true
  | _ => false

def inSetRegion (ty : ResolvedType) (values : List TypedValue) : FieldRegion :=
  match ty with
  | .enum d => .enumSet d (ExtTreeSet.ofList (values.filterMap enumOf) compare)
  | .integer => .integerInterval ((values.filterMap integerOf).foldl
      (fun set i => set.union (.singleton i)) .empty)
  | .bool => .boolSet (ExtTreeSet.ofList (values.filterMap boolOf) compare)
  | .str => .stringSet (ExtTreeSet.ofList (values.filterMap strOf) compare)
  | .decimal => .decimalOpaque

/-- The type of the field is not looked at. -/
def rangeRegion (lower upper : Option TypedValue) (lowerInclusive upperInclusive : Bool) :
    FieldRegion :=
  if lower.any isDecimal ∨ upper.any isDecimal then .decimalOpaque
  else .integerInterval (.fromRange (lower.bind integerOf) (upper.bind integerOf) lowerInclusive
    upperInclusive)

def flipped : ComparisonOp → ComparisonOp
  | .eq => .notEq
  | .notEq => .eq
  | .lt => .ge
  | .le => .gt
  | .gt => .le
  | .ge => .lt

mutual

def collectTouchedFields : TypedPredicate → BTreeSet ℕ → BTreeSet ℕ
  | .comparison field _ _ _, out => out.insert field
  | .inSet field _ _, out => out.insert field
  | .range field _ _ _ _ _, out => out.insert field
  | .isNull field _, out => out.insert field
  | .isNotNull field _, out => out.insert field
  | .not inner _, out => collectTouchedFields inner out
  | .and items _, out => collectAllTouched items out
  | .or items _, out => collectAllTouched items out

def collectAllTouched : List TypedPredicate → BTreeSet ℕ → BTreeSet ℕ
  | [], out => out
  | p :: ps, out => collectAllTouched ps (collectTouchedFields p out)

end

end Tests

section Rules

variable (schema : List FieldSchema) (catalogue : Catalogue)

def applyComparison (field : FieldId) (op : ComparisonOp) (rhs : TypedValue)
    (fields : List FieldRegion) : Option (List FieldRegion) := do
  let entry ← schema[field]?
  let region ← comparisonRegion catalogue entry.fieldType op rhs
  intersectField fields field region

def applyInSet (field : FieldId) (values : List TypedValue) (fields : List FieldRegion) :
    Option (List FieldRegion) := do
  let entry ← schema[field]?
  intersectField fields field (inSetRegion entry.fieldType values)

def blurFields (inner : TypedPredicate) (fields : List FieldRegion) : Option (List FieldRegion) :=
  (collectTouchedFields inner ∅).toList.foldlM
    (fun fields idx => intersectField fields idx (.opaqueRegion "negation of compound predicate"))
    fields

/-- A negated comparison is the opposite comparison, which null does not meet. -/
def applyNot (inner : TypedPredicate) (fields : List FieldRegion) : Option (List FieldRegion) :=
  match inner with
  | .comparison field op rhs _ => applyComparison schema catalogue field (flipped op) rhs fields
  | .isNull field _ => intersectField fields field .notNull
  | .isNotNull field _ => intersectField fields field .nullOnly
  | inner => blurFields inner fields

def unionAt (idx : ℕ) : List (List FieldRegion) → Option FieldRegion
  | [] => none
  | first :: rest => do
    let start ← first[idx]?
    rest.foldlM (fun acc branch => (branch[idx]?).map (unionField acc)) start

def applyBranches (branches : List (List FieldRegion)) (fields : List FieldRegion) :
    Option (List FieldRegion) :=
  if branches = [] then some fields
  else (List.range fields.length).foldlM (fun fields idx => do
    let union ← unionAt idx branches
    intersectField fields idx union) fields

mutual

def applyPredicate : TypedPredicate → List FieldRegion → Option (List FieldRegion)
  | .comparison field op rhs _, fields => applyComparison schema catalogue field op rhs fields
  | .inSet field values _, fields => applyInSet schema field values fields
  | .range field lower upper lowerInclusive upperInclusive _, fields =>
    intersectField fields field (rangeRegion lower upper lowerInclusive upperInclusive)
  | .isNull field _, fields => intersectField fields field .nullOnly
  | .isNotNull field _, fields => intersectField fields field .notNull
  | .not inner _, fields => applyNot schema catalogue inner fields
  | .and items _, fields => applyAll items fields
  | .or items _, fields => do
    let branches ← branchRegions items
    applyBranches branches fields

def applyAll : List TypedPredicate → List FieldRegion → Option (List FieldRegion)
  | [], fields => some fields
  | p :: ps, fields => do
    let fields ← applyPredicate p fields
    applyAll ps fields

def branchRegions : List TypedPredicate → Option (List (List FieldRegion))
  | [] => some []
  | p :: ps => do
    let branch ← applyPredicate p (List.replicate schema.length .any)
    let branches ← branchRegions ps
    return branch :: branches

end

def computeOne (rule : TypedRule) : Option RuleRegion :=
  match rule.when with
  | .catchAll _ => some ⟨List.replicate schema.length .any, true⟩
  | .predicates preds _ =>
    (applyAll schema catalogue preds (List.replicate schema.length .any)).map (⟨·, false⟩)

end Rules

def computeAll (decision : TypedDecision) (catalogue : Catalogue) : Option (List RuleRegion) :=
  decision.rules.mapM (computeOne decision.inputSchema catalogue)

end Region

end BpmnLite.Dmn
