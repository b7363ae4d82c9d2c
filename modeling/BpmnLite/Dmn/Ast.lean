import BpmnLite.Dmn.Types

/-!
# The syntax tree of a decision

What the parser of the decision language returns and the compiler takes. Names are not resolved and
numbers are kept as their text. Input and output declarations have one shape and share a type here.
-/

namespace BpmnLite.Dmn

structure SymbolAst where
  name : String
  span : SourceSpan
  deriving DecidableEq

structure StringLitAst where
  value : String
  span : SourceSpan
  deriving DecidableEq

inductive NumberKind where
  | integer
  | decimal
  deriving DecidableEq

structure NumberLitAst where
  text : String
  kind : NumberKind
  span : SourceSpan
  deriving DecidableEq

inductive LiteralAst where
  | symbol (symbol : SymbolAst)
  | string (literal : StringLitAst)
  | number (literal : NumberLitAst)
  | boolean (value : Bool) (span : SourceSpan)
  deriving DecidableEq

def LiteralAst.span : LiteralAst → SourceSpan
  | symbol s => s.span
  | string s => s.span
  | number n => n.span
  | boolean _ span => span

inductive RangeBound where
  | unbounded (span : SourceSpan)
  | value (literal : NumberLitAst)
  deriving DecidableEq

inductive PredicateAst where
  | eq (field : SymbolAst) (value : LiteralAst) (span : SourceSpan)
  | notEq (field : SymbolAst) (value : LiteralAst) (span : SourceSpan)
  | lt (field : SymbolAst) (value : NumberLitAst) (span : SourceSpan)
  | le (field : SymbolAst) (value : NumberLitAst) (span : SourceSpan)
  | gt (field : SymbolAst) (value : NumberLitAst) (span : SourceSpan)
  | ge (field : SymbolAst) (value : NumberLitAst) (span : SourceSpan)
  | inSet (field : SymbolAst) (values : List LiteralAst) (span : SourceSpan)
  | range (field : SymbolAst) (lower upper : RangeBound) (lowerInclusive upperInclusive : Bool)
      (span : SourceSpan)
  | isNull (field : SymbolAst) (span : SourceSpan)
  | isNotNull (field : SymbolAst) (span : SourceSpan)
  | not (inner : PredicateAst) (span : SourceSpan)
  | and (items : List PredicateAst) (span : SourceSpan)
  | or (items : List PredicateAst) (span : SourceSpan)

@[induction_eliminator]
theorem PredicateAst.induction {motive : PredicateAst → Prop}
    (eq : ∀ field value span, motive (.eq field value span))
    (notEq : ∀ field value span, motive (.notEq field value span))
    (lt : ∀ field value span, motive (.lt field value span))
    (le : ∀ field value span, motive (.le field value span))
    (gt : ∀ field value span, motive (.gt field value span))
    (ge : ∀ field value span, motive (.ge field value span))
    (inSet : ∀ field values span, motive (.inSet field values span))
    (range : ∀ field lower upper lowerInclusive upperInclusive span,
      motive (.range field lower upper lowerInclusive upperInclusive span))
    (isNull : ∀ field span, motive (.isNull field span))
    (isNotNull : ∀ field span, motive (.isNotNull field span))
    (not : ∀ inner span, motive inner → motive (.not inner span))
    (and : ∀ items span, (∀ p ∈ items, motive p) → motive (.and items span))
    (or : ∀ items span, (∀ p ∈ items, motive p) → motive (.or items span))
    (p : PredicateAst) : motive p :=
  @PredicateAst.rec motive (fun items => ∀ p ∈ items, motive p)
    eq notEq lt le gt ge inSet range isNull isNotNull (fun inner span => not inner span)
    (fun items span => and items span) (fun items span => or items span)
    (by simp) (fun _ _ hhead htail => List.forall_mem_cons.mpr ⟨hhead, htail⟩) p

inductive WhenAst where
  | catchAll (span : SourceSpan)
  | predicates (preds : List PredicateAst) (span : SourceSpan)

structure AssignmentAst where
  output : SymbolAst
  value : LiteralAst
  span : SourceSpan
  deriving DecidableEq

structure RuleAst where
  id : SymbolAst
  when : WhenAst
  assigns : List AssignmentAst
  span : SourceSpan

inductive TypeRefAst where
  | enum (span : SourceSpan)
  | bool (span : SourceSpan)
  | integer (span : SourceSpan)
  | decimal (span : SourceSpan)
  | string (span : SourceSpan)
  deriving DecidableEq

inductive HitPolicyAst where
  | unique (span : SourceSpan)
  | first (span : SourceSpan)
  deriving DecidableEq

structure FieldDeclAst where
  name : SymbolAst
  typeRef : TypeRefAst
  domainRef : SymbolAst
  span : SourceSpan
  deriving DecidableEq

structure DecisionAst where
  name : SymbolAst
  decisionId : Option StringLitAst
  hitPolicy : HitPolicyAst
  inputs : List FieldDeclAst
  outputs : List FieldDeclAst
  rules : List RuleAst
  span : SourceSpan

structure Source where
  decisions : List DecisionAst
  span : SourceSpan

end BpmnLite.Dmn
