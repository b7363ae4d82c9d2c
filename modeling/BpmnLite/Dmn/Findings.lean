import BpmnLite.Collect
import BpmnLite.Dmn.RegionSound

/-!
# Findings

What the static analyses report. They all start from the regions of the rules, which are there for
every well-typed decision (`computeAll_isSome`).
-/

namespace BpmnLite.Dmn

inductive FieldOverlap where
  | any
  | enumSet (values : List ValueId)
  | integerInterval (lower upper : Option Int64) (lowerInclusive upperInclusive : Bool)
  | boolean (value : Bool)
  | stringOpaque (description : String)
  | opaqueOverlap (reason : String)
  deriving DecidableEq

structure OverlapSummary where
  perField : List FieldOverlap
  deriving DecidableEq

inductive Severity where
  | error
  | warning
  | info
  deriving DecidableEq, Repr

inductive FindingKind where
  | uniqueWithCatchAll (catchAllRule : RuleId)
  | overlap (ruleA ruleB : RuleId) (overlapSummary : OverlapSummary)
  | unreachableRule (unreachable shadowing : RuleId)
  deriving DecidableEq

structure AnalysisFinding where
  severity : Severity
  kind : FindingKind
  sourceSpan : SourceSpan
  description : String
  deriving DecidableEq

structure AnalysisConfig where
  emitInfo : Bool

def TypedWhen.isCatchAll : TypedWhen → Bool
  | .catchAll _ => true
  | .predicates _ _ => false

namespace Region

open Collect

variable {catalogue : Catalogue} {schema : List FieldSchema} {decision : TypedDecision}
  {regions : List RuleRegion}

theorem computeOne_isSome {rule : TypedRule}
    (htyped : ∀ p ∈ rule.when.preds, p.WellTyped catalogue schema) :
    ∃ region, computeOne schema catalogue rule = some region ∧
      region.isCatchAll = rule.when.isCatchAll := by
  cases hwhen : rule.when with
  | catchAll span =>
    refine ⟨⟨List.replicate schema.length .any, true⟩, ?_, rfl⟩
    rw [computeOne, hwhen]
  | predicates preds span =>
    rw [hwhen] at htyped
    exact ⟨_, computeOne_eq hwhen htyped, rfl⟩

def RegionsFor (catalogue : Catalogue) (decision : TypedDecision) (regions : List RuleRegion) : Prop :=
  List.Forall₂ (fun rule region => computeOne decision.inputSchema catalogue rule = some region)
    decision.rules regions

theorem computeAll_isSome (htyped : decision.WellTyped catalogue) :
    ∃ regions, computeAll decision catalogue = some regions ∧ RegionsFor catalogue decision regions :=
  exists_mapM fun rule hrule =>
    (computeOne_isSome (htyped.rules rule hrule).preds).imp fun _ h => h.1

theorem RegionsFor.getElem? (hregions : RegionsFor catalogue decision regions) {a : ℕ}
    {rule : TypedRule} (hrule : decision.rules[a]? = some rule) :
    ∃ region, regions[a]? = some region ∧
      computeOne decision.inputSchema catalogue rule = some region := by
  obtain ⟨ha, rfl⟩ := List.getElem?_eq_some_iff.mp hrule
  have ha' : a < regions.length := hregions.length_eq ▸ ha
  exact ⟨regions[a], List.getElem?_eq_getElem ha', (List.forall₂_iff_get.mp hregions).2 a ha ha'⟩

end Region

end BpmnLite.Dmn
