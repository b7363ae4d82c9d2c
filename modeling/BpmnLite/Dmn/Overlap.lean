import BpmnLite.Dmn.Findings

/-!
# Overlap analysis

`overlap::analyse` compares the regions of every two rules and reports the pairs that share a region;
`hitPolicyCheck` reports a catch-all rule under UNIQUE. If two rules match one input then their pair
is reported, where null is not lost from the regions (`NullClear`).
-/

namespace BpmnLite.Dmn

variable {b a : ℕ} {regionA : RuleRegion} {second first : List TypedPredicate}
  {input : TypedInputContext} {ruleA ruleB : TypedRule}

namespace Overlap

open Collect Reference Region

section Analysis

def boundParts : Bound → Option Int64 × Bool
  | .inclusive v => (some v, true)
  | .exclusive v => (some v, false)
  | .unbounded => (none, false)

-- How `Debug` prints a string.
variable (debugStr : String → String)

def debugSet (values : BTreeSet String) : String :=
  "\x7b" ++ ", ".intercalate (values.toList.map debugStr) ++ "\x7d"

/-- An empty region, which the caller rules out, panics. -/
def fieldRegionToOverlap : FieldRegion → Option FieldOverlap
  | .any => some .any
  | .notNull => some (.opaqueOverlap "any non-null value")
  | .nullOnly => some (.opaqueOverlap "null only")
  | .enumSet _ values => some (.enumSet values.toList)
  | .boolSet values =>
    match values.toList with
    | [b] => some (.boolean b)
    | _ => some (.opaqueOverlap "both boolean values")
  | .integerInterval set =>
    match set.intervals with
    | [] => some (.opaqueOverlap "empty interval (should not happen)")
    | first :: _ =>
      let (lower, lowerInclusive) := boundParts first.lower
      let (upper, upperInclusive) := boundParts first.upper
      some (.integerInterval lower upper lowerInclusive upperInclusive)
  | .decimalOpaque => some (.opaqueOverlap "decimal field (v0.1 limitation)")
  | .stringSet values => some (.stringOpaque ("string values: " ++ debugSet debugStr values))
  | .stringOpaque => some (.stringOpaque "string field (opaque)")
  | .opaqueRegion reason => some (.opaqueOverlap reason)
  | .empty => none

def intersectFields (fa fb : FieldRegion) : Option FieldOverlap :=
  match intersect fa fb with
  | .empty => none
  | merged => fieldRegionToOverlap debugStr merged

/-- The first field on which the rules have nothing in common ends the comparison. -/
def intersectRegions (a b : RuleRegion) : Option OverlapSummary :=
  ((a.fields.zip b.fields).mapM fun (fa, fb) => intersectFields debugStr fa fb).map (⟨·⟩)

def overlapSeverity : HitPolicy → Severity
  | .unique => .warning
  | .first => .info

def overlapFinding (hitPolicy : HitPolicy) (ruleA ruleB : TypedRule) (summary : OverlapSummary) :
    AnalysisFinding where
  severity := overlapSeverity hitPolicy
  kind := .overlap ruleA.ruleId ruleB.ruleId summary
  sourceSpan := ruleA.sourceSpan
  description := "rules " ++ ruleA.ruleName ++ " and " ++ ruleB.ruleName ++
    " share a non-empty input region"

variable (decision : TypedDecision) (regions : List RuleRegion) (config : AnalysisConfig)

def analysePair (a b : ℕ) : Option (List AnalysisFinding) := do
  let regionB ← regions[b]?
  if regionB.isCatchAll then return []
  let regionA ← regions[a]?
  let ruleA ← decision.rules[a]?
  let ruleB ← decision.rules[b]?
  if overlapSeverity decision.hitPolicy = .info ∧ config.emitInfo = false then return []
  return ((intersectRegions debugStr regionA regionB).map
    (overlapFinding decision.hitPolicy ruleA ruleB)).toList

def analyseRule (a : ℕ) : Option (List AnalysisFinding) := do
  let regionA ← regions[a]?
  if regionA.isCatchAll then return []
  let found ← ((List.range decision.rules.length).drop (a + 1)).mapM
    (analysePair debugStr decision regions config a)
  return found.flatten

def analyse : Option (List AnalysisFinding) := do
  let found ← (List.range decision.rules.length).mapM (analyseRule debugStr decision regions config)
  return found.flatten

def hitPolicyCheck : Option AnalysisFinding :=
  if decision.hitPolicy ≠ .unique then none else
    (decision.rules.find? (·.when.isCatchAll)).map fun rule => {
      severity := .error
      kind := .uniqueWithCatchAll rule.ruleId
      sourceSpan := rule.sourceSpan
      description := "rule " ++ rule.ruleName ++ " is a catch-all under :hit-policy unique; " ++
        "will always produce MultipleMatches when any specific rule fires" }

end Analysis

section Completeness

variable {debugStr : String → String} {catalogue : Catalogue} {schema : List FieldSchema}
  {decision : TypedDecision} {regions : List RuleRegion} {config : AnalysisConfig}

theorem intersectFields_isSome {fa fb : FieldRegion} (h : intersect fa fb ≠ .empty) :
    ∃ overlap, intersectFields debugStr fa fb = some overlap := by
  unfold intersectFields
  generalize intersect fa fb = merged at h
  cases merged with
  | empty => exact absurd rfl h
  | boolSet values =>
    simp only [fieldRegionToOverlap]
    split <;> exact ⟨_, rfl⟩
  | integerInterval set =>
    simp only [fieldRegionToOverlap]
    split <;> exact ⟨_, rfl⟩
  | _ => exact ⟨_, rfl⟩

theorem intersectRegions_isSome (debugStr : String → String) {preds preds' : List TypedPredicate}
    (htyped : ∀ p ∈ preds, p.WellTyped catalogue schema)
    (htyped' : ∀ p ∈ preds', p.WellTyped catalogue schema)
    (hinput : InputConforms catalogue schema input) (h : ∀ p ∈ preds, evalPredicate input p = true)
    (h' : ∀ p ∈ preds', evalPredicate input p = true)
    (hclear : ∀ f < schema.length, present input f = none → NullClear f (preds ++ preds')) :
    ∃ summary, intersectRegions debugStr ⟨ruleFields schema catalogue preds, false⟩
      ⟨ruleFields schema catalogue preds', false⟩ = some summary := by
  have hfields : ∀ pair ∈ (ruleFields schema catalogue preds).zip (ruleFields schema catalogue preds'),
      ∃ overlap, intersectFields debugStr pair.1 pair.2 = some overlap := by
    intro pair hpair
    obtain ⟨f, hf, rfl⟩ := List.getElem_of_mem hpair
    have hlt : f < schema.length := by simpa using hf
    rw [List.getElem_zip]
    apply intersectFields_isSome
    rw [getElem_ruleFields, getElem_ruleFields]
    exact intersect_ne_empty htyped htyped' hinput h h' hlt (hclear f hlt)
  obtain ⟨overlaps, hoverlaps, -⟩ := exists_mapM hfields
  exact ⟨⟨overlaps⟩, congrArg (Option.map _) hoverlaps⟩

theorem analysePair_isSome (hregions : RegionsFor catalogue decision regions)
    (ha : a < decision.rules.length) (hb : b < decision.rules.length) :
    ∃ found, analysePair debugStr decision regions config a b = some found := by
  obtain ⟨regionA, hregionA, -⟩ := hregions.getElem? (List.getElem?_eq_getElem ha)
  obtain ⟨regionB, hregionB, -⟩ := hregions.getElem? (List.getElem?_eq_getElem hb)
  simp only [analysePair, hregionA, hregionB, List.getElem?_eq_getElem ha,
    List.getElem?_eq_getElem hb, Option.bind_eq_bind, Option.bind_some]
  split
  case isTrue => exact ⟨_, rfl⟩
  case isFalse => split <;> exact ⟨_, rfl⟩

theorem analyseRule_spec (hregions : RegionsFor catalogue decision regions)
    (hregionA : regions[a]? = some regionA) (ha : a < decision.rules.length) :
    ∃ found, analyseRule debugStr decision regions config a = some found ∧
      (regionA.isCatchAll = false → ∀ b, a < b → b < decision.rules.length →
        ∃ pair, analysePair debugStr decision regions config a b = some pair ∧ pair ⊆ found) := by
  have hpairs : ∀ b ∈ (List.range decision.rules.length).drop (a + 1),
      ∃ found, analysePair debugStr decision regions config a b = some found :=
    fun b hb => analysePair_isSome hregions ha (List.mem_range.mp (List.mem_of_mem_drop hb))
  obtain ⟨found, hfound, hall⟩ := exists_mapM hpairs
  simp only [analyseRule, hregionA, Option.bind_eq_bind, Option.bind_some]
  split
  case isTrue hcatch => exact ⟨[], rfl, fun h => by rw [hcatch] at h; cases h⟩
  case isFalse =>
    rw [hfound]
    refine ⟨found.flatten, rfl, fun _ b hab hb => ?_⟩
    have hmem : b ∈ (List.range decision.rules.length).drop (a + 1) := by
      rw [List.mem_drop_iff_getElem]
      exact ⟨b - (a + 1), by rw [List.length_range]; omega, by rw [List.getElem_range]; omega⟩
    obtain ⟨pair, hpair, heq⟩ := exists_of_forall₂_left hall hmem
    exact ⟨pair, heq, fun _ hx => List.mem_flatten.mpr ⟨pair, hpair, hx⟩⟩

theorem analyse_spec (debugStr : String → String) (config : AnalysisConfig)
    (hregions : RegionsFor catalogue decision regions) :
    ∃ findings, analyse debugStr decision regions config = some findings ∧
      ∀ (a b : ℕ) (regionA : RuleRegion), regions[a]? = some regionA →
        regionA.isCatchAll = false → a < b → b < decision.rules.length →
        ∃ pair, analysePair debugStr decision regions config a b = some pair ∧ pair ⊆ findings := by
  have hrules : ∀ a ∈ List.range decision.rules.length,
      ∃ found, analyseRule debugStr decision regions config a = some found := by
    intro a ha
    obtain ⟨regionA, hregionA, -⟩ :=
      hregions.getElem? (List.getElem?_eq_getElem (List.mem_range.mp ha))
    exact (analyseRule_spec hregions hregionA (List.mem_range.mp ha)).imp fun _ h => h.1
  obtain ⟨found, hfound, hall⟩ := exists_mapM hrules
  refine ⟨found.flatten, ?_, fun a b regionA hregionA hspecific hab hb => ?_⟩
  · rw [analyse, hfound]
    rfl
  · have ha : a < decision.rules.length := hab.trans hb
    obtain ⟨reported, hmem, heq⟩ := exists_of_forall₂_left hall (List.mem_range.mpr ha)
    obtain ⟨_, hrule, hpairs⟩ := analyseRule_spec hregions hregionA ha
    obtain rfl := Option.mem_unique heq hrule
    obtain ⟨pair, hpair, hsub⟩ := hpairs hspecific b hab hb
    exact ⟨pair, hpair, fun _ hx => List.mem_flatten.mpr ⟨_, hmem, hsub hx⟩⟩

theorem analysePair_eq (hunique : decision.hitPolicy = .unique) {regionB : RuleRegion}
    {summary : OverlapSummary} (hregionA : regions[a]? = some regionA)
    (hregionB : regions[b]? = some regionB) (hruleA : decision.rules[a]? = some ruleA)
    (hruleB : decision.rules[b]? = some ruleB) (hspecific : regionB.isCatchAll = false)
    (hsummary : intersectRegions debugStr regionA regionB = some summary) :
    analysePair debugStr decision regions config a b =
      some [overlapFinding .unique ruleA ruleB summary] := by
  simp only [analysePair, hregionA, hregionB, hruleA, hruleB, hunique, hspecific, hsummary,
    overlapSeverity, Option.bind_eq_bind, Option.bind_some]
  rfl

/-- A rule that matches and is not a catch-all. -/
structure Fires (input : TypedInputContext) (rule : TypedRule) : Prop where
  specific : rule.when.isCatchAll = false
  matched : matchesRule input rule = true

theorem Fires.predicates {rule : TypedRule} (h : Fires input rule) :
    ∃ preds span, rule.when = .predicates preds span ∧ ∀ p ∈ preds, evalPredicate input p = true := by
  obtain ⟨hspecific, hmatched⟩ := h
  unfold matchesRule at hmatched
  cases hwhen : rule.when with
  | catchAll span =>
    rw [hwhen] at hspecific
    cases hspecific
  | predicates preds span =>
    rw [hwhen] at hmatched
    exact ⟨preds, span, rfl, List.all_eq_true.mp hmatched⟩

/-- Null is not lost from the regions of two rules at the fields where the input is null. -/
def PairClear (decision : TypedDecision) (input : TypedInputContext) (ruleA ruleB : TypedRule) : Prop :=
  ∀ f < decision.inputSchema.length, present input f = none →
    NullClear f (ruleA.when.preds ++ ruleB.when.preds)

theorem exists_finding (htyped : decision.WellTyped catalogue)
    (hunique : decision.hitPolicy = .unique) (hregions : RegionsFor catalogue decision regions)
    {findings : List AnalysisFinding}
    (hpairs : ∀ (a b : ℕ) (regionA : RuleRegion), regions[a]? = some regionA →
      regionA.isCatchAll = false → a < b → b < decision.rules.length →
      ∃ pair, analysePair debugStr decision regions config a b = some pair ∧ pair ⊆ findings)
    (hinput : InputConforms catalogue decision.inputSchema input) (hab : a < b)
    (hruleA : decision.rules[a]? = some ruleA) (hruleB : decision.rules[b]? = some ruleB)
    (hfiresA : Fires input ruleA) (hfiresB : Fires input ruleB)
    (hclear : PairClear decision input ruleA ruleB) :
    ∃ summary, overlapFinding .unique ruleA ruleB summary ∈ findings := by
  have hb : b < decision.rules.length := (List.getElem?_eq_some_iff.mp hruleB).1
  have hpredsA := (htyped.rules ruleA (List.mem_of_getElem? hruleA)).preds
  have hpredsB := (htyped.rules ruleB (List.mem_of_getElem? hruleB)).preds
  obtain ⟨predsA, spanA, hwhenA, hholdsA⟩ := hfiresA.predicates
  obtain ⟨predsB, spanB, hwhenB, hholdsB⟩ := hfiresB.predicates
  unfold PairClear at hclear
  rw [hwhenA] at hpredsA
  rw [hwhenB] at hpredsB
  rw [hwhenA, hwhenB] at hclear
  obtain ⟨regionA, hregionA, hcomputeA⟩ := hregions.getElem? hruleA
  obtain ⟨regionB, hregionB, hcomputeB⟩ := hregions.getElem? hruleB
  obtain rfl := Option.some.inj ((computeOne_eq hwhenA hpredsA).symm.trans hcomputeA)
  obtain rfl := Option.some.inj ((computeOne_eq hwhenB hpredsB).symm.trans hcomputeB)
  obtain ⟨summary, hsummary⟩ := intersectRegions_isSome debugStr hpredsA hpredsB hinput
    hholdsA hholdsB hclear
  obtain ⟨pair, hpair, hsub⟩ := hpairs a b _ hregionA rfl hab hb
  rw [analysePair_eq hunique hregionA hregionB hruleA hruleB rfl hsummary] at hpair
  obtain rfl := Option.some.inj hpair
  exact ⟨summary, hsub List.mem_cons_self⟩

theorem isCatchAll_of_check (hunique : decision.hitPolicy = .unique)
    (hcheck : hitPolicyCheck decision = none) {rule : TypedRule} (hrule : rule ∈ decision.rules) :
    rule.when.isCatchAll = false := by
  rw [hitPolicyCheck, if_neg (not_not.mpr hunique), Option.map_eq_none_iff,
    List.find?_eq_none] at hcheck
  exact Bool.not_eq_true _ ▸ hcheck rule hrule

theorem exists_of_multipleMatches {ids : List RuleId}
    (h : winner decision input = .error (.multipleMatches ids)) :
    ∃ (a b : ℕ) (ruleA ruleB : TypedRule), a < b ∧
      decision.rules[a]? = some ruleA ∧ decision.rules[b]? = some ruleB ∧
      matchesRule input ruleA = true ∧ matchesRule input ruleB = true := by
  unfold winner applyHitPolicy at h
  split at h
  case h_3 hone htwo =>
    have hlen : 1 < (decision.rules.filter (matchesRule input)).length := by
      by_contra hle
      rcases hfilter : decision.rules.filter (matchesRule input) with _ | ⟨rule, _ | _⟩
      · exact hone hfilter
      · exact htwo _ hfilter
      · rw [hfilter] at hle
        simp at hle
    obtain ⟨emb, hemb⟩ := List.sublist_iff_exists_orderEmbedding_getElem?_eq.mp
      (List.filter_sublist (p := matchesRule input) (l := decision.rules))
    have hget : ∀ i, (hi : i < (decision.rules.filter (matchesRule input)).length) →
        decision.rules[emb i]? = some (decision.rules.filter (matchesRule input))[i] ∧
        matchesRule input (decision.rules.filter (matchesRule input))[i] = true := by
      intro i hi
      rw [← hemb i, List.getElem?_eq_getElem hi]
      exact ⟨rfl, (List.mem_filter.mp (List.getElem_mem hi)).2⟩
    exact ⟨emb 0, emb 1, _, _, emb.lt_iff_lt.mpr Nat.zero_lt_one, (hget 0 (by omega)).1,
      (hget 1 hlen).1, (hget 0 (by omega)).2, (hget 1 hlen).2⟩
  all_goals cases h

/-- Two rules of a UNIQUE decision that match one input are reported, where null is not lost from
their regions; without findings no such input fails with multiple matches. -/
theorem overlap_reported (debugStr : String → String) (config : AnalysisConfig)
    (htyped : decision.WellTyped catalogue) (hunique : decision.hitPolicy = .unique) :
    ∃ regions findings, computeAll decision catalogue = some regions ∧
      analyse debugStr decision regions config = some findings ∧
      ∀ input, InputConforms catalogue decision.inputSchema input →
        (∀ (a b : ℕ) (ruleA ruleB : TypedRule), a < b → decision.rules[a]? = some ruleA →
          decision.rules[b]? = some ruleB → Fires input ruleA → Fires input ruleB →
          PairClear decision input ruleA ruleB →
          ∃ summary, overlapFinding .unique ruleA ruleB summary ∈ findings) ∧
        (findings = [] → hitPolicyCheck decision = none →
          (∀ (a b : ℕ) (ruleA ruleB : TypedRule), a < b → decision.rules[a]? = some ruleA →
            decision.rules[b]? = some ruleB → PairClear decision input ruleA ruleB) →
          ∀ ids, winner decision input ≠ .error (.multipleMatches ids)) := by
  obtain ⟨regions, hcompute, hregions⟩ := computeAll_isSome htyped
  obtain ⟨findings, hanalyse, hpairs⟩ := analyse_spec debugStr config hregions
  refine ⟨regions, findings, hcompute, hanalyse, fun input hinput => ?_⟩
  have hreported : ∀ (a b : ℕ) (ruleA ruleB : TypedRule), a < b → decision.rules[a]? = some ruleA →
      decision.rules[b]? = some ruleB → Fires input ruleA → Fires input ruleB →
      PairClear decision input ruleA ruleB →
      ∃ summary, overlapFinding .unique ruleA ruleB summary ∈ findings := by
    intro a b ruleA ruleB hab hruleA hruleB hfiresA hfiresB hclear
    exact exists_finding htyped hunique hregions hpairs hinput hab hruleA hruleB hfiresA hfiresB
      hclear
  refine ⟨hreported, fun hnone hcheck hclear ids hwinner => ?_⟩
  obtain ⟨a, b, ruleA, ruleB, hab, hruleA, hruleB, hmatchA, hmatchB⟩ :=
    exists_of_multipleMatches hwinner
  obtain ⟨summary, hmem⟩ := hreported a b ruleA ruleB hab hruleA hruleB
    ⟨isCatchAll_of_check hunique hcheck (List.mem_of_getElem? hruleA), hmatchA⟩
    ⟨isCatchAll_of_check hunique hcheck (List.mem_of_getElem? hruleB), hmatchB⟩
    (hclear a b ruleA ruleB hab hruleA hruleB)
  rw [hnone] at hmem
  exact List.not_mem_nil hmem

namespace Sample

def grades : Catalogue := ⟨[⟨1, "Grade", [⟨10, "A"⟩, ⟨11, "B"⟩, ⟨12, "C"⟩]⟩]⟩

def rule (id : RuleId) (preds : List TypedPredicate) : TypedRule :=
  ⟨id, "rule", .predicates preds default, [], default⟩

/-- A UNIQUE decision with two rules over a grade and a score, and no outputs. -/
def unique (first second : List TypedPredicate) : TypedDecision where
  decisionId := "unique"
  name := "unique"
  hitPolicy := .unique
  inputSchema := [⟨0, "grade", .enum 1, default⟩, ⟨1, "score", .integer, default⟩]
  outputSchema := []
  rules := [rule 0 first, rule 1 second]
  resolvedEntities := []
  sourceSpan := default

theorem unique_wellTyped
    (h : ∀ p ∈ first ++ second, p.WellTyped grades (unique first second).inputSchema) :
    (unique first second).WellTyped grades where
  inputs
    | 0, _, rfl | 1, _, rfl => rfl
  outputs := by rintro i _ ⟨⟩
  ids := rfl
  rules := by
    have hrule : ∀ id preds, (∀ p ∈ preds, p.WellTyped grades (unique first second).inputSchema) →
        (rule id preds).WellTyped grades (unique first second).inputSchema [] := fun id preds hpreds =>
      { preds := hpreds
        values := by rintro _ ⟨⟩
        outputs := .refl _ }
    intro r hr
    rcases List.mem_cons.mp hr with rfl | hr
    · exact hrule 0 first fun p hp => h p (List.mem_append_left _ hp)
    · rcases List.mem_singleton.mp hr with rfl
      exact hrule 1 second fun p hp => h p (List.mem_append_right _ hp)

def gradeIsNull : TypedPredicate := .isNull 0 default

def gradeIsA : TypedPredicate := .comparison 0 .eq (.enum 1 10) default

def scoreIs (op : ComparisonOp) (i : ℤ) : TypedPredicate := .comparison 1 op (.integer i) default

def ungraded : TypedInputContext := ⟨[none, some (.integer 55)], 0⟩

theorem ungraded_conforms (first second : List TypedPredicate) :
    InputConforms grades (unique first second).inputSchema ungraded := by
  intro f entry v hentry hv
  rcases f with _ | _ | f
  · cases hv
  · obtain rfl := Option.some.inj hentry
    obtain rfl := Option.some.inj hv
    exact .inl ⟨by decide, by decide⟩
  · cases hentry

theorem gradeIsNull_wellTyped :
    gradeIsNull.WellTyped grades (unique first second).inputSchema := Nat.zero_lt_succ 1

theorem gradeIsA_wellTyped : gradeIsA.WellTyped grades (unique first second).inputSchema :=
  ⟨_, rfl, ⟨rfl, _, rfl, List.mem_cons_self⟩, .inl rfl⟩

theorem scoreIs_wellTyped {op : ComparisonOp} {i : ℤ} (hi : IsI64 i) :
    (scoreIs op i).WellTyped grades (unique first second).inputSchema :=
  ⟨_, rfl, hi, .inr (.inr rfl)⟩

def shared : TypedDecision :=
  unique [gradeIsNull, scoreIs .ge 50] [gradeIsNull, scoreIs .le 60]

theorem shared_wellTyped : shared.WellTyped grades := by
  apply unique_wellTyped
  simp only [List.cons_append, List.nil_append, List.forall_mem_cons]
  exact ⟨gradeIsNull_wellTyped, scoreIs_wellTyped ⟨by decide, by decide⟩, gradeIsNull_wellTyped,
    scoreIs_wellTyped ⟨by decide, by decide⟩, by simp⟩

theorem shared_clear :
    PairClear shared ungraded (rule 0 [gradeIsNull, scoreIs .ge 50])
      (rule 1 [gradeIsNull, scoreIs .le 60]) := by
  -- None of the tests blurs a field.
  have hblurs : ∀ f p, p ∈ [gradeIsNull, scoreIs .ge 50, gradeIsNull, scoreIs .le 60] →
      ¬ Blurs f p ∧ ¬ LosesNull f p := by
    intro f p hp
    simp only [List.mem_cons, List.not_mem_nil, or_false] at hp
    rcases hp with rfl | rfl | rfl | rfl <;> exact ⟨nofun, nofun⟩
  intro f hf hnull
  refine ⟨fun p hp => (hblurs f p hp).2, ?_⟩
  exact List.pairwise_of_forall_mem_list fun p hp q hq =>
    ⟨fun h => (hblurs f q hq).1 h.2, fun h => (hblurs f p hp).1 h.1⟩

theorem shared_reported :
    ∃ regions findings, computeAll shared grades = some regions ∧
      analyse id shared regions ⟨true⟩ = some findings ∧
      ∃ summary, overlapFinding .unique (rule 0 [gradeIsNull, scoreIs .ge 50])
        (rule 1 [gradeIsNull, scoreIs .le 60]) summary ∈ findings := by
  obtain ⟨regions, findings, hcompute, hanalyse, hreported⟩ :=
    overlap_reported id ⟨true⟩ shared_wellTyped rfl
  refine ⟨regions, findings, hcompute, hanalyse, ?_⟩
  exact (hreported ungraded (ungraded_conforms _ _)).1 0 1 _ _ Nat.zero_lt_one rfl rfl
    ⟨rfl, by decide +kernel⟩ ⟨rfl, by decide +kernel⟩ shared_clear

/-- The first rule negates a comparison, which null meets. -/
def negated : TypedDecision := unique [.not gradeIsA default] [gradeIsNull]

/-- The first rule tests for null in one of the branches of a disjunction. -/
def mixed : TypedDecision := unique [.or [gradeIsNull, gradeIsA] default] [gradeIsNull]

theorem negated_wellTyped : negated.WellTyped grades := by
  apply unique_wellTyped
  simp only [List.cons_append, List.nil_append, List.forall_mem_cons]
  exact ⟨gradeIsA_wellTyped, gradeIsNull_wellTyped, by simp⟩

theorem mixed_wellTyped : mixed.WellTyped grades := by
  apply unique_wellTyped
  simp only [List.cons_append, List.nil_append, List.forall_mem_cons]
  exact ⟨⟨trivial, gradeIsNull_wellTyped, gradeIsA_wellTyped, trivial⟩, gradeIsNull_wellTyped,
    by simp⟩

/-- Both decisions fail on an input without a grade, and neither has findings. -/
theorem overlap_missed :
    (negated.WellTyped grades ∧ mixed.WellTyped grades) ∧
    (InputConforms grades negated.inputSchema ungraded ∧
      InputConforms grades mixed.inputSchema ungraded) ∧
    ((computeAll negated grades).bind (analyse id negated · ⟨true⟩) = some [] ∧
      hitPolicyCheck negated = none ∧
      winner negated ungraded = .error (.multipleMatches [0, 1])) ∧
    (computeAll mixed grades).bind (analyse id mixed · ⟨true⟩) = some [] ∧
      hitPolicyCheck mixed = none ∧
      winner mixed ungraded = .error (.multipleMatches [0, 1]) := by
  refine ⟨⟨negated_wellTyped, mixed_wellTyped⟩, ⟨ungraded_conforms _ _, ungraded_conforms _ _⟩,
    ⟨?_, rfl, rfl⟩, ?_, rfl, rfl⟩
  · decide +kernel
  · decide +kernel

end Sample

end Completeness

end Overlap

end BpmnLite.Dmn
