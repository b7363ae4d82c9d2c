import BpmnLite.Dmn.Overlap
import BpmnLite.Dmn.RegionExact

/-!
# Unreachable rules

Under FIRST a rule is reported as unreachable if its region lies in the region of an earlier one. The
finding is right where the earlier rule matches all of its region (`Separable`) and null is not lost
from the region of the rule (`NullClear`).
-/

namespace BpmnLite.Dmn.Unreachable

open Collect Reference Region

variable {catalogue : Catalogue} {b a : ℕ} {later earlier : List TypedPredicate}

section Analysis

def regionIsSubset (inner outer : RuleRegion) : Bool :=
  (inner.fields.zip outer.fields).all fun (a, b) => isSubsetOf a b

def unreachableFinding (unreachable shadowing : TypedRule) : AnalysisFinding where
  severity := .error
  kind := .unreachableRule unreachable.ruleId shadowing.ruleId
  sourceSpan := unreachable.sourceSpan
  description := "rule " ++ unreachable.ruleName ++ " is unreachable: rule " ++ shadowing.ruleName ++
    " accepts a superset of its input region"

variable (decision : TypedDecision) (regions : List RuleRegion)

/-- The inner loop, which ends with the first rule that shadows. -/
def firstShadowing (inner : RuleRegion) : List ℕ → Option (Option ℕ)
  | [] => some none
  | a :: rest => do
    let outer ← regions[a]?
    if !outer.isCatchAll && regionIsSubset inner outer then return some a
    firstShadowing inner rest

def analyseRule (b : ℕ) : Option (List AnalysisFinding) := do
  let inner ← regions[b]?
  if inner.isCatchAll then return []
  match ← firstShadowing regions inner (List.range b) with
  | none => return []
  | some a =>
    let unreachable ← decision.rules[b]?
    let shadowing ← decision.rules[a]?
    return [unreachableFinding unreachable shadowing]

def analyse : Option (List AnalysisFinding) :=
  if decision.hitPolicy ≠ .first then some [] else do
    let found ← (List.range decision.rules.length).mapM (analyseRule decision regions)
    return found.flatten

end Analysis

section Findings

variable {decision : TypedDecision} {regions : List RuleRegion}

theorem firstShadowing_spec (regions : List RuleRegion) (inner : RuleRegion) {candidates : List ℕ}
    (hlt : ∀ a ∈ candidates, a < regions.length) :
    ∃ found, firstShadowing regions inner candidates = some found ∧
      ∀ a ∈ found, a ∈ candidates ∧ ∃ outer, regions[a]? = some outer ∧ outer.isCatchAll = false ∧
        regionIsSubset inner outer = true := by
  induction candidates with
  | nil => exact ⟨none, rfl, nofun⟩
  | cons a rest ih =>
    obtain ⟨ha, hrest⟩ := List.forall_mem_cons.mp hlt
    have hget : regions[a]? = some regions[a] := List.getElem?_eq_getElem ha
    simp only [firstShadowing, hget, Option.bind_eq_bind, Option.bind_some]
    split
    case isTrue hfound =>
      obtain ⟨hspecific, hsub⟩ := Bool.and_eq_true_iff.mp hfound
      refine ⟨some a, rfl, fun a' ha' => ?_⟩
      obtain rfl := Option.some.inj ha'
      exact ⟨List.mem_cons_self, _, hget, by simpa using hspecific, hsub⟩
    case isFalse =>
      obtain ⟨found, hfound, hspec⟩ := ih hrest
      exact ⟨found, hfound, fun a' ha' =>
        (hspec a' ha').imp_left (List.mem_cons_of_mem _)⟩

/-- A rule whose region lies in the region of an earlier one. -/
structure Shadowed (decision : TypedDecision) (regions : List RuleRegion) (a b : ℕ)
    (shadowing unreachable : TypedRule) : Prop where
  before : a < b
  shadowing : decision.rules[a]? = some shadowing
  unreachable : decision.rules[b]? = some unreachable
  subset : ∃ inner outer, regions[b]? = some inner ∧ regions[a]? = some outer ∧
    inner.isCatchAll = false ∧ outer.isCatchAll = false ∧ regionIsSubset inner outer = true

theorem analyseRule_spec (hregions : RegionsFor catalogue decision regions)
    (hb : b < decision.rules.length) :
    ∃ found, analyseRule decision regions b = some found ∧ ∀ finding ∈ found,
      ∃ a shadowing unreachable, Shadowed decision regions a b shadowing unreachable ∧
        finding = unreachableFinding unreachable shadowing := by
  have hruleB : decision.rules[b]? = some decision.rules[b] := List.getElem?_eq_getElem hb
  obtain ⟨inner, hinner, -⟩ := hregions.getElem? hruleB
  have hlen : decision.rules.length = regions.length := hregions.length_eq
  obtain ⟨found, hfound, hspec⟩ := firstShadowing_spec regions inner
    fun a ha => (hlen ▸ (List.mem_range.mp ha).trans hb : a < regions.length)
  simp only [analyseRule, hinner, hfound, Option.bind_eq_bind, Option.bind_some]
  split
  case isTrue => exact ⟨[], rfl, nofun⟩
  case isFalse hspecific =>
    cases found with
    | none => exact ⟨[], rfl, nofun⟩
    | some a =>
      obtain ⟨hmem, outer, houter, hspecific', hsub⟩ := hspec a rfl
      have hab : a < b := List.mem_range.mp hmem
      have ha : a < decision.rules.length := hab.trans hb
      have hruleA : decision.rules[a]? = some decision.rules[a] := List.getElem?_eq_getElem ha
      simp only [hruleA, hruleB, Option.bind_some]
      refine ⟨_, rfl, fun finding hmem' => ?_⟩
      exact ⟨a, _, _, ⟨hab, hruleA, hruleB, inner, outer, hinner, houter,
        by simpa using hspecific, hspecific', hsub⟩, List.mem_singleton.mp hmem'⟩

theorem analyse_spec (hregions : RegionsFor catalogue decision regions)
    (hfirst : decision.hitPolicy = .first) :
    ∃ findings, analyse decision regions = some findings ∧ ∀ finding ∈ findings,
      ∃ a b shadowing unreachable, Shadowed decision regions a b shadowing unreachable ∧
        finding = unreachableFinding unreachable shadowing := by
  have hrules : ∀ b ∈ List.range decision.rules.length,
      ∃ found, analyseRule decision regions b = some found := fun b hb =>
    (analyseRule_spec hregions (List.mem_range.mp hb)).imp fun _ h => h.1
  obtain ⟨found, hfound, hall⟩ := exists_mapM hrules
  refine ⟨found.flatten, ?_, fun finding hfinding => ?_⟩
  · rw [analyse, if_neg (not_not.mpr hfirst), hfound]
    rfl
  · obtain ⟨reported, hreported, hmem⟩ := List.mem_flatten.mp hfinding
    obtain ⟨b, hb, heq⟩ := exists_of_forall₂_right hall hreported
    obtain ⟨_, hrule, hspec⟩ := analyseRule_spec hregions (List.mem_range.mp hb)
    obtain rfl := Option.mem_unique hrule heq
    obtain ⟨a, shadowing, unreachable, hshadowed, hkind⟩ := hspec finding hmem
    exact ⟨a, b, shadowing, unreachable, hshadowed, hkind⟩

end Findings

section Soundness

variable {decision : TypedDecision} {regions : List RuleRegion} {input : TypedInputContext}

theorem ruleId_eq (htyped : decision.WellTyped catalogue) {rule : TypedRule}
    (hrule : decision.rules[a]? = some rule) : rule.ruleId = a := by
  have hid : (decision.rules.map (·.ruleId))[a]? = some rule.ruleId := by
    rw [List.getElem?_map, hrule]
    rfl
  rw [htyped.ids] at hid
  obtain ⟨ha, heq⟩ := List.getElem?_eq_some_iff.mp hid
  rw [List.getElem_range] at heq
  exact heq.symm

theorem winner_first (hfirst : decision.hitPolicy = .first) {rule : TypedRule}
    (h : winner decision input = .ok rule) :
    ∃ b : ℕ, decision.rules[b]? = some rule ∧ matchesRule input rule = true ∧
      ∀ a < b, ∀ earlier, decision.rules[a]? = some earlier → matchesRule input earlier = false := by
  have hhead : (decision.rules.filter (matchesRule input)).head? = some rule := by
    rw [winner, hfirst] at h
    cases hfilter : decision.rules.filter (matchesRule input) with
    | nil =>
      rw [hfilter] at h
      cases h
    | cons first rest =>
      rw [hfilter] at h
      obtain rfl := Except.ok.inj h
      rfl
  rw [List.head?_filter] at hhead
  obtain ⟨hmatches, b, hb, rfl, hbefore⟩ := List.find?_eq_some_iff_getElem.mp hhead
  refine ⟨b, List.getElem?_eq_getElem hb, hmatches, fun a ha earlier hearlier => ?_⟩
  obtain ⟨hlt, rfl⟩ := List.getElem?_eq_some_iff.mp hearlier
  simpa using hbefore a ha

theorem predicates_of_computeOne {schema : List FieldSchema} {rule : TypedRule} {region : RuleRegion}
    (h : computeOne schema catalogue rule = some region) (hspecific : region.isCatchAll = false)
    (htyped : ∀ p ∈ rule.when.preds, p.WellTyped catalogue schema) :
    ∃ preds span, rule.when = .predicates preds span ∧
      region = ⟨ruleFields schema catalogue preds, false⟩ := by
  cases hwhen : rule.when with
  | catchAll span =>
    rw [computeOne, hwhen] at h
    obtain rfl := Option.some.inj h
    cases hspecific
  | predicates preds span =>
    rw [hwhen] at htyped
    exact ⟨preds, span, rfl, Option.some.inj (h.symm.trans (computeOne_eq hwhen htyped))⟩

theorem winner_of_evaluate {R : Runtime} {source : String} {output : EvaluationOutput}
    (h : evaluate R decision input source = some (.ok output)) :
    ∃ rule, winner decision input = .ok rule ∧ output.trace.outcome = .hit rule.ruleId := by
  rw [evaluate] at h
  cases hvalid : validateInput R decision input with
  | error e =>
    rw [hvalid] at h
    cases h
  | ok _ =>
    cases hwinner : winner decision input with
    | error e =>
      simp [hvalid, hwinner, bind, Except.bind] at h
    | ok rule =>
      simp only [hvalid, hwinner, bind, Except.bind, Option.bind_eq_some_iff] at h
      obtain ⟨values, -, hok⟩ := h
      obtain rfl := Except.ok.inj (Option.some.inj hok)
      exact ⟨rule, rfl, rfl⟩

theorem Shadowed.matches {shadowing unreachable : TypedRule} (htyped : decision.WellTyped catalogue)
    (hregions : RegionsFor catalogue decision regions)
    (h : Shadowed decision regions a b shadowing unreachable)
    (hsep : ∀ p ∈ shadowing.when.preds, Separable p)
    (hinput : InputConforms catalogue decision.inputSchema input)
    (hclear : ∀ f < decision.inputSchema.length, present input f = none →
      (∃ p ∈ shadowing.when.preds, Touches f p) → NullClear f unreachable.when.preds)
    (hmatches : matchesRule input unreachable = true) : matchesRule input shadowing = true := by
  obtain ⟨inner, outer, hinner, houter, hspecific, hspecific', hsub⟩ := h.subset
  obtain ⟨_, hinner', hcompute⟩ := hregions.getElem? h.unreachable
  obtain rfl := Option.mem_unique hinner hinner'
  obtain ⟨_, houter', hcompute'⟩ := hregions.getElem? h.shadowing
  obtain rfl := Option.mem_unique houter houter'
  have hpreds := (htyped.rules unreachable (List.mem_of_getElem? h.unreachable)).preds
  have hpreds' := (htyped.rules shadowing (List.mem_of_getElem? h.shadowing)).preds
  obtain ⟨preds, span, hwhen, rfl⟩ := predicates_of_computeOne hcompute hspecific hpreds
  obtain ⟨preds', span', hwhen', rfl⟩ := predicates_of_computeOne hcompute' hspecific' hpreds'
  rw [hwhen] at hpreds hclear
  rw [hwhen'] at hpreds' hsep hclear
  have hholds : ∀ p ∈ preds, evalPredicate input p = true := by
    rw [matchesRule, hwhen] at hmatches
    exact List.all_eq_true.mp hmatches
  have hfields : ∀ f < decision.inputSchema.length,
      isSubsetOf (narrowAll decision.inputSchema catalogue f preds .any)
        (narrowAll decision.inputSchema catalogue f preds' .any) = true := by
    intro f hf
    rw [regionIsSubset, List.all_eq_true] at hsub
    have hpair := hsub _ (List.getElem_mem (n := f) (by simpa using hf))
    rwa [List.getElem_zip, getElem_ruleFields, getElem_ruleFields] at hpair
  have hcovered : AllCovered decision.inputSchema input fun f =>
      narrowAll decision.inputSchema catalogue f preds' .any := by
    intro f entry hentry
    have hf := (List.getElem?_eq_some_iff.mp hentry).1
    cases hv : present input f with
    | some v =>
      have hconforms := hinput f entry v hentry hv
      exact covers_of_admits hconforms (admits_narrowAll hpreds hentry hv hconforms hholds)
        (hfields f hf)
    | none =>
      by_cases htouched : ∃ p ∈ preds', Touches f p
      · exact covers_none_of_admitsNull (admitsNull_narrowAll decision.inputSchema catalogue hv hholds
          (hclear f hf hv htouched)) (hfields f hf)
      · push Not at htouched
        refine narrowAll_invariant (P := Covers entry.fieldType none) (fun p hp region h => ?_) trivial
        rwa [narrow_of_not_touches (htouched p hp)]
  rw [matchesRule, hwhen']
  exact List.all_eq_true.mpr (matches_of_covers hinput hpreds' hsep hcovered)

/-- A rule that is reported as unreachable wins for no input, if the rule that shadows it is separable
and null is not lost from its own region at the fields that rule tests. -/
theorem unreachable_never_wins (htyped : decision.WellTyped catalogue)
    (hfirst : decision.hitPolicy = .first) :
    ∃ regions findings, computeAll decision catalogue = some regions ∧
      analyse decision regions = some findings ∧
      ∀ finding ∈ findings, ∃ shadowing unreachable, shadowing ∈ decision.rules ∧
        unreachable ∈ decision.rules ∧
        finding.kind = .unreachableRule unreachable.ruleId shadowing.ruleId ∧
        ((∀ p ∈ shadowing.when.preds, Separable p) →
          ∀ input, InputConforms catalogue decision.inputSchema input →
            (∀ f < decision.inputSchema.length, present input f = none →
              (∃ p ∈ shadowing.when.preds, Touches f p) → NullClear f unreachable.when.preds) →
            ∀ R source output, evaluate R decision input source = some (.ok output) →
              output.trace.outcome ≠ .hit unreachable.ruleId) := by
  obtain ⟨regions, hcompute, hregions⟩ := computeAll_isSome htyped
  obtain ⟨findings, hanalyse, hspec⟩ := analyse_spec hregions hfirst
  refine ⟨regions, findings, hcompute, hanalyse, fun finding hfinding => ?_⟩
  obtain ⟨a, b, shadowing, unreachable, hshadowed, rfl⟩ := hspec finding hfinding
  refine ⟨shadowing, unreachable, List.mem_of_getElem? hshadowed.shadowing,
    List.mem_of_getElem? hshadowed.unreachable, rfl, ?_⟩
  intro hsep input hinput hclear R source output heval hhit
  obtain ⟨rule, hwinner, houtcome⟩ := winner_of_evaluate heval
  obtain ⟨b', hrule, hmatches, hbefore⟩ := winner_first hfirst hwinner
  -- the ids are the positions, so the rule that wins is the one reported
  have hid : rule.ruleId = unreachable.ruleId := by
    rw [houtcome] at hhit
    exact TraceOutcome.hit.inj hhit
  rw [ruleId_eq htyped hrule, ruleId_eq htyped hshadowed.unreachable] at hid
  subst hid
  obtain rfl := Option.mem_unique hrule hshadowed.unreachable
  have hearlier := hbefore a hshadowed.before shadowing hshadowed.shadowing
  rw [hshadowed.matches htyped hregions hsep hinput hclear hmatches] at hearlier
  cases hearlier

namespace Sample

open Overlap.Sample

/-- The sample decision over a grade and a score, under FIRST. -/
def first (earlier later : List TypedPredicate) : TypedDecision :=
  { unique earlier later with hitPolicy := .first }

theorem first_wellTyped
    (h : ∀ p ∈ earlier ++ later, p.WellTyped grades (unique earlier later).inputSchema) :
    (first earlier later).WellTyped grades := by
  obtain ⟨inputs, outputs, ids, rules⟩ := unique_wellTyped h
  exact ⟨inputs, outputs, ids, rules⟩

def shadowed : TypedDecision := first [scoreIs .ge 50] [scoreIs .ge 55]

theorem shadowed_wellTyped : shadowed.WellTyped grades := by
  apply first_wellTyped
  simp only [List.cons_append, List.nil_append, List.forall_mem_cons]
  exact ⟨scoreIs_wellTyped ⟨by decide, by decide⟩, scoreIs_wellTyped ⟨by decide, by decide⟩, by simp⟩

theorem shadowed_findings :
    (computeAll shadowed grades).bind (analyse shadowed) =
      some [unreachableFinding (rule 1 [scoreIs .ge 55]) (rule 0 [scoreIs .ge 50])] := by
  decide +kernel

/-- The second rule matches an input with score 55, and does not win for it. -/
theorem shadowed_never_wins :
    matchesRule ungraded (rule 1 [scoreIs .ge 55]) = true ∧
      ∀ R source output, evaluate R shadowed ungraded source = some (.ok output) →
        output.trace.outcome ≠ .hit 1 := by
  refine ⟨by decide +kernel, ?_⟩
  obtain ⟨regions, findings, hcompute, hanalyse, hsound⟩ :=
    unreachable_never_wins shadowed_wellTyped rfl
  have hfindings := shadowed_findings
  rw [hcompute, Option.bind_some, hanalyse] at hfindings
  obtain rfl := Option.some.inj hfindings
  obtain ⟨shadowing, unreachable, hmem, hmem', hkind, hnever⟩ := hsound _ List.mem_cons_self
  obtain ⟨hid, -⟩ := FindingKind.unreachableRule.inj hkind
  have hscores : ∀ r ∈ shadowed.rules, ∃ i : ℤ, r.when.preds = [scoreIs .ge i] := by
    intro r hr
    simp only [shadowed, first, unique, List.mem_cons, List.not_mem_nil, or_false] at hr
    rcases hr with rfl | rfl <;> exact ⟨_, rfl⟩
  obtain ⟨i, hpreds⟩ := hscores shadowing hmem
  obtain ⟨j, hpreds'⟩ := hscores unreachable hmem'
  rw [hpreds, hpreds', ← hid] at hnever
  refine hnever ?_ ungraded (ungraded_conforms [] []) ?_
  · intro p hp
    obtain rfl := List.mem_singleton.mp hp
    exact .comparison
  · intro f _ _ _
    refine ⟨fun p hp => ?_, List.pairwise_singleton _ _⟩
    obtain rfl := List.mem_singleton.mp hp
    exact nofun

def gradeIs (value : ValueId) : TypedPredicate := .comparison 0 .eq (.enum 1 value) default

/-- The later rule negates a comparison, which null meets. -/
def negated : TypedDecision :=
  first [.inSet 0 [.enum 1 11, .enum 1 12] default] [.not (gradeIs 10) default]

/-- The earlier rule is a disjunction over two fields, whose regions are joined field by field. -/
def crossed : TypedDecision :=
  first [.or [.and [gradeIs 10, scoreIs .eq 1] default, .and [gradeIs 11, scoreIs .eq 2] default]
    default] [gradeIs 11, scoreIs .eq 1]

def crossing : TypedInputContext := ⟨[some (.enum 1 11), some (.integer 1)], 0⟩

theorem crossing_conforms : InputConforms grades crossed.inputSchema crossing := by
  intro f entry v hentry hv
  rcases f with _ | _ | f
  · obtain rfl := Option.some.inj hentry
    obtain rfl := Option.some.inj hv
    exact .inl ⟨rfl, _, rfl, by decide +kernel⟩
  · obtain rfl := Option.some.inj hentry
    obtain rfl := Option.some.inj hv
    exact .inl ⟨by decide, by decide⟩
  · cases hentry

theorem gradeIs_wellTyped {value : ValueId} (hvalue : value ∈ [10, 11, 12]) :
    (gradeIs value).WellTyped grades (unique earlier later).inputSchema :=
  ⟨_, rfl, ⟨rfl, _, rfl, hvalue⟩, .inl rfl⟩

theorem negated_wellTyped : negated.WellTyped grades := by
  apply first_wellTyped
  simp only [List.cons_append, List.nil_append, List.forall_mem_cons]
  refine ⟨⟨_, rfl, ?_⟩, gradeIs_wellTyped (by decide), by simp⟩
  intro v hv
  simp only [List.mem_cons, List.not_mem_nil, or_false] at hv
  rcases hv with rfl | rfl <;> exact ⟨rfl, _, rfl, by decide⟩

theorem crossed_wellTyped : crossed.WellTyped grades := by
  apply first_wellTyped
  simp only [List.cons_append, List.nil_append, List.forall_mem_cons]
  refine ⟨⟨trivial, ?_, ?_, trivial⟩, gradeIs_wellTyped (by decide),
    scoreIs_wellTyped ⟨by decide, by decide⟩, by simp⟩
  all_goals exact ⟨trivial, gradeIs_wellTyped (by decide),
    scoreIs_wellTyped ⟨by decide, by decide⟩, trivial⟩

/-- The second rule of both decisions is reported as unreachable, and wins. -/
theorem unreachable_wins :
    (negated.WellTyped grades ∧ crossed.WellTyped grades) ∧
    (InputConforms grades negated.inputSchema ungraded ∧
      InputConforms grades crossed.inputSchema crossing) ∧
    (((computeAll negated grades).bind (analyse negated)).map (·.map (·.kind)) =
        some [.unreachableRule 1 0] ∧
      ((evaluate ⟨fun _ => 0, fun _ => none⟩ negated ungraded "").map
        (·.toOption.map (·.trace.outcome))) = some (some (.hit 1))) ∧
    ((computeAll crossed grades).bind (analyse crossed)).map (·.map (·.kind)) =
        some [.unreachableRule 1 0] ∧
      ((evaluate ⟨fun _ => 0, fun _ => none⟩ crossed crossing "").map
        (·.toOption.map (·.trace.outcome))) = some (some (.hit 1)) := by
  refine ⟨⟨negated_wellTyped, crossed_wellTyped⟩, ⟨ungraded_conforms [] [], crossing_conforms⟩,
    ⟨?_, ?_⟩, ?_, ?_⟩
  all_goals decide +kernel

end Sample

end Soundness

end BpmnLite.Dmn.Unreachable
