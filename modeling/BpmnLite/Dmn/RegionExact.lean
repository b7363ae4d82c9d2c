import BpmnLite.Dmn.RegionSound

/-!
# What regions promise

`Covers` says which values a region promises: none for an opaque one. A rule matches every input whose
fields are covered by its regions if its disjunctions are each about one field (`Separable`); over
several fields the regions of a disjunction hold more than it does.
-/

namespace BpmnLite.Dmn.Region

open Reference
open Std (ExtTreeSet)

variable {ty : ResolvedType} {x : Option TypedValue} {s t set : IntervalSet} {field f : FieldId}

section Values

/-- The values of a field of a type, null being `none`, that a region promises. On a decimal field an
interval set is the whole of it. -/
def Covers (ty : ResolvedType) (x : Option TypedValue) : FieldRegion → Prop
  | .empty => False
  | .any => True
  | .notNull => ∃ v, x = some v
  | .nullOnly => x = none
  | .enumSet d values => ∃ u, x = some (.enum d u) ∧ u ∈ values
  | .boolSet values => ∃ b, x = some (.bool b) ∧ b ∈ values
  | .integerInterval set => (ty = .decimal ∧ ∃ v, x = some v) ∨
      ty ≠ .decimal ∧ ∃ i, x = some (.integer i) ∧ set.contains (Int64.ofInt i) = true
  | .decimalOpaque => False
  | .stringSet values => ∃ s, x = some (.str s) ∧ s ∈ values
  | .stringOpaque => False
  | .opaqueRegion _ => False

variable {catalogue : Catalogue} {v : TypedValue} {a b : FieldRegion}

theorem covers_of_orEmpty {κ : Type} [Ord κ] {make : BTreeSet κ → FieldRegion}
    {values : BTreeSet κ} (h : Covers ty x (orEmpty make values)) : Covers ty x (make values) := by
  unfold orEmpty at h
  split at h
  case isTrue => exact h.elim
  case isFalse => exact h

theorem covers_interval_intersect
    (h : Covers ty x (.integerInterval (s.intersect t))) :
    Covers ty x (.integerInterval s) ∧ Covers ty x (.integerInterval t) := by
  rcases h with h | ⟨hty, i, hx, hi⟩
  · exact ⟨.inl h, .inl h⟩
  · obtain ⟨hs, ht⟩ := IntervalSet.contains_intersect.mp hi
    exact ⟨.inr ⟨hty, i, hx, hs⟩, .inr ⟨hty, i, hx, ht⟩⟩

theorem exists_of_covers (h : Covers ty x a) (hany : a ≠ .any) (hnull : a ≠ .nullOnly) :
    ∃ v, x = some v := by
  cases a with
  | any => exact absurd rfl hany
  | nullOnly => exact absurd rfl hnull
  | notNull => exact h
  | enumSet | boolSet | stringSet =>
    obtain ⟨_, hx, -⟩ := h
    exact ⟨_, hx⟩
  | integerInterval =>
    rcases h with ⟨-, h⟩ | ⟨-, i, hx, -⟩
    · exact h
    · exact ⟨_, hx⟩
  | empty | decimalOpaque | stringOpaque | opaqueRegion => exact h.elim

theorem covers_intersect (h : Covers ty x (intersect a b)) : Covers ty x a ∧ Covers ty x b := by
  unfold intersect at h
  split at h
  case h_3 => exact ⟨trivial, h⟩
  case h_4 => exact ⟨h, trivial⟩
  case h_5 | h_8 => exact ⟨h, h⟩
  case h_9 _ _ hany hnull _ => exact ⟨exists_of_covers h hany hnull, h⟩
  case h_10 hany hnull _ => exact ⟨h, exists_of_covers h hany hnull⟩
  case h_11 =>
    split at h
    case isTrue => exact h.elim
    case isFalse heq =>
      obtain rfl := not_not.mp heq
      obtain ⟨u, hx, hu⟩ := covers_of_orEmpty h
      obtain ⟨hleft, hright⟩ := ExtTreeSet.mem_inter_iff.mp hu
      exact ⟨⟨u, hx, hleft⟩, u, hx, hright⟩
  case h_12 | h_16 =>
    obtain ⟨u, hx, hu⟩ := covers_of_orEmpty h
    obtain ⟨hleft, hright⟩ := ExtTreeSet.mem_inter_iff.mp hu
    exact ⟨⟨u, hx, hleft⟩, u, hx, hright⟩
  case h_13 =>
    split at h
    case isTrue => exact h.elim
    case isFalse => exact covers_interval_intersect h
  all_goals exact h.elim

theorem covers_interval_union (h : Covers ty x (.integerInterval (s.union t))) :
    Covers ty x (.integerInterval s) ∨ Covers ty x (.integerInterval t) := by
  rcases h with h | ⟨hty, i, hx, hi⟩
  · exact .inl (.inl h)
  · rcases IntervalSet.contains_union.mp hi with hi | hi
    · exact .inl (.inr ⟨hty, i, hx, hi⟩)
    · exact .inr (.inr ⟨hty, i, hx, hi⟩)

theorem covers_unionField (h : Covers ty x (unionField a b)) : Covers ty x a ∨ Covers ty x b := by
  unfold unionField at h
  split at h
  case h_1 => exact .inr h
  case h_2 | h_5 | h_6 => exact .inl h
  case h_3 => exact .inl trivial
  case h_4 => exact .inr trivial
  case h_7 =>
    split at h
    case isTrue heq =>
      subst heq
      obtain ⟨u, hx, hu⟩ := h
      exact (ExtTreeSet.mem_union_iff.mp hu).imp (⟨u, hx, ·⟩) (⟨u, hx, ·⟩)
    case isFalse => exact h.elim
  case h_8 | h_10 =>
    obtain ⟨u, hx, hu⟩ := h
    exact (ExtTreeSet.mem_union_iff.mp hu).imp (⟨u, hx, ·⟩) (⟨u, hx, ·⟩)
  case h_9 => exact covers_interval_union h
  case h_11 => exact h.elim

theorem exists_mem_of_covers_unionAll {regions : List FieldRegion} (hne : regions ≠ [])
    (h : Covers ty x (unionAll regions)) : ∃ r ∈ regions, Covers ty x r := by
  cases regions with
  | nil => exact absurd rfl hne
  | cons first rest =>
    rw [unionAll] at h
    induction rest generalizing first with
    | nil => exact ⟨first, List.mem_cons_self, h⟩
    | cons next rest ih =>
      obtain ⟨r, hr, hcovers⟩ := ih (unionField first next) (List.cons_ne_nil _ _) h
      rcases List.mem_cons.mp hr with rfl | hr
      · rcases covers_unionField hcovers with hcovers | hcovers
        · exact ⟨first, List.mem_cons_self, hcovers⟩
        · exact ⟨next, List.mem_cons_of_mem _ List.mem_cons_self, hcovers⟩
      · exact ⟨r, List.mem_cons_of_mem _ (List.mem_cons_of_mem _ hr), hcovers⟩

theorem isSubset_iff {κ : Type} [Ord κ] [Std.TransOrd κ] [Std.LawfulEqOrd κ] {a b : BTreeSet κ} :
    isSubset a b = true ↔ ∀ u ∈ a, u ∈ b := by
  rw [isSubset, List.all_eq_true]
  simp only [decide_eq_true_eq, ExtTreeSet.mem_toList]

theorem covers_interval_of_subset (hv : Conforms catalogue ty v)
    (h : Admits ty v (.integerInterval s)) (hsub : (s.intersect t.complement).isEmpty = true) :
    Covers ty (some v) (.integerInterval t) := by
  by_cases hty : ty = .decimal
  · exact .inl ⟨hty, v, rfl⟩
  -- a value of the one set outside the other would be in the complement
  · rcases h with ⟨i, rfl, hi⟩ | ⟨⟨d, rfl⟩, -⟩
    · refine .inr ⟨hty, i, rfl, ?_⟩
      by_contra hnot
      have hboth := IntervalSet.contains_intersect.mpr
        ⟨hi, IntervalSet.contains_complement (Bool.not_eq_true _ ▸ hnot)⟩
      rw [IntervalSet.isEmpty_of_contains hboth] at hsub
      cases hsub
    · rcases hv with hv | ⟨hdec, -⟩
      · cases ty with
        | decimal => exact absurd rfl hty
        | _ => exact hv.elim
      · exact absurd hdec hty

theorem covers_of_admits (hv : Conforms catalogue ty v) (h : Admits ty v a)
    (hsub : isSubsetOf a b = true) : Covers ty (some v) b := by
  unfold isSubsetOf at hsub
  split at hsub
  case h_1 | h_5 => exact h.elim
  case h_2 => trivial
  case h_4 | h_16 | h_17 | h_18 | h_19 => exact ⟨v, rfl⟩
  case h_8 =>
    obtain ⟨u, rfl, hu⟩ := h
    obtain ⟨hd, hvalues⟩ := Bool.and_eq_true_iff.mp hsub
    obtain rfl := of_decide_eq_true hd
    exact ⟨u, rfl, isSubset_iff.mp hvalues u hu⟩
  case h_9 | h_11 =>
    obtain ⟨u, rfl, hu⟩ := h
    exact ⟨u, rfl, isSubset_iff.mp hsub u hu⟩
  case h_10 => exact covers_interval_of_subset hv h hsub
  all_goals cases hsub

theorem covers_none_of_admitsNull {t u : Prop} (h : AdmitsNull t u a)
    (hsub : isSubsetOf a b = true) : Covers ty none b := by
  cases h with
  | any | opaqueRegion =>
    cases b with
    | any => trivial
    | _ => cases hsub
  | nullOnly =>
    cases b with
    | any => trivial
    | nullOnly => rfl
    | _ => cases hsub

end Values

section Tests

variable {catalogue : Catalogue} {rhs : TypedValue} {op : ComparisonOp}

theorem compareValues_of_covers {region : FieldRegion} (hrhs : HasType catalogue rhs ty)
    (hx : ∀ v, x = some v → Conforms catalogue ty v) (hop : Orderable ty op)
    (hregion : comparisonRegion catalogue ty op rhs = some region) (h : Covers ty x region) :
    ty ≠ .decimal ∧ ∃ v, x = some v ∧ compareValues op v rhs = true := by
  have hrhs' : Conforms catalogue ty rhs := .inl hrhs
  cases ty with
  | enum d =>
    obtain ⟨r, found, rfl, hfound, -⟩ := conforms_enum hrhs'
    rcases hop with rfl | rfl | hnumeric
    · cases hregion
      obtain ⟨u, rfl, hu⟩ := h
      obtain rfl := List.mem_singleton.mp (mem_ofList.mp hu)
      exact ⟨by simp, _, rfl, by simp [compareValues, eq_enum]⟩
    · rw [comparisonRegion, catalogueValues, hfound] at hregion
      cases hregion
      obtain ⟨u, rfl, hu⟩ := h
      have hne : ¬ r = u := fun heq =>
        (ExtTreeSet.mem_erase.mp hu).1 (heq ▸ Std.ReflOrd.compare_self)
      exact ⟨by simp, _, rfl, by simpa [compareValues, eq_enum] using Ne.symm hne⟩
    · cases hnumeric
  | bool =>
    obtain ⟨r, rfl⟩ := conforms_bool hrhs'
    rcases hop with rfl | rfl | hnumeric
    iterate 2
      cases hregion
      obtain ⟨u, rfl, hu⟩ := h
      obtain rfl := List.mem_singleton.mp (mem_ofList.mp hu)
      exact ⟨by simp, _, rfl, by simp [compareValues, eq_bool]⟩
    cases hnumeric
  | integer =>
    obtain ⟨j, rfl, hj⟩ := conforms_integer hrhs'
    obtain rfl : integerComparison op (Int64.ofInt j) = region := by
      cases op <;> exact Option.some.inj hregion
    rcases h with ⟨hty, -⟩ | ⟨-, i, rfl, hi⟩
    · cases hty
    · obtain ⟨_, heq, hi64⟩ := conforms_integer (hx _ rfl)
      cases heq
      exact ⟨by simp, _, rfl, (contains_integerComparison hi64 hj rfl).mp hi⟩
  | decimal =>
    obtain rfl : FieldRegion.decimalOpaque = region := by cases op <;> exact Option.some.inj hregion
    exact h.elim
  | str =>
    obtain ⟨r, rfl⟩ := conforms_str hrhs'
    rcases hop with rfl | rfl | hnumeric
    · cases hregion
      obtain ⟨u, rfl, hu⟩ := h
      obtain rfl := List.mem_singleton.mp (mem_ofList.mp hu)
      exact ⟨by simp, _, rfl, by simp [compareValues, eq_str]⟩
    · cases hregion
      exact h.elim
    · cases hnumeric

theorem mem_of_contains_foldl_union {is : List Int64} {i : Int64}
    (h : (is.foldl (fun set i => set.union (.singleton i)) set).contains i = true) :
    set.contains i = true ∨ i ∈ is := by
  induction is generalizing set with
  | nil => exact .inl h
  | cons j is ih =>
    rcases ih h with h | h
    · rcases IntervalSet.contains_union.mp h with h | h
      · exact .inl h
      · exact .inr (IntervalSet.contains_singleton.mp h ▸ List.mem_cons_self)
    · exact .inr (List.mem_cons_of_mem _ h)

theorem any_eq_of_covers {values : List TypedValue}
    (hvalues : ∀ w ∈ values, HasType catalogue w ty)
    (hx : ∀ v, x = some v → Conforms catalogue ty v) (h : Covers ty x (inSetRegion ty values)) :
    ∃ v, x = some v ∧ values.any v.eq = true := by
  have htyped : ∀ w ∈ values, Conforms catalogue ty w := fun w hw => .inl (hvalues w hw)
  cases ty with
  | enum d =>
    obtain ⟨u, rfl, hu⟩ := h
    obtain ⟨w, hw, hwu⟩ := List.mem_filterMap.mp (mem_ofList.mp hu)
    obtain ⟨_, -, rfl, -, -⟩ := conforms_enum (htyped w hw)
    cases hwu
    exact ⟨_, rfl, List.any_eq_true.mpr ⟨_, hw, by simp [eq_enum]⟩⟩
  | bool =>
    obtain ⟨u, rfl, hu⟩ := h
    obtain ⟨w, hw, hwu⟩ := List.mem_filterMap.mp (mem_ofList.mp hu)
    obtain ⟨_, rfl⟩ := conforms_bool (htyped w hw)
    cases hwu
    exact ⟨_, rfl, List.any_eq_true.mpr ⟨_, hw, by simp [eq_bool]⟩⟩
  | integer =>
    rcases h with ⟨hty, -⟩ | ⟨-, i, rfl, hi⟩
    · cases hty
    · obtain ⟨_, heq, hi64⟩ := conforms_integer (hx _ rfl)
      cases heq
      have hmem := (mem_of_contains_foldl_union hi).resolve_left nofun
      obtain ⟨w, hw, hwi⟩ := List.mem_filterMap.mp hmem
      obtain ⟨j, rfl, hj⟩ := conforms_integer (htyped w hw)
      have hij : i = j := by
        have htoInt := congrArg Int64.toInt (Option.some.inj hwi)
        rw [toInt_ofInt hi64, toInt_ofInt hj] at htoInt
        exact htoInt.symm
      exact ⟨_, rfl, List.any_eq_true.mpr ⟨_, hw, by rw [eq_integer, hij, decide_eq_true_eq]⟩⟩
  | decimal => exact h.elim
  | str =>
    obtain ⟨u, rfl, hu⟩ := h
    obtain ⟨w, hw, hwu⟩ := List.mem_filterMap.mp (mem_ofList.mp hu)
    obtain ⟨_, rfl⟩ := conforms_str (htyped w hw)
    cases hwu
    exact ⟨_, rfl, List.any_eq_true.mpr ⟨_, hw, by simp [eq_str]⟩⟩

theorem meetsBounds_of_covers {lower upper : Option TypedValue}
    {lowerInclusive upperInclusive : Bool} (hnumeric : ty.isNumeric = true)
    (hlower : ∀ w ∈ lower, HasType catalogue w ty) (hupper : ∀ w ∈ upper, HasType catalogue w ty)
    (hx : ∀ v, x = some v → Conforms catalogue ty v)
    (h : Covers ty x (rangeRegion lower upper lowerInclusive upperInclusive)) :
    ∃ v, x = some v ∧
      (meetsBound v lower lowerInclusive .lt && meetsBound v upper upperInclusive .gt) = true := by
  unfold rangeRegion at h
  cases ty with
  | integer =>
    rw [if_neg (by simp [not_isDecimal_of_integer hlower, not_isDecimal_of_integer hupper])] at h
    rcases h with ⟨hty, -⟩ | ⟨-, i, rfl, hi⟩
    · cases hty
    · obtain ⟨_, heq, hi64⟩ := conforms_integer (hx _ rfl)
      cases heq
      obtain ⟨hlo, hhi⟩ := IntervalSet.contains_fromRange.mp hi
      exact ⟨_, rfl, Bool.and_eq_true_iff.mpr ⟨(meetsBound_iff_lowerOk hi64 hlower).mpr hlo,
        (meetsBound_iff_upperOk hi64 hupper).mpr hhi⟩⟩
  | decimal =>
    split at h
    case isTrue => exact h.elim
    case isFalse hnot =>
      rw [not_or, Bool.not_eq_true, Bool.not_eq_true] at hnot
      rw [eq_none_of_decimal hlower hnot.1, eq_none_of_decimal hupper hnot.2]
      obtain ⟨v, hv⟩ := exists_of_covers h (by simp) (by simp)
      exact ⟨v, hv, rfl⟩
  | enum | bool | str => cases hnumeric

end Tests

section Predicates

/-- Every disjunction is about one field, and what is negated is about some field. -/
inductive Separable : TypedPredicate → Prop
  | comparison {field : FieldId} {op : ComparisonOp} {rhs : TypedValue} {span : SourceSpan} :
    Separable (.comparison field op rhs span)
  | inSet {field : FieldId} {values : List TypedValue} {span : SourceSpan} :
    Separable (.inSet field values span)
  | range {field : FieldId} {lower upper : Option TypedValue} {lowerInclusive upperInclusive : Bool}
    {span : SourceSpan} :
    Separable (.range field lower upper lowerInclusive upperInclusive span)
  | isNull {field : FieldId} {span : SourceSpan} : Separable (.isNull field span)
  | isNotNull {field : FieldId} {span : SourceSpan} : Separable (.isNotNull field span)
  | not {inner : TypedPredicate} {span : SourceSpan} {f : FieldId} (h : Touches f inner) :
    Separable (.not inner span)
  | and {items : List TypedPredicate} {span : SourceSpan} (hitems : ∀ p ∈ items, Separable p) :
    Separable (.and items span)
  | or {items : List TypedPredicate} {span : SourceSpan} {f : FieldId} (hne : items ≠ [])
    (hitems : ∀ p ∈ items, Separable p) (hfield : ∀ p ∈ items, ∀ g, Touches g p → g = f) :
    Separable (.or items span)

variable {schema : List FieldSchema} {catalogue : Catalogue} {input : TypedInputContext}
  {region : FieldId → FieldRegion}

def AllCovered (schema : List FieldSchema) (input : TypedInputContext) (region : FieldId → FieldRegion) :
    Prop :=
  ∀ f entry, schema[f]? = some entry → Covers entry.fieldType (present input f) (region f)

theorem AllCovered.narrowAt {other : FieldRegion}
    {entry : FieldSchema} (hentry : schema[field]? = some entry)
    (h : AllCovered schema input fun f => narrowAt f field other (region f)) :
    Covers entry.fieldType (present input field) other ∧ AllCovered schema input region := by
  have hat : ∀ f entry, schema[f]? = some entry →
      Covers entry.fieldType (present input f) (Region.narrowAt f field other (region f)) := h
  refine ⟨?_, fun f entry' hentry' => ?_⟩
  · have hfield := hat field entry hentry
    rw [Region.narrowAt, if_pos rfl] at hfield
    exact (covers_intersect hfield).2
  · have hf := hat f entry' hentry'
    unfold Region.narrowAt at hf
    split at hf
    case isTrue => exact (covers_intersect hf).1
    case isFalse => exact hf

theorem holds_of_covers_not {inner : TypedPredicate}
    (hinput : InputConforms catalogue schema input) (htyped : inner.WellTyped catalogue schema)
    (hf : Touches f inner)
    (h : AllCovered schema input fun f => narrowNot schema catalogue f inner (region f)) :
    evalPredicate input inner = false ∧ AllCovered schema input region := by
  by_cases hinner : IsSimple inner
  case neg =>
    -- the field that is touched is opaque
    have hlt := lt_of_touches htyped hf
    have hcovers : Covers schema[f].fieldType (present input f)
        (narrowNot schema catalogue f inner (region f)) := h f _ (List.getElem?_eq_getElem hlt)
    rcases narrowNot_compound (f := f) hinner (region f) with ⟨hnot, -⟩ | ⟨-, heq⟩
    · exact absurd hf hnot
    · rw [heq] at hcovers
      exact (covers_intersect hcovers).2.elim
  cases inner with
  | comparison field op rhs span =>
    obtain ⟨entry, hentry, hrhs, hop⟩ := htyped
    obtain ⟨hcovers, hrest⟩ := AllCovered.narrowAt hentry h
    have hconforms : ∀ v, present input field = some v → Conforms catalogue entry.fieldType v :=
      fun v => hinput field entry v hentry
    obtain ⟨hty, v, hv, hflipped⟩ := compareValues_of_covers hrhs hconforms (orderable_flipped hop)
      (comparisonAt_eq hentry hrhs) hcovers
    rw [compareValues_flipped hrhs (hconforms v hv) hop hty, Bool.not_eq_true'] at hflipped
    rw [evalPredicate, evalComparison_eq hv]
    exact ⟨hflipped, hrest⟩
  | isNull field span =>
    obtain ⟨⟨v, hv⟩, hrest⟩ := AllCovered.narrowAt (List.getElem?_eq_getElem htyped) h
    rw [evalPredicate, evalIsNull, hv]
    exact ⟨rfl, hrest⟩
  | isNotNull field span =>
    obtain ⟨hnull, hrest⟩ := AllCovered.narrowAt (List.getElem?_eq_getElem htyped) h
    have hnone : present input field = none := hnull
    rw [evalPredicate, evalIsNotNull, hnone]
    exact ⟨rfl, hrest⟩
  | inSet | range | not | and | or => exact hinner.elim

theorem holds_of_covers_all {items : List TypedPredicate}
    (ih : ∀ p ∈ items, ∀ region : FieldId → FieldRegion,
      AllCovered schema input (fun f => narrow schema catalogue f p (region f)) →
      evalPredicate input p = true ∧ AllCovered schema input region)
    (h : AllCovered schema input fun f => narrowAll schema catalogue f items (region f)) :
    (∀ p ∈ items, evalPredicate input p = true) ∧ AllCovered schema input region := by
  induction items generalizing region with
  | nil => exact ⟨nofun, h⟩
  | cons p items ih' =>
    obtain ⟨hp, hitems⟩ := List.forall_mem_cons.mp ih
    obtain ⟨hholds, hrest⟩ := ih' hitems h
    obtain ⟨hhead, hrest⟩ := hp region hrest
    exact ⟨List.forall_mem_cons.mpr ⟨hhead, hholds⟩, hrest⟩

theorem exists_branch_covered {items : List TypedPredicate} (hne : items ≠ [])
    (hfield : ∀ p ∈ items, ∀ g, Touches g p → g = f)
    (h : AllCovered schema input fun g => unionAll (narrowEach schema catalogue g items)) :
    ∃ p ∈ items, AllCovered schema input fun g => narrow schema catalogue g p .any := by
  have hother : ∀ p ∈ items, ∀ g, g ≠ f → narrow schema catalogue g p .any = .any :=
    fun p hp g hg => narrow_of_not_touches (fun ht => hg (hfield p hp g ht)) _
  have hcovered : ∀ p ∈ items, (∀ entry, schema[f]? = some entry →
      Covers entry.fieldType (present input f) (narrow schema catalogue f p .any)) →
      AllCovered schema input fun g => narrow schema catalogue g p .any := by
    intro p hp hf g entry hentry
    by_cases hg : g = f
    · subst hg
      exact hf entry hentry
    · simp only [hother p hp g hg]
      trivial
  cases hentry : schema[f]? with
  | none =>
    obtain ⟨p, hp⟩ := List.exists_mem_of_ne_nil items hne
    exact ⟨p, hp, hcovered p hp fun entry hsome => by rw [hentry] at hsome; cases hsome⟩
  | some entry =>
    have hunion := h f entry hentry
    simp only [narrowEach_eq_map] at hunion
    obtain ⟨r, hr, hcovers⟩ := exists_mem_of_covers_unionAll (by simpa using hne) hunion
    obtain ⟨p, hp, rfl⟩ := List.mem_map.mp hr
    refine ⟨p, hp, hcovered p hp fun entry' hentry' => ?_⟩
    obtain rfl := Option.mem_unique hentry hentry'
    exact hcovers

theorem holds_of_covers {p : TypedPredicate} (hinput : InputConforms catalogue schema input)
    (htyped : p.WellTyped catalogue schema) (hsep : Separable p)
    (h : AllCovered schema input fun f => narrow schema catalogue f p (region f)) :
    evalPredicate input p = true ∧ AllCovered schema input region := by
  induction p generalizing region with
  | comparison field op rhs span =>
    obtain ⟨entry, hentry, hrhs, hop⟩ := htyped
    simp only [narrow] at h
    obtain ⟨hcovers, hrest⟩ := AllCovered.narrowAt hentry h
    obtain ⟨-, v, hv, hholds⟩ := compareValues_of_covers hrhs
      (fun v => hinput field entry v hentry) hop (comparisonAt_eq hentry hrhs) hcovers
    rw [evalPredicate, evalComparison_eq hv]
    exact ⟨hholds, hrest⟩
  | inSet field values span =>
    obtain ⟨entry, hentry, hvalues⟩ := htyped
    simp only [narrow, inSetAt, hentry] at h
    obtain ⟨hcovers, hrest⟩ := AllCovered.narrowAt hentry h
    obtain ⟨v, hv, hholds⟩ := any_eq_of_covers hvalues (fun v => hinput field entry v hentry) hcovers
    rw [evalPredicate, evalInSet, hv]
    exact ⟨hholds, hrest⟩
  | range field lower upper lowerInclusive upperInclusive span =>
    obtain ⟨entry, hentry, hnumeric, hlower, hupper⟩ := htyped
    simp only [narrow] at h
    obtain ⟨hcovers, hrest⟩ := AllCovered.narrowAt hentry h
    obtain ⟨v, hv, hholds⟩ := meetsBounds_of_covers hnumeric hlower hupper
      (fun v => hinput field entry v hentry) hcovers
    rw [evalPredicate, evalRange, hv]
    exact ⟨hholds, hrest⟩
  | isNull field span =>
    simp only [narrow] at h
    obtain ⟨hnull, hrest⟩ := AllCovered.narrowAt (List.getElem?_eq_getElem htyped) h
    have hnone : present input field = none := hnull
    rw [evalPredicate, evalIsNull, hnone]
    exact ⟨rfl, hrest⟩
  | isNotNull field span =>
    simp only [narrow] at h
    obtain ⟨⟨v, hv⟩, hrest⟩ := AllCovered.narrowAt (List.getElem?_eq_getElem htyped) h
    rw [evalPredicate, evalIsNotNull, hv]
    exact ⟨rfl, hrest⟩
  | not inner span ih =>
    cases hsep with
    | not hf =>
      simp only [narrow] at h
      have hinner : inner.WellTyped catalogue schema := htyped
      obtain ⟨hfails, hrest⟩ := holds_of_covers_not hinput hinner hf h
      rw [evalPredicate, hfails]
      exact ⟨rfl, hrest⟩
  | and items span ih =>
    have hitems := TypedPredicate.everyAll_iff.mp htyped.2
    cases hsep with
    | and hsep =>
      simp only [narrow] at h
      obtain ⟨hholds, hrest⟩ := holds_of_covers_all
        (fun p hp region hr => ih p hp (hitems p hp) (hsep p hp) hr) h
      rw [evalPredicate, evalPredicates_eq_map, List.all_map, List.all_eq_true]
      exact ⟨hholds, hrest⟩
  | or items span ih =>
    have hitems := TypedPredicate.everyAll_iff.mp htyped.2
    cases hsep with
    | @or _ _ f hne hsep hfield =>
      have hboth : ∀ g entry, schema[g]? = some entry →
          Covers entry.fieldType (present input g) (region g) ∧
          Covers entry.fieldType (present input g) (unionAll (narrowEach schema catalogue g items)) := by
        intro g entry hentry
        have hg := h g entry hentry
        simp only [narrow] at hg
        exact covers_intersect hg
      refine ⟨?_, fun g entry hentry => (hboth g entry hentry).1⟩
      obtain ⟨p, hp, hcovered⟩ := exists_branch_covered hne hfield
        fun g entry hentry => (hboth g entry hentry).2
      obtain ⟨hholds, -⟩ := @ih p hp (fun _ => .any) (hitems p hp) (hsep p hp) hcovered
      rw [evalPredicate, evalPredicates_eq_map, List.any_map, List.any_eq_true]
      exact ⟨p, hp, hholds⟩

theorem matches_of_covers {preds : List TypedPredicate} (hinput : InputConforms catalogue schema input)
    (htyped : ∀ p ∈ preds, p.WellTyped catalogue schema) (hsep : ∀ p ∈ preds, Separable p)
    (h : AllCovered schema input fun f => narrowAll schema catalogue f preds .any) :
    ∀ p ∈ preds, evalPredicate input p = true :=
  (@holds_of_covers_all schema catalogue input (fun _ => .any) preds
    (fun p hp _ hr => holds_of_covers hinput (htyped p hp) (hsep p hp) hr) h).1

end Predicates

end BpmnLite.Dmn.Region
