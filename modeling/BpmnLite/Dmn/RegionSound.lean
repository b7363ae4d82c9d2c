import BpmnLite.Dmn.RegionSpec

/-!
# Regions are around the inputs that match

`Admits` says which values lie in a region. If a rule matches an input, every field that is not null
lies in the region of the rule. For a null field this takes a condition on the rules, `NullClear`: the
negation of a comparison is read as the opposite comparison, which null does not meet, and a region
that is only null is taken to be disjoint from an opaque one.
-/

namespace BpmnLite.Dmn.Region

open Reference IntervalSet
open Std (ExtTreeSet)

variable {ty : ResolvedType} {P : FieldRegion → Prop} {regions : List FieldRegion}
  {r region other s : FieldRegion} {op : ComparisonOp} {set : IntervalSet}
  {lower upper bound : Option TypedValue} {inclusive : Bool} {entry : FieldSchema} {field : FieldId}
  {items preds preds' : List TypedPredicate} {span : SourceSpan} {input : TypedInputContext} {i : ℤ}
  {rhs v : TypedValue} {inner p : TypedPredicate}

section Values

/-- A value of a field's type; an integer may stand for a decimal. -/
def Conforms (catalogue : Catalogue) (ty : ResolvedType) (v : TypedValue) : Prop :=
  HasType catalogue v ty ∨ ty = .decimal ∧ ∃ i, v = .integer i

/-- The values of an input that are not null have the type of their field. -/
def InputConforms (catalogue : Catalogue) (schema : List FieldSchema) (input : TypedInputContext) :
    Prop :=
  ∀ f entry v, schema[f]? = some entry → present input f = some v →
    Conforms catalogue entry.fieldType v

/-- The values of a field of a type that lie in a region, null aside. -/
def Admits (ty : ResolvedType) (v : TypedValue) : FieldRegion → Prop
  | .empty => False
  | .any => True
  | .notNull => True
  | .nullOnly => False
  | .enumSet d values => ∃ x, v = .enum d x ∧ x ∈ values
  | .boolSet values => ∃ b, v = .bool b ∧ b ∈ values
  | .integerInterval set => (∃ i, v = .integer i ∧ set.contains (Int64.ofInt i) = true) ∨
      (∃ x, v = .decimal x) ∧ ∀ i, set.contains i = true
  | .decimalOpaque => ty = .decimal
  | .stringSet values => ∃ s, v = .str s ∧ s ∈ values
  | .stringOpaque => ty = .str
  | .opaqueRegion _ => True

variable {a b : FieldRegion}

theorem admits_orEmpty {κ : Type} [Ord κ] [Std.TransOrd κ] {make : BTreeSet κ → FieldRegion}
    {values : BTreeSet κ} {x : κ} (hmem : x ∈ values) (h : Admits ty v (make values)) :
    Admits ty v (orEmpty make values) := by
  unfold orEmpty
  split
  case isTrue hempty =>
    rw [ExtTreeSet.isEmpty_iff.mp hempty] at hmem
    exact absurd hmem ExtTreeSet.not_mem_empty
  case isFalse => exact h

theorem admits_interval_intersect {s t : IntervalSet} (hs : Admits ty v (.integerInterval s))
    (ht : Admits ty v (.integerInterval t)) :
    (s.intersect t).isEmpty = false ∧ Admits ty v (.integerInterval (s.intersect t)) := by
  rcases hs with ⟨i, rfl, hsi⟩ | ⟨⟨x, rfl⟩, hs⟩
  · rcases ht with ⟨j, hj, hti⟩ | ⟨⟨x, hx⟩, -⟩
    · cases hj
      have hmem := contains_intersect.mpr ⟨hsi, hti⟩
      exact ⟨isEmpty_of_contains hmem, .inl ⟨i, rfl, hmem⟩⟩
    · cases hx
  · rcases ht with ⟨j, hj, -⟩ | ⟨-, ht⟩
    · cases hj
    · have hmem := fun i => contains_intersect.mpr ⟨hs i, ht i⟩
      exact ⟨isEmpty_of_contains (hmem 0), .inr ⟨⟨x, rfl⟩, hmem⟩⟩

theorem admits_intersect (ha : Admits ty v a) (hb : Admits ty v b) : Admits ty v (intersect a b) := by
  unfold intersect
  split
  case h_1 | h_5 | h_6 => exact ha.elim
  case h_2 | h_7 => exact hb.elim
  case h_3 | h_9 | h_15 | h_18 | h_20 => exact hb
  case h_4 | h_8 | h_10 | h_14 | h_17 | h_19 => exact ha
  case h_11 =>
    obtain ⟨x, rfl, hx⟩ := ha
    obtain ⟨y, hy, hx'⟩ := hb
    cases hy
    have hboth := ExtTreeSet.mem_inter_iff.mpr ⟨hx, hx'⟩
    rw [if_neg (not_not.mpr rfl)]
    exact admits_orEmpty hboth ⟨x, rfl, hboth⟩
  case h_12 | h_16 =>
    obtain ⟨x, rfl, hx⟩ := ha
    obtain ⟨y, hy, hx'⟩ := hb
    cases hy
    have hboth := ExtTreeSet.mem_inter_iff.mpr ⟨hx, hx'⟩
    exact admits_orEmpty hboth ⟨x, rfl, hboth⟩
  case h_13 =>
    obtain ⟨hne, hmem⟩ := admits_interval_intersect ha hb
    rw [hne]
    exact hmem
  case h_21 =>
    -- regions of two kinds have no value in common
    cases a <;> cases b <;> simp only [Admits] at ha hb <;> grind

theorem unionField_any_left (b : FieldRegion) : unionField .any b = .any := by
  cases b <;> rfl

theorem unionField_any_right (a : FieldRegion) : unionField a .any = .any := by
  cases a <;> rfl

theorem admits_interval_union {s t : IntervalSet}
    (h : Admits ty v (.integerInterval s) ∨ Admits ty v (.integerInterval t)) :
    Admits ty v (.integerInterval (s.union t)) := by
  rcases h with (⟨i, rfl, hi⟩ | ⟨hx, hall⟩) | ⟨i, rfl, hi⟩ | ⟨hx, hall⟩
  · exact .inl ⟨i, rfl, contains_union.mpr (.inl hi)⟩
  · exact .inr ⟨hx, fun i => contains_union.mpr (.inl (hall i))⟩
  · exact .inl ⟨i, rfl, contains_union.mpr (.inr hi)⟩
  · exact .inr ⟨hx, fun i => contains_union.mpr (.inr (hall i))⟩

theorem admits_unionField (h : Admits ty v a ∨ Admits ty v b) : Admits ty v (unionField a b) := by
  unfold unionField
  split
  case h_1 => exact h.resolve_left id
  case h_2 => exact h.resolve_right id
  case h_5 => exact h.elim id id
  case h_7 =>
    split
    case isTrue heq =>
      subst heq
      rcases h with ⟨x, rfl, hx⟩ | ⟨x, rfl, hx⟩
      · exact ⟨x, rfl, ExtTreeSet.mem_union_iff.mpr (.inl hx)⟩
      · exact ⟨x, rfl, ExtTreeSet.mem_union_iff.mpr (.inr hx)⟩
    case isFalse => trivial
  case h_8 | h_10 =>
    rcases h with ⟨x, rfl, hx⟩ | ⟨x, rfl, hx⟩
    · exact ⟨x, rfl, ExtTreeSet.mem_union_iff.mpr (.inl hx)⟩
    · exact ⟨x, rfl, ExtTreeSet.mem_union_iff.mpr (.inr hx)⟩
  case h_9 => exact admits_interval_union h
  all_goals trivial

theorem unionAll_of_mem (hunion : ∀ {r s}, P r ∨ P s → P (unionField r s)) (hmem : r ∈ regions)
    (h : P r) : P (unionAll regions) := by
  have hfold : ∀ (rest : List FieldRegion) (start : FieldRegion), P start ∨ r ∈ rest →
      P (rest.foldl unionField start) := by
    intro rest
    induction rest with
    | nil => exact fun start h => h.resolve_right List.not_mem_nil
    | cons s rest ih =>
      intro start hstart
      apply ih
      rcases hstart with hstart | hmem
      · exact .inl (hunion (.inl hstart))
      · rcases List.mem_cons.mp hmem with rfl | hmem
        · exact .inl (hunion (.inr h))
        · exact .inr hmem
  cases regions with
  | nil => exact absurd hmem List.not_mem_nil
  | cons first rest =>
    rcases List.mem_cons.mp hmem with rfl | hmem
    · exact hfold rest r (.inl h)
    · exact hfold rest first (.inr hmem)

end Values

section Tests

variable {catalogue : Catalogue}

theorem evalComparison_eq {f : FieldId} (h : present input f = some v) :
    evalComparison input f op rhs = compareValues op v rhs := by
  rw [evalComparison, h]

def Orderable (ty : ResolvedType) (op : ComparisonOp) : Prop :=
  op = .eq ∨ op = .notEq ∨ ty.isNumeric = true

theorem toInt_ofInt (h : IsI64 i) : (Int64.ofInt i).toInt = i :=
  Int64.toInt_ofInt_of_le h.1 h.2

theorem eq_integer (i j : ℤ) : (TypedValue.integer i).eq (.integer j) = decide (i = j) := rfl

theorem compareNumeric_integer (i j : ℤ) :
    (TypedValue.integer i).compareNumeric (.integer j) = some (compare i j) := rfl

theorem contains_integerComparison {j : ℤ} (hi : IsI64 i) (hj : IsI64 j)
    (hset : integerComparison op (Int64.ofInt j) = .integerInterval set) :
    set.contains (Int64.ofInt i) = true ↔ compareValues op (.integer i) (.integer j) = true := by
  have hinj : Int64.ofInt i = Int64.ofInt j ↔ i = j := by
    rw [← Int64.toInt_inj, toInt_ofInt hi, toInt_ofInt hj]
  obtain rfl := FieldRegion.integerInterval.inj hset
  cases op with
  | eq =>
    rw [contains_singleton, hinj, compareValues, eq_integer, decide_eq_true_eq]
  | notEq =>
    rw [contains_complement_singleton, ne_eq, hinj, compareValues, eq_integer]
    simp
  | lt =>
    rw [contains_fromRange]
    simp [boundOf, Bound.upperOk, Bound.lowerOk, Int64.lt_iff_toInt_lt, toInt_ofInt hi,
      toInt_ofInt hj, compareValues, compareNumeric_integer, compare_lt_iff_lt]
  | le =>
    rw [contains_fromRange]
    simp [boundOf, Bound.upperOk, Bound.lowerOk, Int64.le_iff_toInt_le, toInt_ofInt hi,
      toInt_ofInt hj, compareValues, compareNumeric_integer]
    exact compare_le_iff_le.symm
  | gt =>
    rw [contains_fromRange]
    simp [boundOf, Bound.upperOk, Bound.lowerOk, Int64.lt_iff_toInt_lt, toInt_ofInt hi,
      toInt_ofInt hj, compareValues, compareNumeric_integer, compare_gt_iff_gt]
  | ge =>
    rw [contains_fromRange]
    simp [boundOf, Bound.upperOk, Bound.lowerOk, Int64.le_iff_toInt_le, toInt_ofInt hi,
      toInt_ofInt hj, compareValues, compareNumeric_integer]
    exact compare_ge_iff_ge.symm

theorem mem_ofList {κ : Type} [Ord κ] [Std.TransOrd κ] [BEq κ] [LawfulBEq κ] [Std.LawfulBEqOrd κ]
    {l : List κ} {x : κ} : x ∈ (ExtTreeSet.ofList l compare : BTreeSet κ) ↔ x ∈ l := by
  rw [ExtTreeSet.mem_ofList, List.contains_iff_mem]

theorem eq_enum (d d' : DomainId) (x y : ValueId) :
    (TypedValue.enum d x).eq (.enum d' y) = (decide (d = d') && decide (x = y)) := rfl

theorem eq_bool (a b : Bool) : (TypedValue.bool a).eq (.bool b) = decide (a = b) := rfl

theorem eq_str (a b : String) : (TypedValue.str a).eq (.str b) = decide (a = b) := rfl

theorem conforms_enum {d : DomainId} (h : Conforms catalogue (.enum d) v) :
    ∃ x found, v = .enum d x ∧ catalogue.findDomainById d = some found ∧ x ∈ found.valueIds := by
  rcases h with h | ⟨h, -⟩
  · cases v with
    | enum d' x =>
      obtain ⟨rfl, found, hfound, hx⟩ := h
      exact ⟨x, found, rfl, hfound, hx⟩
    | _ => exact h.elim
  · cases h

theorem conforms_bool (h : Conforms catalogue .bool v) : ∃ b, v = .bool b := by
  rcases h with h | ⟨h, -⟩
  · cases v with
    | bool b => exact ⟨b, rfl⟩
    | _ => exact h.elim
  · cases h

theorem conforms_integer (h : Conforms catalogue .integer v) : ∃ i, v = .integer i ∧ IsI64 i := by
  rcases h with h | ⟨h, -⟩
  · cases v with
    | integer i => exact ⟨i, rfl, h⟩
    | _ => exact h.elim
  · cases h

theorem conforms_str (h : Conforms catalogue .str v) : ∃ s, v = .str s := by
  rcases h with h | ⟨h, -⟩
  · cases v with
    | str s => exact ⟨s, rfl⟩
    | _ => exact h.elim
  · cases h

theorem conforms_decimal (h : Conforms catalogue .decimal v) :
    (∃ x, v = .decimal x) ∨ ∃ i, v = .integer i := by
  rcases h with h | ⟨-, h⟩
  · cases v with
    | decimal x => exact .inl ⟨x, rfl⟩
    | _ => exact h.elim
  · exact .inr h

theorem admits_comparisonRegion (hrhs : HasType catalogue rhs ty) (hv : Conforms catalogue ty v)
    (hop : Orderable ty op) (h : compareValues op v rhs = true)
    (hregion : comparisonRegion catalogue ty op rhs = some region) : Admits ty v region := by
  have hrhs' : Conforms catalogue ty rhs := .inl hrhs
  cases ty with
  | enum d =>
    obtain ⟨x, found, rfl, hfound, hx⟩ := conforms_enum hv
    obtain ⟨r, -, rfl, -, -⟩ := conforms_enum hrhs'
    rcases hop with rfl | rfl | hnumeric
    · obtain rfl : x = r := by simpa [compareValues, eq_enum] using h
      cases hregion
      exact ⟨x, rfl, mem_ofList.mpr (List.mem_singleton.mpr rfl)⟩
    · have hne : x ≠ r := by simpa [compareValues, eq_enum] using h
      rw [comparisonRegion, catalogueValues, hfound] at hregion
      cases hregion
      refine ⟨x, rfl, ExtTreeSet.mem_erase.mpr ⟨?_, mem_ofList.mpr hx⟩⟩
      exact fun heq => hne (Std.LawfulEqOrd.eq_of_compare heq).symm
    · cases hnumeric
  | bool =>
    obtain ⟨b, rfl⟩ := conforms_bool hv
    obtain ⟨r, rfl⟩ := conforms_bool hrhs'
    rcases hop with rfl | rfl | hnumeric
    · obtain rfl : b = r := by simpa [compareValues, eq_bool] using h
      cases hregion
      exact ⟨b, rfl, mem_ofList.mpr (List.mem_singleton.mpr rfl)⟩
    · have hne : b = !r := Bool.eq_not.mpr (by simpa [compareValues, eq_bool] using h)
      cases hregion
      exact ⟨b, rfl, mem_ofList.mpr (List.mem_singleton.mpr hne)⟩
    · cases hnumeric
  | integer =>
    obtain ⟨i, rfl, hi⟩ := conforms_integer hv
    obtain ⟨j, rfl, hj⟩ := conforms_integer hrhs'
    obtain rfl : integerComparison op (Int64.ofInt j) = region := by
      cases op <;> exact Option.some.inj hregion
    exact .inl ⟨i, rfl, (contains_integerComparison hi hj rfl).mpr h⟩
  | decimal =>
    obtain rfl : FieldRegion.decimalOpaque = region := by cases op <;> exact Option.some.inj hregion
    rfl
  | str =>
    obtain ⟨s, rfl⟩ := conforms_str hv
    obtain ⟨r, rfl⟩ := conforms_str hrhs'
    rcases hop with rfl | rfl | hnumeric
    · obtain rfl : s = r := by simpa [compareValues, eq_str] using h
      cases hregion
      exact ⟨s, rfl, mem_ofList.mpr (List.mem_singleton.mpr rfl)⟩
    · cases hregion
      rfl
    · cases hnumeric

theorem orderable_flipped (h : Orderable ty op) : Orderable ty (flipped op) := by
  rcases h with rfl | rfl | h
  · exact .inr (.inl rfl)
  · exact .inl rfl
  · exact .inr (.inr h)

theorem compareValues_flipped (hrhs : HasType catalogue rhs ty) (hv : Conforms catalogue ty v)
    (hop : Orderable ty op) (hty : ty ≠ .decimal) :
    compareValues (flipped op) v rhs = !compareValues op v rhs := by
  have hrhs' : Conforms catalogue ty rhs := .inl hrhs
  have hnull : rhs ≠ .null := by
    rintro rfl
    cases ty <;> exact hrhs
  have hequality : op = .eq ∨ op = .notEq →
      compareValues (flipped op) v rhs = !compareValues op v rhs := by
    rintro (rfl | rfl)
    · simp [compareValues, flipped, hnull]
    · simp [compareValues, flipped, hnull]
  rcases hop with rfl | rfl | hnumeric
  · exact hequality (.inl rfl)
  · exact hequality (.inr rfl)
  · cases ty with
    | integer =>
      obtain ⟨i, rfl, -⟩ := conforms_integer hv
      obtain ⟨j, rfl, -⟩ := conforms_integer hrhs'
      cases op with
      | eq => exact hequality (.inl rfl)
      | notEq => exact hequality (.inr rfl)
      | lt | le | gt | ge => simp [compareValues, flipped, compareNumeric_integer]
    | decimal => exact absurd rfl hty
    | enum | bool | str => cases hnumeric

theorem admits_flipped (hrhs : HasType catalogue rhs ty) (hv : Conforms catalogue ty v)
    (hop : Orderable ty op) (h : compareValues op v rhs = false)
    (hregion : comparisonRegion catalogue ty (flipped op) rhs = some region) :
    Admits ty v region := by
  by_cases hty : ty = .decimal
  · subst hty
    obtain rfl : FieldRegion.decimalOpaque = region := by cases op <;> exact Option.some.inj hregion
    rfl
  · have hflipped : compareValues (flipped op) v rhs = true := by
      rw [compareValues_flipped hrhs hv hop hty, h]
      rfl
    exact admits_comparisonRegion hrhs hv (orderable_flipped hop) hflipped hregion

theorem contains_foldl_union {is : List Int64} {i : Int64} (h : set.contains i = true ∨ i ∈ is) :
    (is.foldl (fun set i => set.union (.singleton i)) set).contains i = true := by
  induction is generalizing set with
  | nil => exact h.resolve_right List.not_mem_nil
  | cons j is ih =>
    apply ih
    rcases h with h | h
    · exact .inl (contains_union.mpr (.inl h))
    · rcases List.mem_cons.mp h with rfl | h
      · exact .inl (contains_union.mpr (.inr (contains_singleton.mpr rfl)))
      · exact .inr h

theorem admits_inSetRegion {values : List TypedValue} (hv : Conforms catalogue ty v)
    (hvalues : ∀ w ∈ values, HasType catalogue w ty) (h : values.any v.eq = true) :
    Admits ty v (inSetRegion ty values) := by
  obtain ⟨w, hw, heq⟩ := List.any_eq_true.mp h
  have hw' : Conforms catalogue ty w := .inl (hvalues w hw)
  cases ty with
  | enum d =>
    obtain ⟨x, -, rfl, -, -⟩ := conforms_enum hv
    obtain ⟨y, -, rfl, -, -⟩ := conforms_enum hw'
    obtain rfl : x = y := by simpa [eq_enum] using heq
    exact ⟨x, rfl, mem_ofList.mpr (List.mem_filterMap.mpr ⟨_, hw, rfl⟩)⟩
  | bool =>
    obtain ⟨b, rfl⟩ := conforms_bool hv
    obtain ⟨c, rfl⟩ := conforms_bool hw'
    obtain rfl : b = c := by simpa [eq_bool] using heq
    exact ⟨b, rfl, mem_ofList.mpr (List.mem_filterMap.mpr ⟨_, hw, rfl⟩)⟩
  | integer =>
    obtain ⟨i, rfl, -⟩ := conforms_integer hv
    obtain ⟨j, rfl, -⟩ := conforms_integer hw'
    obtain rfl : i = j := by simpa [eq_integer] using heq
    exact .inl ⟨i, rfl, contains_foldl_union (.inr (List.mem_filterMap.mpr ⟨_, hw, rfl⟩))⟩
  | decimal => rfl
  | str =>
    obtain ⟨s, rfl⟩ := conforms_str hv
    obtain ⟨t, rfl⟩ := conforms_str hw'
    obtain rfl : s = t := by simpa [eq_str] using heq
    exact ⟨s, rfl, mem_ofList.mpr (List.mem_filterMap.mpr ⟨_, hw, rfl⟩)⟩

theorem meetsBound_integer (i j : ℤ) (inclusive : Bool) (outside : Ordering) :
    meetsBound (.integer i) (some (.integer j)) inclusive outside = true ↔
      if i = j then inclusive = true else compare i j ≠ outside := by
  rw [meetsBound, compareNumeric_integer]
  rcases lt_trichotomy i j with hlt | rfl | hgt
  · simp [compare_lt_iff_lt.mpr hlt, hlt.ne]
  · simp
  · simp [compare_gt_iff_gt.mpr hgt, hgt.ne']

theorem meetsBound_iff_lowerOk (hi : IsI64 i) (hlower : ∀ w ∈ lower, HasType catalogue w .integer) :
    meetsBound (.integer i) lower inclusive .lt = true ↔
      (boundOf (lower.bind integerOf) inclusive).lowerOk (Int64.ofInt i) = true := by
  cases lower with
  | none => exact iff_of_true rfl rfl
  | some w =>
    obtain ⟨j, rfl, hj⟩ := conforms_integer (.inl (hlower w rfl) : Conforms catalogue .integer w)
    rw [meetsBound_integer, lowerOk_iff, toInt_ofInt hi, ne_eq, compare_lt_iff_lt]
    cases inclusive <;> simp [boundOf, integerOf, Bound.first, toInt_ofInt hj] <;> omega

theorem meetsBound_iff_upperOk (hi : IsI64 i) (hupper : ∀ w ∈ upper, HasType catalogue w .integer) :
    meetsBound (.integer i) upper inclusive .gt = true ↔
      (boundOf (upper.bind integerOf) inclusive).upperOk (Int64.ofInt i) = true := by
  cases upper with
  | none => exact iff_of_true rfl rfl
  | some w =>
    obtain ⟨j, rfl, hj⟩ := conforms_integer (.inl (hupper w rfl) : Conforms catalogue .integer w)
    rw [meetsBound_integer, upperOk_iff, toInt_ofInt hi, ne_eq, compare_gt_iff_gt]
    cases inclusive <;> simp [boundOf, integerOf, Bound.last, toInt_ofInt hj] <;> omega

theorem not_isDecimal_of_integer (h : ∀ w ∈ bound, HasType catalogue w .integer) :
    bound.any isDecimal = false := by
  cases bound with
  | none => rfl
  | some w =>
    obtain ⟨j, rfl, -⟩ := conforms_integer (.inl (h w rfl) : Conforms catalogue .integer w)
    rfl

theorem eq_none_of_decimal (h : ∀ w ∈ bound, HasType catalogue w .decimal)
    (hnot : bound.any isDecimal = false) : bound = none := by
  cases bound with
  | none => rfl
  | some w =>
    cases w with
    | decimal x => cases hnot
    | _ => exact (h _ rfl).elim

theorem admits_rangeRegion {lowerInclusive upperInclusive : Bool} (hv : Conforms catalogue ty v)
    (hnumeric : ty.isNumeric = true) (hlower : ∀ w ∈ lower, HasType catalogue w ty)
    (hupper : ∀ w ∈ upper, HasType catalogue w ty)
    (h : (meetsBound v lower lowerInclusive .lt && meetsBound v upper upperInclusive .gt) = true) :
    Admits ty v (rangeRegion lower upper lowerInclusive upperInclusive) := by
  obtain ⟨hlo, hhi⟩ := Bool.and_eq_true_iff.mp h
  unfold rangeRegion
  cases ty with
  | integer =>
    obtain ⟨i, rfl, hi⟩ := conforms_integer hv
    rw [if_neg (by simp [not_isDecimal_of_integer hlower, not_isDecimal_of_integer hupper])]
    exact .inl ⟨i, rfl, contains_fromRange.mpr
      ⟨(meetsBound_iff_lowerOk hi hlower).mp hlo, (meetsBound_iff_upperOk hi hupper).mp hhi⟩⟩
  | decimal =>
    split
    case isTrue => rfl
    case isFalse hnot =>
      -- without a decimal bound there is none, and the set is everything
      rw [not_or, Bool.not_eq_true, Bool.not_eq_true] at hnot
      rw [eq_none_of_decimal hlower hnot.1, eq_none_of_decimal hupper hnot.2]
      have hall : ∀ i, (fromRange none none lowerInclusive upperInclusive).contains i =
          true := fun i => contains_fromRange.mpr ⟨rfl, rfl⟩
      rcases conforms_decimal hv with hx | ⟨i, rfl⟩
      · exact .inr ⟨hx, hall⟩
      · exact .inl ⟨i, rfl, hall _⟩
  | enum | bool | str => cases hnumeric

end Tests

section Present

variable {schema : List FieldSchema} {catalogue : Catalogue} {f : FieldId}

theorem admits_narrowAt (hregion : Admits ty v region) (h : field = f → Admits ty v other) :
    Admits ty v (narrowAt f field other region) := by
  unfold narrowAt
  split
  case isTrue heq => exact admits_intersect hregion (h heq)
  case isFalse => exact hregion

theorem comparisonAt_eq (hentry : schema[f]? = some entry)
    (hrhs : HasType catalogue rhs entry.fieldType) :
    comparisonRegion catalogue entry.fieldType op rhs =
      some (comparisonAt schema catalogue f op rhs) := by
  obtain ⟨region, hregion⟩ := comparisonRegion_isSome hrhs op
  rw [comparisonAt, hentry]
  change _ = some ((comparisonRegion catalogue entry.fieldType op rhs).getD .any)
  rw [hregion]
  rfl

/-- A test of one field by its value, or for null. -/
def IsSimple : TypedPredicate → Prop
  | .comparison _ _ _ _ | .isNull _ _ | .isNotNull _ _ => True
  | _ => False

theorem narrowNot_compound (hinner : ¬ IsSimple inner) (region : FieldRegion) :
    ¬ Touches f inner ∧ narrowNot schema catalogue f inner region = region ∨
    Touches f inner ∧ narrowNot schema catalogue f inner region =
      intersect region (.opaqueRegion "negation of compound predicate") := by
  have hmem : f ∈ collectTouchedFields inner ∅ ↔ Touches f inner := by
    rw [mem_collectTouchedFields]
    exact or_iff_right ExtTreeSet.not_mem_empty
  have heq : narrowNot schema catalogue f inner region =
      if f ∈ collectTouchedFields inner ∅ then
        intersect region (.opaqueRegion "negation of compound predicate") else region := by
    cases inner with
    | comparison | isNull | isNotNull => exact absurd trivial hinner
    | inSet | range | not | and | or => rfl
  rw [heq]
  by_cases h : Touches f inner
  · exact .inr ⟨h, if_pos (hmem.mpr h)⟩
  · exact .inl ⟨h, if_neg (mt hmem.mp h)⟩

theorem narrowAll_invariant
    (hstep : ∀ p ∈ items, ∀ region, P region → P (narrow schema catalogue f p region))
    (h : P region) : P (narrowAll schema catalogue f items region) := by
  induction items generalizing region with
  | nil => exact h
  | cons p items ih =>
    obtain ⟨hp, hitems⟩ := List.forall_mem_cons.mp hstep
    rw [narrowAll]
    exact ih hitems (hp region h)

theorem admits_narrowNot (htyped : inner.WellTyped catalogue schema)
    (hentry : schema[f]? = some entry) (hv : present input f = some v)
    (hconforms : Conforms catalogue entry.fieldType v) (h : evalPredicate input inner = false)
    (hregion : Admits entry.fieldType v region) :
    Admits entry.fieldType v (narrowNot schema catalogue f inner region) := by
  by_cases hinner : IsSimple inner
  case neg =>
    rcases narrowNot_compound (f := f) hinner region with ⟨-, heq⟩ | ⟨-, heq⟩
    · rw [heq]
      exact hregion
    · rw [heq]
      exact admits_intersect hregion trivial
  cases inner with
  | comparison field op rhs span =>
    refine admits_narrowAt hregion ?_
    rintro rfl
    obtain ⟨entry', hentry', hrhs, hop⟩ := htyped
    obtain rfl := Option.mem_unique hentry hentry'
    rw [evalPredicate, evalComparison_eq hv] at h
    exact admits_flipped hrhs hconforms hop h (comparisonAt_eq hentry hrhs)
  | isNull field span => exact admits_narrowAt hregion fun _ => trivial
  | isNotNull field span =>
    refine admits_narrowAt hregion ?_
    rintro rfl
    rw [evalPredicate, evalIsNotNull, hv] at h
    cases h
  | inSet | range | not | and | or => exact hinner.elim

theorem admits_narrow (htyped : p.WellTyped catalogue schema) (hentry : schema[f]? = some entry)
    (hv : present input f = some v) (hconforms : Conforms catalogue entry.fieldType v)
    (h : evalPredicate input p = true) (hregion : Admits entry.fieldType v region) :
    Admits entry.fieldType v (narrow schema catalogue f p region) := by
  induction p generalizing region with
  | comparison field op rhs span =>
    rw [narrow]
    refine admits_narrowAt hregion ?_
    rintro rfl
    obtain ⟨entry', hentry', hrhs, hop⟩ := htyped
    obtain rfl := Option.mem_unique hentry hentry'
    rw [evalPredicate, evalComparison_eq hv] at h
    exact admits_comparisonRegion hrhs hconforms hop h (comparisonAt_eq hentry hrhs)
  | inSet field values span =>
    rw [narrow]
    refine admits_narrowAt hregion ?_
    rintro rfl
    obtain ⟨entry', hentry', hvalues⟩ := htyped
    obtain rfl := Option.mem_unique hentry hentry'
    rw [evalPredicate, evalInSet, hv] at h
    rw [inSetAt, hentry]
    exact admits_inSetRegion hconforms hvalues h
  | range field lower upper lowerInclusive upperInclusive span =>
    rw [narrow]
    refine admits_narrowAt hregion ?_
    rintro rfl
    obtain ⟨entry', hentry', hnumeric, hlower, hupper⟩ := htyped
    obtain rfl := Option.mem_unique hentry hentry'
    rw [evalPredicate, evalRange, hv] at h
    exact admits_rangeRegion hconforms hnumeric hlower hupper h
  | isNull field span =>
    rw [narrow]
    refine admits_narrowAt hregion ?_
    rintro rfl
    rw [evalPredicate, evalIsNull, hv] at h
    cases h
  | isNotNull field span =>
    rw [narrow]
    exact admits_narrowAt hregion fun _ => trivial
  | not inner span ih =>
    rw [evalPredicate, Bool.not_eq_true'] at h
    rw [narrow]
    have hinner : inner.WellTyped catalogue schema := htyped
    exact admits_narrowNot hinner hentry hv hconforms h hregion
  | and items span ih =>
    have hitems := TypedPredicate.everyAll_iff.mp htyped.2
    rw [evalPredicate, evalPredicates_eq_map, List.all_map, List.all_eq_true] at h
    rw [narrow]
    exact narrowAll_invariant (fun p hp region hr => ih p hp (hitems p hp) (h p hp) hr) hregion
  | or items span ih =>
    have hitems := TypedPredicate.everyAll_iff.mp htyped.2
    rw [evalPredicate, evalPredicates_eq_map, List.any_map, List.any_eq_true] at h
    obtain ⟨p, hp, hholds⟩ := h
    rw [narrow, narrowEach_eq_map]
    refine admits_intersect hregion
      (unionAll_of_mem admits_unionField (List.mem_map.mpr ⟨p, hp, rfl⟩) ?_)
    exact ih p hp (hitems p hp) hholds trivial

end Present

section Untouched

variable {schema : List FieldSchema} {catalogue : Catalogue} {f : FieldId}

theorem unionAll_of_mem_any (h : .any ∈ regions) : unionAll regions = .any := by
  refine unionAll_of_mem (P := (· = .any)) ?_ h rfl
  rintro r s (rfl | rfl)
  · exact unionField_any_left s
  · exact unionField_any_right r

theorem narrowAt_of_ne (hne : field ≠ f) (other region : FieldRegion) :
    narrowAt f field other region = region := if_neg hne

theorem narrow_of_not_touches (h : ¬ Touches f p) (region : FieldRegion) :
    narrow schema catalogue f p region = region := by
  induction p generalizing region with
  | comparison field op rhs span =>
    rw [narrow]
    exact narrowAt_of_ne (by rintro rfl; exact h .comparison) _ _
  | inSet field values span =>
    rw [narrow]
    exact narrowAt_of_ne (by rintro rfl; exact h .inSet) _ _
  | range field lower upper lowerInclusive upperInclusive span =>
    rw [narrow]
    exact narrowAt_of_ne (by rintro rfl; exact h .range) _ _
  | isNull field span =>
    rw [narrow]
    exact narrowAt_of_ne (by rintro rfl; exact h .isNull) _ _
  | isNotNull field span =>
    rw [narrow]
    exact narrowAt_of_ne (by rintro rfl; exact h .isNotNull) _ _
  | not inner span ih =>
    rw [narrow]
    by_cases hinner : IsSimple inner
    case neg =>
      rcases narrowNot_compound (f := f) hinner region with ⟨-, heq⟩ | ⟨ht, -⟩
      · exact heq
      · exact absurd (.not ht) h
    cases inner with
    | comparison field op rhs span =>
      exact narrowAt_of_ne (by rintro rfl; exact h (.not .comparison)) _ _
    | isNull field span => exact narrowAt_of_ne (by rintro rfl; exact h (.not .isNull)) _ _
    | isNotNull field span => exact narrowAt_of_ne (by rintro rfl; exact h (.not .isNotNull)) _ _
    | inSet | range | not | and | or => exact hinner.elim
  | and items span ih =>
    rw [narrow]
    refine narrowAll_invariant (P := (· = region)) ?_ rfl
    rintro p hp _ rfl
    exact ih p hp (fun ht => h (.and hp ht)) _
  | or items span ih =>
    rw [narrow]
    have hany : unionAll (narrowEach schema catalogue f items) = .any := by
      cases items with
      | nil => rfl
      | cons p items =>
        apply unionAll_of_mem_any
        rw [narrowEach, ih p List.mem_cons_self (fun ht => h (.or List.mem_cons_self ht))]
        exact List.mem_cons_self
    rw [hany, intersect_any]

theorem unionAll_eq_any (h : ¬ ∀ q ∈ items, Touches f q) :
    unionAll (narrowEach schema catalogue f items) = .any := by
  push Not at h
  obtain ⟨q, hq, hnot⟩ := h
  apply unionAll_of_mem_any
  rw [narrowEach_eq_map]
  exact List.mem_map.mpr ⟨q, hq, narrow_of_not_touches hnot _⟩

end Untouched

section Null

/-- The field is tested for null, where no branch of an `or` leaves it alone. -/
inductive TestsNull (f : FieldId) : TypedPredicate → Prop
  | isNull {span : SourceSpan} : TestsNull f (.isNull f span)
  | not {span span' : SourceSpan} : TestsNull f (.not (.isNotNull f span) span')
  | and {items : List TypedPredicate} {span : SourceSpan} {p : TypedPredicate} (hmem : p ∈ items)
    (h : TestsNull f p) : TestsNull f (.and items span)
  | or {items : List TypedPredicate} {span : SourceSpan} {p : TypedPredicate}
    (hall : ∀ q ∈ items, Touches f q) (hmem : p ∈ items) (h : TestsNull f p) :
    TestsNull f (.or items span)

/-- The field may become opaque: the negation of a compound predicate touches it, or every branch
of an `or` does. -/
inductive Blurs (f : FieldId) : TypedPredicate → Prop
  | not {inner : TypedPredicate} {span : SourceSpan} (hinner : ¬ IsSimple inner)
    (h : Touches f inner) : Blurs f (.not inner span)
  | and {items : List TypedPredicate} {span : SourceSpan} {p : TypedPredicate} (hmem : p ∈ items)
    (h : Blurs f p) : Blurs f (.and items span)
  | or {items : List TypedPredicate} {span : SourceSpan} (hall : ∀ q ∈ items, Touches f q) :
    Blurs f (.or items span)

/-- Not one of the two tests the field for null while the other makes it opaque: `intersect` takes
these two regions for disjoint. -/
def Compatible (f : FieldId) (p q : TypedPredicate) : Prop :=
  ¬ (TestsNull f p ∧ Blurs f q) ∧ ¬ (Blurs f p ∧ TestsNull f q)

/-- The region of the field may lose null though the predicate holds of it. -/
inductive LosesNull (f : FieldId) : TypedPredicate → Prop
  | not {op : ComparisonOp} {rhs : TypedValue} {span span' : SourceSpan} :
    LosesNull f (.not (.comparison f op rhs span) span')
  | and {items : List TypedPredicate} {span : SourceSpan} {p : TypedPredicate} (hmem : p ∈ items)
    (h : LosesNull f p) : LosesNull f (.and items span)
  | clash {items : List TypedPredicate} {span : SourceSpan} (h : ¬ items.Pairwise (Compatible f)) :
    LosesNull f (.and items span)
  | or {items : List TypedPredicate} {span : SourceSpan} {p : TypedPredicate}
    (hall : ∀ q ∈ items, Touches f q) (hmem : p ∈ items) (h : LosesNull f p) :
    LosesNull f (.or items span)

/-- The regions around null, with what made them so. -/
inductive AdmitsNull (tested blurred : Prop) : FieldRegion → Prop
  | any : AdmitsNull tested blurred .any
  | nullOnly (h : tested) : AdmitsNull tested blurred .nullOnly
  | opaqueRegion (h : blurred) (reason : String) : AdmitsNull tested blurred (.opaqueRegion reason)

variable {t b t' b' : Prop}

theorem AdmitsNull.mono (h : AdmitsNull t b region) (ht : t → t') (hb : b → b') :
    AdmitsNull t' b' region := by
  cases h with
  | any => exact .any
  | nullOnly h => exact .nullOnly (ht h)
  | opaqueRegion h reason => exact .opaqueRegion (hb h) reason

theorem AdmitsNull.ne_empty (h : AdmitsNull t b region) : region ≠ .empty := by
  rintro rfl
  cases h

theorem AdmitsNull.intersect (hr : AdmitsNull t b r) (hs : AdmitsNull t' b' s) (htb : ¬ (t ∧ b'))
    (hbt : ¬ (b ∧ t')) : AdmitsNull (t ∨ t') (b ∨ b') (intersect r s) := by
  cases hr with
  | any =>
    have heq : Region.intersect .any s = s := by cases hs <;> rfl
    rw [heq]
    exact hs.mono .inr .inr
  | nullOnly ht =>
    cases hs with
    | any => exact .nullOnly (.inl ht)
    | nullOnly => exact .nullOnly (.inl ht)
    | opaqueRegion hb => exact absurd ⟨ht, hb⟩ htb
  | opaqueRegion hb reason =>
    cases hs with
    | any => exact .opaqueRegion (.inl hb) reason
    | nullOnly ht => exact absurd ⟨hb, ht⟩ hbt
    | opaqueRegion => exact .opaqueRegion (.inl hb) reason

theorem AdmitsNull.union (h : AdmitsNull t True r ∨ AdmitsNull t True s) :
    AdmitsNull t True (unionField r s) := by
  unfold unionField
  split
  case h_1 => exact h.resolve_left fun h => h.ne_empty rfl
  case h_2 => exact h.resolve_right fun h => h.ne_empty rfl
  case h_3 | h_4 => exact .any
  case h_5 => exact h.elim id id
  case h_11 => exact .opaqueRegion trivial _
  -- the other pairs of one kind hold no null at all
  all_goals rcases h with h | h <;> cases h

theorem AdmitsNull.unionAll (hmem : r ∈ regions) (h : AdmitsNull t True r) :
    AdmitsNull t True (unionAll regions) :=
  unionAll_of_mem AdmitsNull.union hmem h

variable {schema : List FieldSchema} {catalogue : Catalogue} {f : FieldId}

theorem AdmitsNull.narrowAt (hregion : AdmitsNull t b region) (htb : ¬ (t ∧ b')) (hbt : ¬ (b ∧ t'))
    (h : field = f → AdmitsNull t' b' other) :
    AdmitsNull (t ∨ t') (b ∨ b') (narrowAt f field other region) := by
  unfold Region.narrowAt
  split
  case isTrue heq => exact hregion.intersect (h heq) htb hbt
  case isFalse => exact hregion.mono .inl .inl

variable (schema catalogue f) in
/-- The predicate leaves regions around null that do not clash with it. -/
def KeepsNull (p : TypedPredicate) : Prop :=
  ∀ {t b : Prop} {region : FieldRegion}, AdmitsNull t b region → ¬ (t ∧ Blurs f p) →
    ¬ (b ∧ TestsNull f p) →
    AdmitsNull (t ∨ TestsNull f p) (b ∨ Blurs f p) (narrow schema catalogue f p region)

theorem AdmitsNull.narrowAll (hitems : ∀ p ∈ items, KeepsNull schema catalogue f p)
    (hpairs : items.Pairwise (Compatible f)) (hregion : AdmitsNull t b region)
    (htb : ∀ p ∈ items, ¬ (t ∧ Blurs f p)) (hbt : ∀ p ∈ items, ¬ (b ∧ TestsNull f p)) :
    AdmitsNull (t ∨ ∃ p ∈ items, TestsNull f p) (b ∨ ∃ p ∈ items, Blurs f p)
      (narrowAll schema catalogue f items region) := by
  -- What the items so far have tested and blurred is carried in `t` and `b`.
  induction items generalizing t b region with
  | nil =>
    rw [Region.narrowAll]
    exact hregion.mono .inl .inl
  | cons p items ih =>
    obtain ⟨hp, hitems⟩ := List.forall_mem_cons.mp hitems
    obtain ⟨hpair, hpairs⟩ := List.pairwise_cons.mp hpairs
    obtain ⟨htp, htb⟩ := List.forall_mem_cons.mp htb
    obtain ⟨hbp, hbt⟩ := List.forall_mem_cons.mp hbt
    have hrest := ih hitems hpairs (hp hregion htp hbp)
      (fun q hq h => h.1.elim (fun ht => htb q hq ⟨ht, h.2⟩) fun ht => (hpair q hq).1 ⟨ht, h.2⟩)
      (fun q hq h => h.1.elim (fun hb => hbt q hq ⟨hb, h.2⟩) fun hb => (hpair q hq).2 ⟨hb, h.2⟩)
    rw [Region.narrowAll, List.exists_mem_cons_iff, List.exists_mem_cons_iff, ← or_assoc, ← or_assoc]
    exact hrest

theorem keepsNull_not (hnull : present input f = none) (h : evalPredicate input inner = false)
    (hclear : ¬ LosesNull f (.not inner span)) :
    KeepsNull schema catalogue f (.not inner span) := by
  intro t b region hregion htb hbt
  rw [narrow]
  by_cases hinner : IsSimple inner
  case neg =>
    rcases narrowNot_compound (f := f) hinner region with ⟨-, heq⟩ | ⟨ht, heq⟩
    · rw [heq]
      exact hregion.mono .inl .inl
    · rw [heq]
      exact hregion.intersect (.opaqueRegion (.not hinner ht) _) htb hbt
  cases inner with
  | comparison field op rhs span =>
    refine hregion.narrowAt htb hbt ?_
    rintro rfl
    exact absurd .not hclear
  | isNull field span =>
    refine hregion.narrowAt htb hbt ?_
    rintro rfl
    rw [evalPredicate, evalIsNull, hnull] at h
    cases h
  | isNotNull field span =>
    refine hregion.narrowAt htb hbt ?_
    rintro rfl
    exact .nullOnly .not
  | inSet | range | not | and | or => exact hinner.elim

theorem keepsNull (schema : List FieldSchema) (catalogue : Catalogue)
    (hnull : present input f = none) (h : evalPredicate input p = true) (hclear : ¬ LosesNull f p) :
    KeepsNull schema catalogue f p := by
  induction p with
  | comparison field op rhs span =>
    intro t b region hregion htb hbt
    rw [narrow]
    refine hregion.narrowAt htb hbt ?_
    rintro rfl
    rw [evalPredicate, evalComparison, hnull] at h
    cases h
  | inSet field values span =>
    intro t b region hregion htb hbt
    rw [narrow]
    refine hregion.narrowAt htb hbt ?_
    rintro rfl
    rw [evalPredicate, evalInSet, hnull] at h
    cases h
  | range field lower upper lowerInclusive upperInclusive span =>
    intro t b region hregion htb hbt
    rw [narrow]
    refine hregion.narrowAt htb hbt ?_
    rintro rfl
    rw [evalPredicate, evalRange, hnull] at h
    cases h
  | isNull field span =>
    intro t b region hregion htb hbt
    rw [narrow]
    refine hregion.narrowAt htb hbt ?_
    rintro rfl
    exact .nullOnly .isNull
  | isNotNull field span =>
    intro t b region hregion htb hbt
    rw [narrow]
    refine hregion.narrowAt htb hbt ?_
    rintro rfl
    rw [evalPredicate, evalIsNotNull, hnull] at h
    cases h
  | not inner span ih =>
    rw [evalPredicate, Bool.not_eq_true'] at h
    exact keepsNull_not hnull h hclear
  | and items span ih =>
    intro t b region hregion htb hbt
    rw [evalPredicate, evalPredicates_eq_map, List.all_map, List.all_eq_true] at h
    have hitems : ∀ p ∈ items, KeepsNull schema catalogue f p :=
      fun p hp => ih p hp (h p hp) fun hl => hclear (.and hp hl)
    have hpairs : items.Pairwise (Compatible f) := by
      by_contra hclash
      exact hclear (.clash hclash)
    have hall := hregion.narrowAll hitems hpairs (fun p hp h => htb ⟨h.1, .and hp h.2⟩)
      fun p hp h => hbt ⟨h.1, .and hp h.2⟩
    rw [narrow]
    refine hall.mono (Or.imp_right ?_) (Or.imp_right ?_)
    · rintro ⟨p, hp, h⟩
      exact .and hp h
    · rintro ⟨p, hp, h⟩
      exact .and hp h
  | or items span ih =>
    intro t b region hregion htb hbt
    rw [narrow]
    by_cases hall : ∀ q ∈ items, Touches f q
    case neg =>
      rw [unionAll_eq_any hall, intersect_any]
      exact hregion.mono .inl .inl
    -- The branch that holds has a region around null, and the union keeps it.
    rw [evalPredicate, evalPredicates_eq_map, List.any_map, List.any_eq_true] at h
    obtain ⟨p, hp, hholds⟩ := h
    have hkeeps : KeepsNull schema catalogue f p := ih p hp hholds fun hl => hclear (.or hall hp hl)
    have hany : AdmitsNull False False .any := .any
    have hbranch : AdmitsNull (TestsNull f (.or items span)) True
        (narrow schema catalogue f p .any) :=
      (hkeeps hany (fun h => h.1) fun h => h.1).mono
        (fun h => .or hall hp (h.resolve_left id)) fun _ => trivial
    have hmem : narrow schema catalogue f p .any ∈ narrowEach schema catalogue f items := by
      rw [narrowEach_eq_map]
      exact List.mem_map.mpr ⟨p, hp, rfl⟩
    have hunion := AdmitsNull.unionAll hmem hbranch
    exact hregion.intersect (hunion.mono id fun _ => .or hall) htb hbt

end Null

section Rules

/-- Null is not lost from the region of the field, by one of the predicates or between two. -/
structure NullClear (f : FieldId) (preds : List TypedPredicate) : Prop where
  keeps : ∀ p ∈ preds, ¬ LosesNull f p
  pairs : preds.Pairwise (Compatible f)

variable {schema : List FieldSchema} {catalogue : Catalogue} {f : FieldId}

def ruleFields (schema : List FieldSchema) (catalogue : Catalogue) (preds : List TypedPredicate) :
    List FieldRegion :=
  (List.replicate schema.length FieldRegion.any).mapIdx fun f r =>
    narrowAll schema catalogue f preds r

@[simp] theorem length_ruleFields : (ruleFields schema catalogue preds).length = schema.length := by
  rw [ruleFields, List.length_mapIdx, List.length_replicate]

theorem getElem_ruleFields (h : f < (ruleFields schema catalogue preds).length) :
    (ruleFields schema catalogue preds)[f] = narrowAll schema catalogue f preds .any := by
  simp only [ruleFields, List.getElem_mapIdx, List.getElem_replicate]

theorem computeOne_eq {rule : TypedRule} (hwhen : rule.when = .predicates preds span)
    (htyped : ∀ p ∈ preds, p.WellTyped catalogue schema) :
    computeOne schema catalogue rule = some ⟨ruleFields schema catalogue preds, false⟩ := by
  rw [computeOne, hwhen]
  change (applyAll schema catalogue preds (List.replicate schema.length .any)).map _ = _
  rw [applyAll_eq (fun p hp fields hlen => applyPredicate_eq (htyped p hp) hlen)
    List.length_replicate]
  rfl

theorem admits_narrowAll (htyped : ∀ p ∈ preds, p.WellTyped catalogue schema)
    (hentry : schema[f]? = some entry) (hv : present input f = some v)
    (hconforms : Conforms catalogue entry.fieldType v)
    (h : ∀ p ∈ preds, evalPredicate input p = true) :
    Admits entry.fieldType v (narrowAll schema catalogue f preds .any) :=
  narrowAll_invariant
    (fun p hp _ hr => admits_narrow (htyped p hp) hentry hv hconforms (h p hp) hr) trivial

theorem admitsNull_narrowAll (schema : List FieldSchema) (catalogue : Catalogue)
    (hnull : present input f = none) (h : ∀ p ∈ preds, evalPredicate input p = true)
    (hclear : NullClear f preds) :
    AdmitsNull (∃ p ∈ preds, TestsNull f p) (∃ p ∈ preds, Blurs f p)
      (narrowAll schema catalogue f preds .any) := by
  have hany : AdmitsNull False False .any := .any
  have hall := hany.narrowAll
    (fun p hp => keepsNull schema catalogue hnull (h p hp)
      (hclear.keeps p hp))
    hclear.pairs (fun _ _ h => h.1) fun _ _ h => h.1
  exact hall.mono (·.resolve_left id) (·.resolve_left id)

theorem intersect_ne_empty (htyped : ∀ p ∈ preds, p.WellTyped catalogue schema)
    (htyped' : ∀ p ∈ preds', p.WellTyped catalogue schema)
    (hinput : InputConforms catalogue schema input) (h : ∀ p ∈ preds, evalPredicate input p = true)
    (h' : ∀ p ∈ preds', evalPredicate input p = true) (hf : f < schema.length)
    (hclear : present input f = none → NullClear f (preds ++ preds')) :
    intersect (narrowAll schema catalogue f preds .any) (narrowAll schema catalogue f preds' .any) ≠
      .empty := by
  have hentry : schema[f]? = some schema[f] := List.getElem?_eq_getElem hf
  cases hv : present input f with
  | some v =>
    have hconforms := hinput f _ v hentry hv
    have hadmits := admits_intersect (admits_narrowAll htyped hentry hv hconforms h)
      (admits_narrowAll htyped' hentry hv hconforms h')
    intro hempty
    rw [hempty] at hadmits
    exact hadmits
  | none =>
    obtain ⟨hkeeps, hpairs⟩ := hclear hv
    obtain ⟨hpairs, hpairs', hcross⟩ := List.pairwise_append.mp hpairs
    have hleft := admitsNull_narrowAll schema catalogue hv h
      ⟨fun p hp => hkeeps p (List.mem_append_left _ hp), hpairs⟩
    have hright := admitsNull_narrowAll schema catalogue hv h'
      ⟨fun p hp => hkeeps p (List.mem_append_right _ hp), hpairs'⟩
    refine (hleft.intersect hright ?_ ?_).ne_empty
    · rintro ⟨⟨p, hp, ht⟩, q, hq, hb⟩
      exact (hcross p hp q hq).1 ⟨ht, hb⟩
    · rintro ⟨⟨p, hp, hb⟩, q, hq, ht⟩
      exact (hcross p hp q hq).2 ⟨hb, ht⟩

end Rules

end BpmnLite.Dmn.Region
