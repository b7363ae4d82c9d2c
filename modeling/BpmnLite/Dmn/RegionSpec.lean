import BpmnLite.Dmn.Reference
import BpmnLite.Dmn.Region

/-!
# What regions admit

The analysis works field by field: `narrow` is what a predicate leaves of the region of one field, and
`applyPredicate` is `narrow` at every field. A predicate that holds of an input leaves the region of a
field that is not null around its value. Of a null field this is so where no comparison of it is
negated and it is not both tested for null and made opaque.
-/

namespace BpmnLite.Dmn.Region

open Reference

variable {fields : List FieldRegion} {items : List TypedPredicate} {out : BTreeSet ℕ}
  {field : FieldId} {p inner : TypedPredicate} {rhs : TypedValue}

section Fieldwise

variable (schema : List FieldSchema) (catalogue : Catalogue)

def comparisonAt (field : FieldId) (op : ComparisonOp) (rhs : TypedValue) : FieldRegion :=
  (schema[field]?.bind fun entry => comparisonRegion catalogue entry.fieldType op rhs).getD .any

def inSetAt (field : FieldId) (values : List TypedValue) : FieldRegion :=
  (schema[field]?.map fun entry => inSetRegion entry.fieldType values).getD .any

/-- Intersect the region of the field a test is about. -/
def narrowAt (f field : FieldId) (other region : FieldRegion) : FieldRegion :=
  if field = f then intersect region other else region

def narrowNot (f : FieldId) (inner : TypedPredicate) (region : FieldRegion) : FieldRegion :=
  match inner with
  | .comparison field op rhs _ =>
    narrowAt f field (comparisonAt schema catalogue field (flipped op) rhs) region
  | .isNull field _ => narrowAt f field .notNull region
  | .isNotNull field _ => narrowAt f field .nullOnly region
  | inner => if f ∈ collectTouchedFields inner ∅ then
      intersect region (.opaqueRegion "negation of compound predicate") else region

def unionAll : List FieldRegion → FieldRegion
  | [] => .any
  | first :: rest => rest.foldl unionField first

mutual

def narrow (f : FieldId) : TypedPredicate → FieldRegion → FieldRegion
  | .comparison field op rhs _, region =>
    narrowAt f field (comparisonAt schema catalogue field op rhs) region
  | .inSet field values _, region => narrowAt f field (inSetAt schema field values) region
  | .range field lower upper lowerInclusive upperInclusive _, region =>
    narrowAt f field (rangeRegion lower upper lowerInclusive upperInclusive) region
  | .isNull field _, region => narrowAt f field .nullOnly region
  | .isNotNull field _, region => narrowAt f field .notNull region
  | .not inner _, region => narrowNot schema catalogue f inner region
  | .and items _, region => narrowAll f items region
  | .or items _, region => intersect region (unionAll (narrowEach f items))

def narrowAll (f : FieldId) : List TypedPredicate → FieldRegion → FieldRegion
  | [], region => region
  | p :: ps, region => narrowAll f ps (narrow f p region)

def narrowEach (f : FieldId) : List TypedPredicate → List FieldRegion
  | [] => []
  | p :: ps => narrow f p .any :: narrowEach f ps

end

end Fieldwise

section Refinement

variable {schema : List FieldSchema} {catalogue : Catalogue}

theorem narrowEach_eq_map (f : FieldId) (ps : List TypedPredicate) :
    narrowEach schema catalogue f ps = ps.map fun p => narrow schema catalogue f p .any := by
  induction ps with
  | nil => rfl
  | cons p ps ih => rw [narrowEach, ih, List.map_cons]

@[simp] theorem intersect_any (region : FieldRegion) : intersect region .any = region := by
  cases region <;> rfl

theorem intersectField_eq {other : FieldRegion} (h : field < fields.length) :
    intersectField fields field other = some (fields.mapIdx fun f r => narrowAt f field other r) := by
  rw [intersectField, List.getElem?_eq_getElem h]
  refine congrArg some (List.ext_getElem (by simp) fun i hi hi' => ?_)
  rw [List.getElem_set, List.getElem_mapIdx, narrowAt]
  split
  case isTrue heq =>
    subst heq
    rfl
  case isFalse => rfl

theorem foldlM_intersectField {g : ℕ → FieldRegion}
    {step : List FieldRegion → ℕ → Option (List FieldRegion)} {idxs : List ℕ} (hnodup : idxs.Nodup)
    (hlt : ∀ idx ∈ idxs, idx < fields.length)
    (hstep : ∀ fields, ∀ idx ∈ idxs, step fields idx = intersectField fields idx (g idx)) :
    idxs.foldlM step fields =
      some (fields.mapIdx fun f r => if f ∈ idxs then intersect r (g f) else r) := by
  induction idxs generalizing fields with
  | nil =>
    refine congrArg some (List.ext_getElem (by simp) fun i hi hi' => ?_)
    simp
  | cons idx idxs ih =>
    obtain ⟨hnot, hnodup⟩ := List.nodup_cons.mp hnodup
    obtain ⟨hidx, hlt⟩ := List.forall_mem_cons.mp hlt
    rw [List.foldlM_cons, hstep fields idx List.mem_cons_self, intersectField_eq hidx]
    change idxs.foldlM step (fields.mapIdx fun f r => narrowAt f idx (g idx) r) = _
    rw [ih hnodup (by simpa using hlt) fun fields i hi => hstep fields i (List.mem_cons_of_mem _ hi)]
    refine congrArg some (List.ext_getElem (by simp) fun i hi hi' => ?_)
    simp only [List.getElem_mapIdx, List.mem_cons, narrowAt]
    by_cases heq : i = idx
    · subst heq
      rw [if_neg hnot, if_pos rfl, if_pos (.inl rfl)]
    · rw [if_neg (Ne.symm heq)]
      simp only [heq, false_or]

inductive Touches (f : FieldId) : TypedPredicate → Prop
  | comparison {op : ComparisonOp} {rhs : TypedValue} {span : SourceSpan} :
    Touches f (.comparison f op rhs span)
  | inSet {values : List TypedValue} {span : SourceSpan} : Touches f (.inSet f values span)
  | range {lower upper : Option TypedValue} {lowerInclusive upperInclusive : Bool}
    {span : SourceSpan} : Touches f (.range f lower upper lowerInclusive upperInclusive span)
  | isNull {span : SourceSpan} : Touches f (.isNull f span)
  | isNotNull {span : SourceSpan} : Touches f (.isNotNull f span)
  | not {inner : TypedPredicate} {span : SourceSpan} (h : Touches f inner) :
    Touches f (.not inner span)
  | and {items : List TypedPredicate} {span : SourceSpan} {p : TypedPredicate} (hmem : p ∈ items)
    (h : Touches f p) : Touches f (.and items span)
  | or {items : List TypedPredicate} {span : SourceSpan} {p : TypedPredicate} (hmem : p ∈ items)
    (h : Touches f p) : Touches f (.or items span)

theorem mem_insert_field {f field : ℕ} : f ∈ out.insert field ↔ f ∈ out ∨ f = field := by
  rw [Std.ExtTreeSet.mem_insert, compare_eq_iff_eq]
  exact ⟨fun h => h.elim (fun h => .inr h.symm) .inl, fun h => h.elim .inr fun h => .inl h.symm⟩

theorem mem_collectAllTouched {f : ℕ}
    (ih : ∀ p ∈ items, ∀ out, f ∈ collectTouchedFields p out ↔ f ∈ out ∨ Touches f p)
    (out : BTreeSet ℕ) : f ∈ collectAllTouched items out ↔ f ∈ out ∨ ∃ p ∈ items, Touches f p := by
  induction items generalizing out with
  | nil => simp [collectAllTouched]
  | cons p items ih' =>
    obtain ⟨hp, hitems⟩ := List.forall_mem_cons.mp ih
    rw [collectAllTouched, ih' hitems, hp, List.exists_mem_cons_iff, or_assoc]

theorem mem_collectTouchedFields {f : ℕ} :
    f ∈ collectTouchedFields p out ↔ f ∈ out ∨ Touches f p := by
  induction p generalizing out with
  | comparison | inSet | range | isNull | isNotNull =>
    rw [collectTouchedFields, mem_insert_field]
    refine or_congr_right ⟨?_, fun h => by cases h; rfl⟩
    rintro rfl
    constructor
  | not inner span ih =>
    rw [collectTouchedFields, ih]
    exact or_congr_right ⟨.not, fun h => by cases h with | not h => exact h⟩
  | and items span ih | or items span ih =>
    rw [collectTouchedFields, mem_collectAllTouched fun p hp out => ih p hp]
    refine or_congr_right ⟨?_, fun h => ?_⟩
    · rintro ⟨p, hp, h⟩
      constructor
      exacts [hp, h]
    · cases h
      case _ h hp => exact ⟨_, hp, h⟩

theorem lt_of_touches {f : FieldId} (htyped : p.WellTyped catalogue schema) (h : Touches f p) :
    f < schema.length := by
  induction h with
  | comparison | inSet | range =>
    obtain ⟨entry, hentry, -⟩ := htyped
    exact (List.getElem?_eq_some_iff.mp hentry).1
  | isNull | isNotNull => exact htyped
  | not _ ih => exact ih htyped
  | and hmem _ ih | or hmem _ ih =>
    exact ih (TypedPredicate.everyAll_iff.mp htyped.2 _ hmem)

theorem comparisonRegion_isSome {ty : ResolvedType} (hrhs : HasType catalogue rhs ty)
    (op : ComparisonOp) : ∃ region, comparisonRegion catalogue ty op rhs = some region := by
  cases rhs with
  | enum d v =>
    cases ty with
    | enum domain =>
      obtain ⟨rfl, found, hfound, -⟩ := hrhs
      cases op with
      | notEq => exact ⟨_, by rw [comparisonRegion, catalogueValues, hfound]; rfl⟩
      | _ => exact ⟨_, rfl⟩
    | _ => exact hrhs.elim
  | bool b =>
    cases ty with
    | bool => cases op <;> exact ⟨_, rfl⟩
    | _ => exact hrhs.elim
  | integer i =>
    cases ty with
    | integer => cases op <;> exact ⟨_, rfl⟩
    | _ => exact hrhs.elim
  | decimal x =>
    cases ty with
    | decimal => cases op <;> exact ⟨_, rfl⟩
    | _ => exact hrhs.elim
  | str t =>
    cases ty with
    | str => cases op <;> exact ⟨_, rfl⟩
    | _ => exact hrhs.elim
  | null => cases ty <;> exact hrhs.elim

theorem applyComparison_eq (span : SourceSpan) {op op' : ComparisonOp}
    (htyped : TypedPredicate.TestTyped catalogue schema (.comparison field op rhs span))
    (hlen : fields.length = schema.length) :
    applyComparison schema catalogue field op' rhs fields = some (fields.mapIdx fun f r =>
      narrowAt f field (comparisonAt schema catalogue field op' rhs) r) := by
  obtain ⟨entry, hentry, hrhs, -⟩ := htyped
  obtain ⟨region, hregion⟩ := comparisonRegion_isSome hrhs op'
  have hlt : field < fields.length := hlen ▸ (List.getElem?_eq_some_iff.mp hentry).1
  have hat : comparisonAt schema catalogue field op' rhs = region := by
    rw [comparisonAt, hentry]
    exact congrArg (·.getD .any) hregion
  rw [applyComparison, hentry, hat]
  change (comparisonRegion catalogue entry.fieldType op' rhs).bind _ = _
  rw [hregion]
  exact intersectField_eq hlt

theorem blurFields_eq (htyped : inner.WellTyped catalogue schema)
    (hlen : fields.length = schema.length) :
    blurFields inner fields = some (fields.mapIdx fun f r =>
      if f ∈ collectTouchedFields inner ∅ then
        intersect r (.opaqueRegion "negation of compound predicate") else r) := by
  have hmem : ∀ f, f ∈ (collectTouchedFields inner ∅).toList ↔
      f ∈ collectTouchedFields inner ∅ := fun f => Std.ExtTreeSet.mem_toList
  have hlt : ∀ f ∈ (collectTouchedFields inner ∅).toList, f < fields.length := by
    intro f hf
    rw [hmem, mem_collectTouchedFields] at hf
    rw [hlen]
    exact lt_of_touches htyped (hf.resolve_left Std.ExtTreeSet.not_mem_empty)
  have hnodup : (collectTouchedFields inner ∅).toList.Nodup :=
    Std.ExtTreeSet.distinct_toList.imp fun h heq => h (compare_eq_iff_eq.mpr heq)
  rw [blurFields, foldlM_intersectField (g := fun _ => .opaqueRegion "negation of compound predicate")
    hnodup hlt fun _ _ _ => rfl]
  simp only [hmem]

theorem applyNot_eq (htyped : inner.WellTyped catalogue schema)
    (hlen : fields.length = schema.length) :
    applyNot schema catalogue inner fields =
      some (fields.mapIdx fun f r => narrowNot schema catalogue f inner r) := by
  cases inner with
  | comparison field op rhs span => exact applyComparison_eq span htyped hlen
  | isNull field span =>
    have hlt : field < fields.length := by
      rw [hlen]
      exact htyped
    exact intersectField_eq hlt
  | isNotNull field span =>
    have hlt : field < fields.length := by
      rw [hlen]
      exact htyped
    exact intersectField_eq hlt
  | inSet | range | not | and | or => exact blurFields_eq htyped hlen

theorem unionAt_eq {idx : ℕ} {branches : List (List FieldRegion)} {g : List FieldRegion → FieldRegion}
    (hne : branches ≠ []) (hget : ∀ branch ∈ branches, branch[idx]? = some (g branch)) :
    unionAt idx branches = some (unionAll (branches.map g)) := by
  cases branches with
  | nil => exact absurd rfl hne
  | cons first rest =>
    obtain ⟨hfirst, hrest⟩ := List.forall_mem_cons.mp hget
    rw [unionAt, hfirst, List.map_cons, unionAll]
    change rest.foldlM (fun acc branch => (branch[idx]?).map (unionField acc)) (g first) = _
    generalize g first = start
    induction rest generalizing start with
    | nil => rfl
    | cons branch rest ih =>
      obtain ⟨hbranch, hrest⟩ := List.forall_mem_cons.mp hrest
      rw [List.foldlM_cons, hbranch, List.map_cons, List.foldl_cons]
      exact ih (by simp) (List.forall_mem_cons.mpr ⟨hfirst, hrest⟩) hrest _

theorem applyAll_eq
    (ih : ∀ p ∈ items, ∀ fields : List FieldRegion, fields.length = schema.length →
      applyPredicate schema catalogue p fields =
      some (fields.mapIdx fun f r => narrow schema catalogue f p r))
    (hlen : fields.length = schema.length) :
    applyAll schema catalogue items fields =
      some (fields.mapIdx fun f r => narrowAll schema catalogue f items r) := by
  induction items generalizing fields with
  | nil =>
    rw [applyAll]
    refine congrArg some (List.ext_getElem (by simp) fun i hi hi' => ?_)
    rw [List.getElem_mapIdx, narrowAll]
  | cons p items ih' =>
    obtain ⟨hp, hitems⟩ := List.forall_mem_cons.mp ih
    rw [applyAll, hp fields hlen]
    change applyAll schema catalogue items (fields.mapIdx fun f r => narrow schema catalogue f p r) = _
    rw [ih' hitems (by rw [List.length_mapIdx, hlen]), List.mapIdx_mapIdx]
    refine congrArg some (List.ext_getElem (by simp) fun i hi hi' => ?_)
    rw [List.getElem_mapIdx, List.getElem_mapIdx, narrowAll]
    rfl

def branchOf (schema : List FieldSchema) (catalogue : Catalogue) (p : TypedPredicate) :
    List FieldRegion :=
  (List.replicate schema.length FieldRegion.any).mapIdx fun f r => narrow schema catalogue f p r

theorem branchRegions_eq
    (ih : ∀ p ∈ items, ∀ fields : List FieldRegion, fields.length = schema.length →
      applyPredicate schema catalogue p fields =
      some (fields.mapIdx fun f r => narrow schema catalogue f p r)) :
    branchRegions schema catalogue items = some (items.map (branchOf schema catalogue)) := by
  induction items with
  | nil => rw [branchRegions, List.map_nil]
  | cons p items ih' =>
    obtain ⟨hp, hitems⟩ := List.forall_mem_cons.mp ih
    rw [branchRegions, hp _ List.length_replicate, ih' hitems]
    rfl

theorem applyBranches_eq (hlen : fields.length = schema.length) :
    applyBranches (items.map (branchOf schema catalogue)) fields =
      some (fields.mapIdx fun f r => intersect r (unionAll (narrowEach schema catalogue f items))) := by
  unfold applyBranches
  split
  case isTrue hnil =>
    rw [List.map_eq_nil_iff.mp hnil]
    refine congrArg some (List.ext_getElem (by simp) fun i hi hi' => ?_)
    rw [List.getElem_mapIdx, narrowEach, unionAll, intersect_any]
  case isFalse hne =>
    have hunion : ∀ f ∈ List.range fields.length,
        unionAt f (items.map (branchOf schema catalogue)) =
          some (unionAll (narrowEach schema catalogue f items)) := by
      intro f hf
      have hbranch : ∀ p, (branchOf schema catalogue p)[f]? =
          some (narrow schema catalogue f p .any) := by
        intro p
        have hlt : f < schema.length := by rwa [List.mem_range, hlen] at hf
        simp [branchOf, hlt]
      rw [unionAt_eq (g := fun branch => (branch[f]?).getD .any) hne]
      · rw [narrowEach_eq_map, List.map_map]
        refine congrArg (some ∘ unionAll) (List.map_congr_left fun p _ => ?_)
        exact congrArg (·.getD FieldRegion.any) (hbranch p)
      · intro branch hbranch'
        obtain ⟨p, -, rfl⟩ := List.mem_map.mp hbranch'
        rw [hbranch]
        rfl
    rw [foldlM_intersectField (g := fun f => unionAll (narrowEach schema catalogue f items))
      List.nodup_range (fun f hf => List.mem_range.mp hf) fun fields f hf => by
        rw [hunion f hf]
        rfl]
    refine congrArg some (List.ext_getElem (by simp) fun i hi hi' => ?_)
    have hmem : i ∈ List.range fields.length := by simpa using hi
    rw [List.getElem_mapIdx, List.getElem_mapIdx, if_pos hmem]

theorem applyPredicate_eq (htyped : p.WellTyped catalogue schema)
    (hlen : fields.length = schema.length) :
    applyPredicate schema catalogue p fields =
      some (fields.mapIdx fun f r => narrow schema catalogue f p r) := by
  induction p generalizing fields with
  | comparison field op rhs span =>
    simp only [applyPredicate, narrow]
    exact applyComparison_eq span htyped hlen
  | inSet field values span =>
    obtain ⟨entry, hentry, -⟩ := htyped
    have hlt : field < fields.length := hlen ▸ (List.getElem?_eq_some_iff.mp hentry).1
    simp only [applyPredicate, narrow, applyInSet, inSetAt, hentry]
    exact intersectField_eq hlt
  | range field lower upper lowerInclusive upperInclusive span =>
    obtain ⟨entry, hentry, -⟩ := htyped
    have hlt : field < fields.length := hlen ▸ (List.getElem?_eq_some_iff.mp hentry).1
    simp only [applyPredicate, narrow]
    exact intersectField_eq hlt
  | isNull field span | isNotNull field span =>
    have hlt : field < fields.length := by
      rw [hlen]
      exact htyped
    simp only [applyPredicate, narrow]
    exact intersectField_eq hlt
  | not inner span ih =>
    simp only [applyPredicate, narrow]
    exact applyNot_eq htyped hlen
  | and items span ih =>
    have hitems := TypedPredicate.everyAll_iff.mp htyped.2
    simp only [applyPredicate, narrow]
    exact applyAll_eq (fun p hp fields hlen => ih p hp (hitems p hp) hlen) hlen
  | or items span ih =>
    have hitems := TypedPredicate.everyAll_iff.mp htyped.2
    simp only [applyPredicate, narrow]
    rw [branchRegions_eq fun p hp fields hlen => ih p hp (hitems p hp) hlen]
    exact applyBranches_eq hlen

end Refinement

end BpmnLite.Dmn.Region
