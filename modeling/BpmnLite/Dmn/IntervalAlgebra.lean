import BpmnLite.Dmn.Intervals

/-!
# The algebra of interval sets

Interval sets built from ranges by union, intersection and complement, against the sets of integers
they stand for. The code goes wrong in three places: ranges that end beyond the integers are taken for
sets with members, adding one to the greatest integer wraps around, and two intervals without a lower
bound are not merged. Where the operands avoid these, a set comes out in normal form, has the members
it should have, and gives a member as a witness if there is one.
-/

namespace BpmnLite.Dmn

variable {t s : IntervalSet} {iv x a b : Interval} {v : Int64} {rest : List Interval}
  {lower upper : Bound}

section Witnesses

def intervalWitness (iv : Interval) : Option Int64 :=
  if intervalIsEmpty iv then none
  else
    match iv.lower, iv.upper with
    | .inclusive v, _ => some v
    | .exclusive v, _ => if v = Int64.maxValue then none else some (v + 1)
    | .unbounded, .inclusive v => some v
    | .unbounded, .exclusive v => if v = Int64.minValue then none else some (v - 1)
    | .unbounded, .unbounded => some 0

def IntervalSet.pickWitness (s : IntervalSet) : Option Int64 :=
  s.intervals.findSome? intervalWitness

end Witnesses

section Additions

def emptyTestFits (iv : Interval) : Bool :=
  match iv.lower, iv.upper with
  | .exclusive a, .exclusive _ => a ≠ Int64.maxValue
  | _, _ => true

/-- The addition in `intervals_touch_or_overlap` stays in range. -/
def touchTestFits (a b : Interval) : Bool :=
  match a.upper, b.lower with
  | .inclusive au, .inclusive _ => au ≠ Int64.maxValue
  | _, _ => true

namespace IntervalSet

def mergeFits (last : Interval) : List Interval → Bool
  | [] => true
  | next :: rest =>
    touchTestFits last next &&
      if intervalsTouchOrOverlap last next then
        mergeFits { last with upper := maxUpperBound last.upper next.upper } rest
      else mergeFits next rest

def normalizeFits (l : List Interval) : Bool :=
  match sortByLower l with
  | [] => true
  | first :: rest => mergeFits first rest

def unionFits (s t : IntervalSet) : Bool := normalizeFits (s.intervals ++ t.intervals)

def intersectFits (s t : IntervalSet) : Bool :=
  (s.intervals.all fun a => t.intervals.all fun b =>
    emptyTestFits ⟨maxLowerBound a.lower b.lower, minUpperBound a.upper b.upper⟩) &&
  normalizeFits (s.intervals.flatMap fun a => t.intervals.filterMap (intervalIntersect a))

def complementFits (s : IntervalSet) : Bool :=
  (s.intervals.zip s.intervals.tail).all fun w =>
    emptyTestFits ⟨flipUpperToLower w.1.upper, flipLowerToUpper w.2.lower⟩

end IntervalSet

end Additions

inductive SetExpr where
  | range (lower upper : Option Int64) (lowerInclusive upperInclusive : Bool)
  | union (a b : SetExpr)
  | intersect (a b : SetExpr)
  | complement (a : SetExpr)

namespace SetExpr

open IntervalSet

def eval : SetExpr → IntervalSet
  | range lower upper lowerInclusive upperInclusive =>
    fromRange lower upper lowerInclusive upperInclusive
  | union a b => a.eval.union b.eval
  | intersect a b => a.eval.intersect b.eval
  | complement a => a.eval.complement

def meaning : SetExpr → Set Int64
  | range lower upper lowerInclusive upperInclusive =>
    { v | (∀ l ∈ lower, if lowerInclusive then l ≤ v else l < v) ∧
      ∀ u ∈ upper, if upperInclusive then v ≤ u else v < u }
  | union a b => a.meaning ∪ b.meaning
  | intersect a b => a.meaning ∩ b.meaning
  | complement a => a.meaningᶜ

def fits : SetExpr → Bool
  | range lower upper lowerInclusive upperInclusive =>
    emptyTestFits ⟨boundOf lower lowerInclusive, boundOf upper upperInclusive⟩
  | union a b => unionFits a.eval b.eval
  | intersect a b => intersectFits a.eval b.eval
  | complement a => complementFits a.eval

end SetExpr

/-- Every interval has a member, and between two intervals, which come in order, lies an integer. -/
structure IntervalSet.Normal (s : IntervalSet) : Prop where
  members : ∀ iv ∈ s.intervals, iv.lower.first ≤ iv.upper.last
  apart : s.intervals.Pairwise fun a b => a.upper.last + 1 < b.lower.first

structure SetExpr.Correct (e : SetExpr) : Prop where
  contains : ∀ v, e.eval.contains v = true ↔ v ∈ e.meaning
  normal : e.eval.Normal
  isEmpty : e.eval.isEmpty = true ↔ e.meaning = ∅
  witness : ∀ v, e.eval.pickWitness = some v → v ∈ e.meaning
  found : e.eval.pickWitness.isSome = true ↔ e.meaning.Nonempty
  fits : e.fits = true
  witnessFits : e.eval.intervals.all emptyTestFits = true

section Conditions

/-- No end of the range lies beyond the integers, or the range is seen to be empty without adding. -/
def rangeInside (iv : Interval) : Bool :=
  match iv.lower, iv.upper with
  | .exclusive _, .inclusive _ => true
  | .exclusive a, _ => a ≠ Int64.maxValue
  | .unbounded, .exclusive b => b ≠ Int64.minValue
  | _, _ => true

/-- The two cases that the test for touching gets wrong when `a` comes before `b`. -/
def clash (a b : Interval) : Bool :=
  match a.upper, b.lower with
  | .unbounded, _ => false
  | _, .unbounded => true
  | .inclusive au, .inclusive _ => au = Int64.maxValue
  | _, _ => false

/-- No clash between the two, in the order in which they are sorted. -/
def compatible (a b : Interval) : Bool :=
  if cmpLowerBound a.lower b.lower = .gt then !clash b a else !clash a b

/-- The condition on the operands of each operation. -/
def SetExpr.Careful : SetExpr → Prop
  | range lower upper lowerInclusive upperInclusive =>
    rangeInside ⟨IntervalSet.boundOf lower lowerInclusive,
      IntervalSet.boundOf upper upperInclusive⟩ = true
  | union a b => a.Careful ∧ b.Careful ∧
    ∀ x ∈ a.eval.intervals, ∀ y ∈ b.eval.intervals, compatible x y = true
  | intersect a b => a.Careful ∧ b.Careful
  | complement a => a.Careful ∧ ∀ iv ∈ a.eval.intervals,
    iv.lower ≠ .inclusive Int64.minValue ∧ iv.upper ≠ .inclusive Int64.maxValue

end Conditions

section Bounds

theorem toInt_eq_maxValue : v = Int64.maxValue ↔ v.toInt = 2 ^ 63 - 1 := by
  rw [← Int64.toInt_inj]
  rfl

theorem toInt_eq_minValue : v = Int64.minValue ↔ v.toInt = -2 ^ 63 := by
  rw [← Int64.toInt_inj]
  rfl

theorem first_le : lower.first ≤ 2 ^ 63 := by
  cases lower with
  | unbounded => simp [Bound.first]
  | inclusive w | exclusive w =>
    have hmax := w.toInt_lt
    simp only [Bound.first]
    omega

theorem ends_inside (h : iv.lower.first ≤ iv.upper.last) :
    iv.lower ≠ .exclusive Int64.maxValue ∧ iv.upper ≠ .exclusive Int64.minValue := by
  have hfirst := first_ge (b := iv.lower)
  have hlast := last_le (b := iv.upper)
  constructor
  · intro hlower
    have hend : iv.lower.first = 2 ^ 63 := by rw [hlower]; rfl
    omega
  · intro hupper
    have hend : iv.upper.last = -2 ^ 63 - 1 := by rw [hupper]; rfl
    omega

theorem rangeInside_of_ne (hlower : lower ≠ .exclusive Int64.maxValue)
    (hupper : upper ≠ .exclusive Int64.minValue) : rangeInside ⟨lower, upper⟩ = true := by
  cases lower <;> cases upper <;> simp_all [rangeInside]

theorem emptyTestFits_of_inside (h : rangeInside ⟨lower, upper⟩ = true) :
    emptyTestFits ⟨lower, upper⟩ = true := by
  cases lower <;> cases upper <;> simp_all [rangeInside, emptyTestFits]

theorem first_le_last (hinside : rangeInside ⟨lower, upper⟩ = true)
    (h : intervalIsEmpty ⟨lower, upper⟩ = false) : lower.first ≤ upper.last := by
  cases lower with
  | unbounded =>
    cases upper with
    | unbounded => simp [Bound.first, Bound.last]
    | inclusive w => exact w.le_toInt
    | exclusive w =>
      have hmin := w.le_toInt
      simp only [rangeInside, decide_eq_true_eq, ne_eq, toInt_eq_minValue] at hinside
      simp only [Bound.first, Bound.last]
      omega
  | inclusive a =>
    have hmax := a.toInt_lt
    cases upper with
    | unbounded =>
      simp only [Bound.first, Bound.last]
      omega
    | inclusive b | exclusive b =>
      simp only [intervalIsEmpty, decide_eq_false_iff_not, ge_iff_le, gt_iff_lt,
        Int64.le_iff_toInt_le, Int64.lt_iff_toInt_lt] at h
      simp only [Bound.first, Bound.last]
      omega
  | exclusive a =>
    have hmax := a.toInt_lt
    cases upper with
    | unbounded =>
      simp only [rangeInside, decide_eq_true_eq, ne_eq, toInt_eq_maxValue] at hinside
      simp only [Bound.first, Bound.last]
      omega
    | inclusive b =>
      simp only [intervalIsEmpty, decide_eq_false_iff_not, ge_iff_le, Int64.le_iff_toInt_le] at h
      simp only [Bound.first, Bound.last]
      omega
    | exclusive b =>
      simp only [rangeInside, decide_eq_true_eq, ne_eq, toInt_eq_maxValue] at hinside
      simp only [intervalIsEmpty, decide_eq_false_iff_not, ge_iff_le, Int64.le_iff_toInt_le,
        toInt_succ (show a.toInt < 2 ^ 63 - 1 by omega)] at h
      simp only [Bound.first, Bound.last]
      omega

theorem apart_of_not_touch (hclash : clash a b = false)
    (h : intervalsTouchOrOverlap a b = false) : a.upper.last + 1 < b.lower.first := by
  obtain ⟨la, ua⟩ := a
  obtain ⟨lb, ub⟩ := b
  cases ua with
  | unbounded => cases h
  | inclusive au =>
    have hmax := au.toInt_lt
    cases lb with
    | unbounded => cases hclash
    | inclusive bl =>
      simp only [clash, decide_eq_false_iff_not, toInt_eq_maxValue] at hclash
      have hsucc := toInt_succ (a := au) (by omega)
      simp only [intervalsTouchOrOverlap, decide_eq_false_iff_not, Int64.le_iff_toInt_le] at h
      simp only [Bound.first, Bound.last]
      omega
    | exclusive bl =>
      simp only [intervalsTouchOrOverlap, decide_eq_false_iff_not, Int64.le_iff_toInt_le] at h
      simp only [Bound.first, Bound.last]
      omega
  | exclusive au =>
    cases lb with
    | unbounded => cases hclash
    | inclusive bl | exclusive bl =>
      simp only [intervalsTouchOrOverlap, decide_eq_false_iff_not, Int64.le_iff_toInt_le,
        Int64.lt_iff_toInt_lt] at h
      simp only [Bound.first, Bound.last]
      omega

theorem touchTestFits_of_not_clash (h : clash a b = false) : touchTestFits a b = true := by
  obtain ⟨la, ua⟩ := a
  obtain ⟨lb, ub⟩ := b
  cases ua <;> cases lb <;> simp_all [clash, touchTestFits]

end Bounds

section Merging

open IntervalSet

variable {l : List Interval} {last next : Interval}

theorem pairwise_orderedInsert {α : Type} {r Q : α → α → Prop} [DecidableRel r] [IsTrans α r] {x : α}
    {l : List α} (hsorted : l.Pairwise r) (hl : l.Pairwise Q)
    (hx : ∀ y ∈ l, (r x y → Q x y) ∧ (¬ r x y → Q y x)) : (l.orderedInsert r x).Pairwise Q := by
  induction l with
  | nil => simp
  | cons y l ih =>
    obtain ⟨hy, hsorted⟩ := List.pairwise_cons.mp hsorted
    obtain ⟨hQ, hl⟩ := List.pairwise_cons.mp hl
    obtain ⟨hfirst, hx⟩ := List.forall_mem_cons.mp hx
    rw [List.orderedInsert_cons]
    split
    case isTrue hxy =>
      refine List.pairwise_cons.mpr ⟨List.forall_mem_cons.mpr ⟨hfirst.1 hxy, fun z hz => ?_⟩,
        List.pairwise_cons.mpr ⟨hQ, hl⟩⟩
      exact (hx z hz).1 (IsTrans.trans x y z hxy (hy z hz))
    case isFalse hxy =>
      refine List.pairwise_cons.mpr ⟨fun z hz => ?_, ih hsorted hl hx⟩
      rcases List.mem_orderedInsert .. |>.mp hz with rfl | hz
      · exact hfirst.2 hxy
      · exact hQ z hz

theorem pairwise_insertionSort_of {α : Type} {r Q : α → α → Prop} [DecidableRel r] [Std.Total r]
    [IsTrans α r] {l : List α} (h : l.Pairwise fun x y => (r x y → Q x y) ∧ (¬ r x y → Q y x)) :
    (l.insertionSort r).Pairwise Q := by
  induction l with
  | nil => simp
  | cons x l ih =>
    obtain ⟨hx, hl⟩ := List.pairwise_cons.mp h
    rw [List.insertionSort_cons]
    exact pairwise_orderedInsert (List.pairwise_insertionSort r l) (ih hl)
      fun y hy => hx y ((List.mem_insertionSort r).mp hy)

theorem exists_lower_of_mem_mergeFrom (h : a ∈ mergeFrom last rest) :
    ∃ b ∈ last :: rest, a.lower = b.lower := by
  induction rest generalizing last with
  | nil => exact ⟨a, h, rfl⟩
  | cons next rest ih =>
    unfold mergeFrom at h
    split at h
    case isTrue =>
      obtain ⟨b, hb, hlower⟩ := ih h
      rcases List.mem_cons.mp hb with rfl | hb
      · exact ⟨last, List.mem_cons_self, hlower⟩
      · exact ⟨b, List.mem_cons_of_mem _ (List.mem_cons_of_mem _ hb), hlower⟩
    case isFalse =>
      rcases List.mem_cons.mp h with rfl | h
      · exact ⟨a, List.mem_cons_self, rfl⟩
      · obtain ⟨b, hb, hlower⟩ := ih h
        exact ⟨b, List.mem_cons_of_mem _ hb, hlower⟩

theorem clash_maxUpperBound (ha : clash a x = false) (hb : clash b x = false) :
    clash { a with upper := maxUpperBound a.upper b.upper } x = false := by
  unfold maxUpperBound
  split
  · exact ha
  · exact hb

theorem mergeFrom_normal (hle : ∀ iv ∈ last :: rest, iv.lower.first ≤ iv.upper.last)
    (hsorted : (last :: rest).Pairwise fun a b => a.lower.lowerKey ≤ b.lower.lowerKey)
    (hclash : (last :: rest).Pairwise fun a b => clash a b = false) :
    Normal ⟨mergeFrom last rest⟩ ∧ mergeFits last rest = true := by
  induction rest generalizing last with
  | nil => exact ⟨⟨hle, List.pairwise_singleton ..⟩, rfl⟩
  | cons next rest ih =>
    obtain ⟨hlast, hnext, hrest⟩ := List.forall_mem_cons.mp hle |>.imp_right List.forall_mem_cons.mp
    obtain ⟨hkeys, hsorted⟩ := List.pairwise_cons.mp hsorted
    obtain ⟨hclashes, hclash⟩ := List.pairwise_cons.mp hclash
    have hfits := touchTestFits_of_not_clash (hclashes next List.mem_cons_self)
    unfold mergeFrom mergeFits
    rw [hfits, Bool.true_and]
    split
    case isTrue =>
      refine ih (List.forall_mem_cons.mpr ⟨?_, hrest⟩)
        (List.pairwise_cons.mpr ⟨fun b hb => hkeys b (List.mem_cons_of_mem _ hb),
          (List.pairwise_cons.mp hsorted).2⟩)
        (List.pairwise_cons.mpr ⟨fun b hb => clash_maxUpperBound
          (hclashes b (List.mem_cons_of_mem _ hb)) ((List.pairwise_cons.mp hclash).1 b hb),
          (List.pairwise_cons.mp hclash).2⟩)
      rw [last_maxUpperBound]
      exact le_max_of_le_left hlast
    case isFalse htouch =>
      obtain ⟨hnormal, hrest'⟩ := ih (List.forall_mem_cons.mpr ⟨hnext, hrest⟩) hsorted hclash
      refine ⟨⟨List.forall_mem_cons.mpr ⟨hlast, hnormal.members⟩,
        List.pairwise_cons.mpr ⟨fun c hc => ?_, hnormal.apart⟩⟩, hrest'⟩
      have hgap := apart_of_not_touch (hclashes next List.mem_cons_self)
        (Bool.eq_false_iff.mpr htouch)
      obtain ⟨b, hb, hlower⟩ := exists_lower_of_mem_mergeFrom hc
      have hfirst : next.lower.first ≤ c.lower.first := by
        rw [hlower]
        rcases List.mem_cons.mp hb with rfl | hb
        · exact le_rfl
        · exact first_mono ((List.pairwise_cons.mp hsorted).1 b hb)
      exact hgap.trans_le hfirst

theorem normalize_normal (hle : ∀ iv ∈ l, iv.lower.first ≤ iv.upper.last)
    (h : l.Pairwise fun a b => compatible a b = true) :
    (IntervalSet.normalize l).Normal ∧ normalizeFits l = true := by
  have hclash : (sortByLower l).Pairwise fun a b => clash a b = false := by
    refine pairwise_insertionSort_of (h.imp fun {a b} hab => ?_)
    unfold compatible at hab
    split at hab <;> simp_all
  have hsorted := pairwise_sortByLower l
  have hmem : ∀ iv ∈ sortByLower l, iv.lower.first ≤ iv.upper.last :=
    fun iv hiv => hle iv ((List.perm_insertionSort _ l).mem_iff.mp hiv)
  unfold IntervalSet.normalize normalizeFits
  cases hcons : sortByLower l with
  | nil => exact ⟨⟨by simp [empty], by simp [empty]⟩, rfl⟩
  | cons first rest =>
    rw [hcons] at hclash hsorted hmem
    exact mergeFrom_normal hmem hsorted hclash

theorem compatible_of_apart (ha : a.lower.first ≤ a.upper.last)
    (h : a.upper.last + 1 < b.lower.first) : compatible a b = true := by
  have hkey : ¬ b.lower.lowerKey < a.lower.lowerKey := by
    intro hlt
    have hfirst := first_mono hlt.le
    omega
  have hmin := first_ge (b := a.lower)
  have hmax : b.lower.first ≤ 2 ^ 63 := first_le
  rw [compatible, if_neg (mt cmpLowerBound_eq_gt.mp hkey), Bool.not_eq_true', clash]
  cases hupper : a.upper with
  | unbounded => rfl
  | inclusive u | exclusive u =>
    rw [hupper] at h ha
    cases hlower : b.lower with
    | unbounded =>
      rw [hlower] at h
      simp only [Bound.first] at h
      omega
    | inclusive w | exclusive w =>
      simp only [Bound.last] at h
      simp [toInt_eq_maxValue] <;> omega

theorem IntervalSet.Normal.compatible (h : s.Normal) :
    s.intervals.Pairwise fun a b => compatible a b = true :=
  h.apart.imp_of_mem fun ha _ => compatible_of_apart (h.members _ ha)

theorem union_normal (hs : s.Normal) (ht : t.Normal)
    (h : ∀ x ∈ s.intervals, ∀ y ∈ t.intervals, compatible x y = true) :
    (s.union t).Normal ∧ unionFits s t = true := by
  refine normalize_normal (fun iv hiv => ?_) (List.pairwise_append.mpr ⟨hs.compatible, ht.compatible, h⟩)
  rcases List.mem_append.mp hiv with hiv | hiv
  · exact hs.members iv hiv
  · exact ht.members iv hiv

end Merging

section Operations

open IntervalSet

theorem maxLowerBound_ne {a b x : Bound} (ha : a ≠ x) (hb : b ≠ x) : maxLowerBound a b ≠ x := by
  unfold maxLowerBound
  split
  · exact hb
  · exact ha

theorem minUpperBound_ne {a b x : Bound} (ha : a ≠ x) (hb : b ≠ x) : minUpperBound a b ≠ x := by
  unfold minUpperBound
  split
  · exact ha
  · exact hb

theorem intervalIntersect_inside {c : Interval} (ha : a.lower.first ≤ a.upper.last)
    (hb : b.lower.first ≤ b.upper.last) (h : intervalIntersect a b = some c) :
    c.lower.first ≤ c.upper.last ∧ c.lower.first = max a.lower.first b.lower.first ∧
      c.upper.last = min a.upper.last b.upper.last := by
  unfold intervalIntersect at h
  dsimp only at h
  split at h
  case isTrue => cases h
  case isFalse hempty =>
    obtain rfl := Option.some.inj h
    refine ⟨first_le_last (rangeInside_of_ne ?_ ?_) (Bool.eq_false_iff.mpr hempty),
      first_maxLowerBound, last_minUpperBound⟩
    · exact maxLowerBound_ne (ends_inside ha).1 (ends_inside hb).1
    · exact minUpperBound_ne (ends_inside ha).2 (ends_inside hb).2

theorem intersect_normal (hs : s.Normal) (ht : t.Normal) :
    (s.intersect t).Normal ∧ intersectFits s t = true := by
  have hinside : ∀ a ∈ s.intervals, ∀ b ∈ t.intervals, ∀ c, intervalIntersect a b = some c →
      c.lower.first ≤ c.upper.last ∧ c.lower.first = max a.lower.first b.lower.first ∧
        c.upper.last = min a.upper.last b.upper.last := fun a ha b hb c =>
    intervalIntersect_inside (hs.members a ha) (ht.members b hb)
  have hle : ∀ iv ∈ s.intervals.flatMap fun a => t.intervals.filterMap (intervalIntersect a),
      iv.lower.first ≤ iv.upper.last := by
    intro c hc
    obtain ⟨a, ha, hc⟩ := List.mem_flatMap.mp hc
    obtain ⟨b, hb, hc⟩ := List.mem_filterMap.mp hc
    exact (hinside a ha b hb c hc).1
  -- The pieces come out in order, since the intervals of both sets are in order.
  have hapart : (s.intervals.flatMap fun a => t.intervals.filterMap (intervalIntersect a)).Pairwise
      fun a b => a.upper.last + 1 < b.lower.first := by
    refine List.pairwise_flatMap.mpr ⟨fun a ha => ?_, hs.apart.imp_of_mem fun {a a'} ha ha' hgap => ?_⟩
    · refine List.pairwise_filterMap.mpr (ht.apart.imp_of_mem fun {b b'} hb hb' hgap c hc c' hc' => ?_)
      have hleft := hinside a ha b hb c hc
      have hright := hinside a ha b' hb' c' hc'
      omega
    · intro c hc c' hc'
      obtain ⟨b, hb, hc⟩ := List.mem_filterMap.mp hc
      obtain ⟨b', hb', hc'⟩ := List.mem_filterMap.mp hc'
      have hleft := hinside a ha b hb c hc
      have hright := hinside a' ha' b' hb' c' hc'
      omega
  obtain ⟨hnormal, hfits⟩ := normalize_normal hle
    (hapart.imp_of_mem fun ha _ => compatible_of_apart (hle _ ha))
  refine ⟨hnormal, ?_⟩
  rw [intersectFits, hfits, Bool.and_true]
  simp only [List.all_eq_true]
  refine fun a ha b hb => emptyTestFits_of_inside (rangeInside_of_ne ?_ ?_)
  · exact maxLowerBound_ne (ends_inside (hs.members a ha)).1 (ends_inside (ht.members b hb)).1
  · exact minUpperBound_ne (ends_inside (hs.members a ha)).2 (ends_inside (ht.members b hb)).2

def EndsInside (iv : Interval) : Prop :=
  iv.lower ≠ .inclusive Int64.minValue ∧ iv.upper ≠ .inclusive Int64.maxValue

theorem flipUpperToLower_ne {b : Bound} (h : b ≠ .inclusive Int64.maxValue) :
    flipUpperToLower b ≠ .exclusive Int64.maxValue := by
  cases b <;> simp_all [flipUpperToLower, flipBound]

theorem flipLowerToUpper_ne {b : Bound} (h : b ≠ .inclusive Int64.minValue) :
    flipLowerToUpper b ≠ .exclusive Int64.minValue := by
  cases b <;> simp_all [flipLowerToUpper, flipBound]

theorem mem_piece (hinside : rangeInside ⟨lower, upper⟩ = true) (h : iv ∈ piece lower upper) :
    iv.lower = lower ∧ iv.upper = upper ∧ iv.lower.first ≤ iv.upper.last := by
  unfold piece at h
  split at h
  case isTrue => cases h
  case isFalse hempty =>
    obtain rfl := List.mem_singleton.mp h
    exact ⟨rfl, rfl, first_le_last hinside (Bool.eq_false_iff.mpr hempty)⟩

theorem pairwise_piece {R : Interval → Interval → Prop} : (piece lower upper).Pairwise R := by
  unfold piece
  split <;> simp

theorem gapsAfter_normal (h : Normal ⟨x :: rest⟩) (hends : ∀ iv ∈ x :: rest, EndsInside iv) :
    (∀ iv ∈ gapsAfter x.upper rest, x.upper.last < iv.lower.first ∧
      iv.lower.first ≤ iv.upper.last ∧
      ∀ c ∈ rest, iv.upper.last < c.lower.first ∨ c.upper.last < iv.lower.first) ∧
    (gapsAfter x.upper rest).Pairwise fun a b => a.upper.last + 1 < b.lower.first := by
  have hx := flipUpperToLower_ne (hends x List.mem_cons_self).2
  induction rest generalizing x with
  | nil =>
    unfold gapsAfter
    split
    case isTrue => simp
    case isFalse hbounded =>
      refine ⟨fun iv hiv => ?_, pairwise_piece⟩
      obtain ⟨hlower, -, hle⟩ := mem_piece (rangeInside_of_ne hx (by simp)) hiv
      rw [hlower, first_flipUpperToLower hbounded] at hle ⊢
      exact ⟨by omega, hle, by simp⟩
  | cons next rest ih =>
    obtain ⟨hle, hapart⟩ := h
    obtain ⟨-, hle⟩ := List.forall_mem_cons.mp hle
    obtain ⟨hfirst, hapart⟩ := List.pairwise_cons.mp hapart
    have hnext := hle next List.mem_cons_self
    have hgap := hfirst next List.mem_cons_self
    obtain ⟨hrest, hpairs⟩ := ih ⟨hle, hapart⟩ (fun iv hiv => hends iv (List.mem_cons_of_mem _ hiv))
      (flipUpperToLower_ne (hends next (List.mem_cons_of_mem _ List.mem_cons_self)).2)
    have hbetween : ∀ iv ∈ (if x.upper = .unbounded ∨ next.lower = .unbounded then []
        else piece (flipUpperToLower x.upper) (flipLowerToUpper next.lower)),
        iv.lower.first = x.upper.last + 1 ∧ iv.upper.last = next.lower.first - 1 ∧
          iv.lower.first ≤ iv.upper.last := by
      intro iv hiv
      split at hiv
      case isTrue => cases hiv
      case isFalse hbounded =>
        obtain ⟨hupper, hlower⟩ := not_or.mp hbounded
        obtain ⟨hl, hu, hle⟩ := mem_piece (rangeInside_of_ne hx (flipLowerToUpper_ne (hends next
          (List.mem_cons_of_mem _ List.mem_cons_self)).1)) hiv
        rw [← first_flipUpperToLower hupper, ← last_flipLowerToUpper hlower, ← hl, ← hu]
        exact ⟨rfl, rfl, hle⟩
    have hafter : ∀ c ∈ rest, next.upper.last + 1 < c.lower.first := (List.pairwise_cons.mp hapart).1
    rw [gapsAfter]
    refine ⟨fun iv hiv => ?_, List.pairwise_append.mpr ⟨?_, hpairs, fun a ha b hb => ?_⟩⟩
    · rcases List.mem_append.mp hiv with hiv | hiv
      · obtain ⟨hl, hu, hle⟩ := hbetween iv hiv
        refine ⟨by omega, hle, List.forall_mem_cons.mpr ⟨by omega, fun c hc => ?_⟩⟩
        have hc := hafter c hc
        omega
      · obtain ⟨habove, hle, hmeet⟩ := hrest iv hiv
        exact ⟨by omega, hle, List.forall_mem_cons.mpr ⟨.inr habove, hmeet⟩⟩
    · split
      · exact .nil
      · exact pairwise_piece
    · have hleft := hbetween a ha
      have hright := hrest b hb
      omega

theorem complement_normal (h : s.Normal) (hends : ∀ iv ∈ s.intervals, EndsInside iv) :
    s.complement.Normal ∧ (∀ v, s.complement.contains v = true ↔ s.contains v = false) ∧
      complementFits s = true := by
  have hfits : complementFits s = true := by
    rw [complementFits, List.all_eq_true]
    intro w hw
    obtain ⟨hleft, hright⟩ := List.of_mem_zip hw
    exact emptyTestFits_of_inside (rangeInside_of_ne (flipUpperToLower_ne (hends _ hleft).2)
      (flipLowerToUpper_ne (hends _ (List.mem_of_mem_tail hright)).1))
  suffices hboth : s.complement.Normal ∧ ∀ iv ∈ s.complement.intervals, ∀ c ∈ s.intervals,
      iv.upper.last < c.lower.first ∨ c.upper.last < iv.lower.first by
    refine ⟨hboth.1, fun v => ⟨fun hv => ?_, contains_complement⟩, hfits⟩
    obtain ⟨iv, hiv, hv⟩ := contains_iff.mp hv
    rw [← Bool.not_eq_true, contains_iff]
    rintro ⟨c, hc, hcv⟩
    rw [intervalContains_iff] at hv hcv
    have hmeet := hboth.2 iv hiv c hc
    omega
  obtain ⟨intervals⟩ := s
  cases intervals with
  | nil =>
    refine ⟨⟨fun iv hiv => ?_, List.pairwise_singleton ..⟩, by simp⟩
    obtain rfl := List.mem_singleton.mp hiv
    simp [Bound.first, Bound.last]
  | cons first rest =>
    obtain ⟨hgaps, hpairs⟩ := gapsAfter_normal h hends
    have hfirst := h.members first List.mem_cons_self
    have hrest : ∀ c ∈ rest, first.upper.last + 1 < c.lower.first := (List.pairwise_cons.mp h.apart).1
    have hbefore : ∀ iv ∈ (if first.lower = .unbounded then []
        else piece .unbounded (flipLowerToUpper first.lower)),
        iv.upper.last = first.lower.first - 1 ∧ iv.lower.first ≤ iv.upper.last := by
      intro iv hiv
      split at hiv
      case isTrue => cases hiv
      case isFalse hbounded =>
        obtain ⟨-, hu, hle⟩ := mem_piece (rangeInside_of_ne (by simp)
          (flipLowerToUpper_ne (hends first List.mem_cons_self).1)) hiv
        rw [← last_flipLowerToUpper hbounded, ← hu]
        exact ⟨rfl, hle⟩
    refine ⟨⟨?_, ?_⟩, ?_⟩ <;> rw [intervals_complement]
    · intro iv hiv
      rcases List.mem_append.mp hiv with hiv | hiv
      · exact (hbefore iv hiv).2
      · exact (hgaps iv hiv).2.1
    · refine List.pairwise_append.mpr ⟨?_, hpairs, fun a ha b hb => ?_⟩
      · split
        · exact .nil
        · exact pairwise_piece
      · have hleft := hbefore a ha
        have hright := hgaps b hb
        omega
    · intro iv hiv
      rcases List.mem_append.mp hiv with hiv | hiv
      · have hbelow := hbefore iv hiv
        refine List.forall_mem_cons.mpr ⟨by omega, fun c hc => ?_⟩
        have hc := hrest c hc
        omega
      · obtain ⟨habove, -, hmeet⟩ := hgaps iv hiv
        exact List.forall_mem_cons.mpr ⟨.inr habove, hmeet⟩

end Operations

section Correctness

open IntervalSet

theorem toInt_pred {a : Int64} (h : -2 ^ 63 < a.toInt) : (a - 1).toInt = a.toInt - 1 := by
  have hmax := a.toInt_lt
  rw [Int64.toInt_sub]
  apply Int.bmod_eq_of_le <;> simp <;> omega

theorem exists_intervalWitness (h : iv.lower.first ≤ iv.upper.last) :
    ∃ v, intervalWitness iv = some v ∧ intervalContains iv v = true := by
  simp only [intervalContains_iff]
  unfold intervalWitness
  rw [if_neg (by simp [intervalIsEmpty_of_le h])]
  obtain ⟨lower, upper⟩ := iv
  cases lower with
  | inclusive v => exact ⟨v, rfl, le_rfl, h⟩
  | exclusive v =>
    have hlast := last_le (b := upper)
    simp only [Bound.first] at h ⊢
    have hmax : ¬ v = Int64.maxValue := by
      rw [toInt_eq_maxValue]
      omega
    exact ⟨v + 1, if_neg hmax, by rw [toInt_succ (by omega)]; omega⟩
  | unbounded =>
    cases upper with
    | inclusive v => exact ⟨v, rfl, h, le_rfl⟩
    | exclusive v =>
      simp only [Bound.first, Bound.last] at h ⊢
      have hmin : ¬ v = Int64.minValue := by
        rw [toInt_eq_minValue]
        omega
      exact ⟨v - 1, if_neg hmin, by rw [toInt_pred (by omega)]; omega⟩
    | unbounded => exact ⟨0, rfl, by decide, by decide⟩

theorem IntervalSet.Normal.witness (h : s.Normal) :
    s.isEmpty = true ∧ s.pickWitness = none ∧ (∀ v, s.contains v = false) ∨
      s.isEmpty = false ∧ ∃ v, s.pickWitness = some v ∧ s.contains v = true := by
  obtain ⟨intervals⟩ := s
  cases intervals with
  | nil => exact .inl ⟨rfl, rfl, fun _ => rfl⟩
  | cons first rest =>
    obtain ⟨v, hwitness, hv⟩ := exists_intervalWitness (h.members first List.mem_cons_self)
    refine .inr ⟨rfl, v, ?_, contains_iff.mpr ⟨first, List.mem_cons_self, hv⟩⟩
    rw [pickWitness, List.findSome?_cons, hwitness]

theorem correct_of_normal {e : SetExpr} (h : e.eval.Normal)
    (hcontains : ∀ v, e.eval.contains v = true ↔ v ∈ e.meaning) (hfits : e.fits = true) :
    e.Correct := by
  have hwitnessFits : e.eval.intervals.all emptyTestFits = true := by
    rw [List.all_eq_true]
    intro iv hiv
    obtain ⟨hlower, hupper⟩ := ends_inside (h.members iv hiv)
    exact emptyTestFits_of_inside (rangeInside_of_ne hlower hupper)
  rcases h.witness with ⟨hempty, hnone, hmembers⟩ | ⟨hempty, w, hwitness, hw⟩
  · have hmeaning : e.meaning = ∅ := by
      refine Set.eq_empty_of_forall_notMem fun v hv => ?_
      rw [← hcontains, hmembers] at hv
      cases hv
    refine ⟨hcontains, h, ?_, ?_, ?_, hfits, hwitnessFits⟩
    · simp [hempty, hmeaning]
    · simp [hnone]
    · simp [hnone, hmeaning]
  · have hmember := (hcontains w).mp hw
    refine ⟨hcontains, h, ?_, fun v hv => ?_, ?_, hfits, hwitnessFits⟩
    · simp [hempty, (Set.nonempty_of_mem hmember).ne_empty]
    · obtain rfl := Option.mem_unique hwitness hv
      exact hmember
    · simp [hwitness, Set.nonempty_of_mem hmember]

theorem mem_meaning_range {lower upper : Option Int64} {lowerInclusive upperInclusive : Bool} :
    (boundOf lower lowerInclusive).lowerOk v = true ∧
      (boundOf upper upperInclusive).upperOk v = true ↔
      v ∈ (SetExpr.range lower upper lowerInclusive upperInclusive).meaning := by
  rw [SetExpr.meaning, Set.mem_ofPred_eq]
  cases lower <;> cases upper <;> cases lowerInclusive <;> cases upperInclusive <;>
    simp [boundOf, Bound.lowerOk, Bound.upperOk]

/-- A set is built as it should be if the operands of every step are free of the three cases that go
wrong. -/
theorem careful_correct {e : SetExpr} (h : e.Careful) : e.Correct := by
  induction e with
  | range lower upper lowerInclusive upperInclusive =>
    refine correct_of_normal ⟨fun iv hiv => ?_, ?_⟩
      (fun v => contains_fromRange.trans mem_meaning_range) (emptyTestFits_of_inside h)
    · rw [SetExpr.eval, intervals_fromRange] at hiv
      exact (mem_piece h hiv).2.2
    · rw [SetExpr.eval, intervals_fromRange]
      exact pairwise_piece
  | union a b iha ihb =>
    obtain ⟨ha, hb, hcompatible⟩ := h
    have ha := iha ha
    have hb := ihb hb
    obtain ⟨hnormal, hfits⟩ := union_normal ha.normal hb.normal hcompatible
    refine correct_of_normal hnormal (fun v => ?_) hfits
    rw [SetExpr.eval, contains_union, ha.contains, hb.contains, SetExpr.meaning, Set.mem_union]
  | intersect a b iha ihb =>
    have ha := iha h.1
    have hb := ihb h.2
    obtain ⟨hnormal, hfits⟩ := intersect_normal ha.normal hb.normal
    refine correct_of_normal hnormal (fun v => ?_) hfits
    rw [SetExpr.eval, contains_intersect, ha.contains, hb.contains, SetExpr.meaning, Set.mem_inter_iff]
  | complement a iha =>
    have ha := iha h.1
    obtain ⟨hnormal, hcontains, hfits⟩ := complement_normal ha.normal h.2
    refine correct_of_normal hnormal (fun v => ?_) hfits
    rw [SetExpr.eval, hcontains, SetExpr.meaning, Set.mem_compl_iff, ← ha.contains,
      Bool.not_eq_true]

end Correctness

namespace Sample

open SetExpr

def between (lower upper : Int64) : SetExpr := range (some lower) (some upper) true true

def upTo (upper : Int64) : SetExpr := range none (some upper) true true

theorem complement_of_touching :
    (complement (union (upTo 10) (between 11 20))).Careful ∧
      (complement (union (upTo 10) (between 11 20))).eval = ⟨[⟨.exclusive 20, .unbounded⟩]⟩ ∧
      (complement (union (upTo 10) (between 11 20))).Correct := by
  have hcareful : (complement (union (upTo 10) (between 11 20))).Careful :=
    ⟨⟨(by decide : rangeInside _ = true), (by decide : rangeInside _ = true), by decide⟩, by decide⟩
  exact ⟨hcareful, by decide, careful_correct hcareful⟩

/-- A complement with a member of the set, a set without members that is not found empty, and an
addition that overflows. -/
theorem interval_algebra_fails :
    (4 ∈ (union (upTo 5) (upTo 3)).meaning ∧
      (complement (union (upTo 5) (upTo 3))).eval.contains 4 = true) ∧
    ((complement (between Int64.minValue Int64.maxValue)).meaning = ∅ ∧
      (complement (between Int64.minValue Int64.maxValue)).eval.isEmpty = false ∧
      (complement (between Int64.minValue Int64.maxValue)).eval.pickWitness = none) ∧
    (union (between 0 Int64.maxValue) (between 5 10)).fits = false := by
  refine ⟨⟨.inl ⟨by simp, by rintro u ⟨⟩; decide⟩, by decide⟩, ⟨?_, by decide, by decide⟩, by decide⟩
  rw [SetExpr.meaning, Set.compl_empty_iff, Set.eq_univ_iff_forall]
  intro v
  rw [between, SetExpr.meaning, Set.mem_ofPred_eq]
  simp [Int64.minValue_le, Int64.le_maxValue]

end Sample

end BpmnLite.Dmn
