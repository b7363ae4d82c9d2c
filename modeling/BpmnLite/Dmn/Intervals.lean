import Mathlib

/-!
# Interval sets over `i64`

The interval arithmetic of the static analysis. An interval set is a list of intervals; `union` and
`intersect` sort theirs by lower bound and merge the ones that touch. Additions wrap around, as in a
release build.
-/

namespace BpmnLite.Dmn

variable {y v x w : Int64} {upperInclusive lowerInclusive : Bool} {o : Ordering}

inductive Bound where
  | inclusive (v : Int64)
  | exclusive (v : Int64)
  | unbounded
  deriving DecidableEq

structure Interval where
  lower : Bound
  upper : Bound
  deriving DecidableEq

structure IntervalSet where
  intervals : List Interval
  deriving DecidableEq

section Bounds

def cmpInt (x y : Int64) : Ordering := compare x.toInt y.toInt

/-- At one value an inclusive lower bound comes before an exclusive one. -/
def cmpLowerBound : Bound → Bound → Ordering
  | .unbounded, .unbounded => .eq
  | .unbounded, _ => .lt
  | _, .unbounded => .gt
  | .inclusive x, .inclusive y => cmpInt x y
  | .exclusive x, .exclusive y => cmpInt x y
  | .inclusive x, .exclusive y => (cmpInt x y).then .lt
  | .exclusive x, .inclusive y => (cmpInt x y).then .gt

def cmpUpperBound : Bound → Bound → Ordering
  | .unbounded, .unbounded => .eq
  | .unbounded, _ => .gt
  | _, .unbounded => .lt
  | .inclusive x, .inclusive y => cmpInt x y
  | .exclusive x, .exclusive y => cmpInt x y
  | .inclusive x, .exclusive y => (cmpInt x y).then .gt
  | .exclusive x, .inclusive y => (cmpInt x y).then .lt

def maxLowerBound (a b : Bound) : Bound := if cmpLowerBound a b = .lt then b else a

def minUpperBound (a b : Bound) : Bound := if cmpUpperBound a b = .lt then a else b

def maxUpperBound (a b : Bound) : Bound := if cmpUpperBound a b = .gt then a else b

/-- The bound on the other side of the same cut. -/
def flipBound : Bound → Bound
  | .unbounded => .unbounded
  | .inclusive v => .exclusive v
  | .exclusive v => .inclusive v

def flipUpperToLower (b : Bound) : Bound := flipBound b

def flipLowerToUpper (b : Bound) : Bound := flipBound b

end Bounds

section Single

def Bound.lowerOk : Bound → Int64 → Bool
  | .unbounded, _ => true
  | .inclusive b, v => v ≥ b
  | .exclusive b, v => v > b

def Bound.upperOk : Bound → Int64 → Bool
  | .unbounded, _ => true
  | .inclusive b, v => v ≤ b
  | .exclusive b, v => v < b

def intervalContains (iv : Interval) (v : Int64) : Bool := iv.lower.lowerOk v && iv.upper.upperOk v

def intervalIsEmpty (iv : Interval) : Bool :=
  match iv.lower, iv.upper with
  | .inclusive a, .inclusive b => a > b
  | .inclusive a, .exclusive b => a ≥ b
  | .exclusive a, .inclusive b => a ≥ b
  | .exclusive a, .exclusive b => a + 1 ≥ b
  | _, _ => false

def intervalIntersect (a b : Interval) : Option Interval :=
  let out : Interval := ⟨maxLowerBound a.lower b.lower, minUpperBound a.upper b.upper⟩
  if intervalIsEmpty out then none else some out

/-- Whether the second interval, which begins no earlier, can be joined to the first. -/
def intervalsTouchOrOverlap (a b : Interval) : Bool :=
  match a.upper, b.lower with
  | .unbounded, _ => true
  | _, .unbounded => false
  | .inclusive au, .inclusive bl => bl ≤ au + 1
  | .inclusive au, .exclusive bl => bl ≤ au
  | .exclusive au, .inclusive bl => bl ≤ au
  | .exclusive au, .exclusive bl => bl < au

end Single

namespace IntervalSet

def empty : IntervalSet := ⟨[]⟩

def full : IntervalSet := ⟨[⟨.unbounded, .unbounded⟩]⟩

def singleton (v : Int64) : IntervalSet := ⟨[⟨.inclusive v, .inclusive v⟩]⟩

def boundOf (v : Option Int64) (inclusive : Bool) : Bound :=
  match v with
  | none => .unbounded
  | some v => if inclusive then .inclusive v else .exclusive v

def fromRange (lower upper : Option Int64) (lowerInclusive upperInclusive : Bool) : IntervalSet :=
  let i : Interval := ⟨boundOf lower lowerInclusive, boundOf upper upperInclusive⟩
  if intervalIsEmpty i then empty else ⟨[i]⟩

def isEmpty (s : IntervalSet) : Bool := s.intervals.isEmpty

def contains (s : IntervalSet) (v : Int64) : Bool := s.intervals.any (intervalContains · v)

def mergeFrom (last : Interval) : List Interval → List Interval
  | [] => [last]
  | next :: rest =>
    if intervalsTouchOrOverlap last next then
      mergeFrom { last with upper := maxUpperBound last.upper next.upper } rest
    else last :: mergeFrom next rest

/-- `sort_by` is stable; an insertion sort is too. -/
def sortByLower (l : List Interval) : List Interval :=
  l.insertionSort fun a b => cmpLowerBound a.lower b.lower ≠ .gt

def normalize (l : List Interval) : IntervalSet :=
  match sortByLower l with
  | [] => empty
  | first :: rest => ⟨mergeFrom first rest⟩

def union (s t : IntervalSet) : IntervalSet := normalize (s.intervals ++ t.intervals)

def intersect (s t : IntervalSet) : IntervalSet :=
  normalize (s.intervals.flatMap fun a => t.intervals.filterMap (intervalIntersect a))

/-- A piece of a complement, if there is anything in it. -/
def piece (lower upper : Bound) : List Interval :=
  if intervalIsEmpty ⟨lower, upper⟩ then [] else [⟨lower, upper⟩]

def complement (s : IntervalSet) : IntervalSet :=
  match s.intervals with
  | [] => full
  | first :: rest =>
    let last := (first :: rest).getLast (List.cons_ne_nil _ _)
    let before := if first.lower = .unbounded then []
      else piece .unbounded (flipLowerToUpper first.lower)
    let between := ((first :: rest).zip rest).flatMap fun w =>
      if w.1.upper = .unbounded ∨ w.2.lower = .unbounded then []
      else piece (flipUpperToLower w.1.upper) (flipLowerToUpper w.2.lower)
    let after := if last.upper = .unbounded then []
      else piece (flipUpperToLower last.upper) .unbounded
    ⟨before ++ between ++ after⟩

end IntervalSet

section Keys

def Bound.first : Bound → ℤ
  | .unbounded => -2 ^ 63
  | .inclusive v => v.toInt
  | .exclusive v => v.toInt + 1

def Bound.last : Bound → ℤ
  | .unbounded => 2 ^ 63 - 1
  | .inclusive v => v.toInt
  | .exclusive v => v.toInt - 1

/-- The place of a lower bound: an exclusive one lies half a step above its value. -/
def Bound.lowerKey : Bound → ℤ
  | .unbounded => -2 ^ 65
  | .inclusive v => 2 * v.toInt
  | .exclusive v => 2 * v.toInt + 1

variable {a b : Bound}

theorem first_ge : -2 ^ 63 ≤ b.first := by
  cases b with
  | unbounded => exact le_rfl
  | inclusive w => exact w.le_toInt
  | exclusive w => exact w.le_toInt.trans (by simp [Bound.first])

theorem last_le : b.last ≤ 2 ^ 63 - 1 := by
  cases b with
  | unbounded => exact le_rfl
  | inclusive w | exclusive w =>
    have hmax := w.toInt_lt
    simp only [Bound.last]
    omega

theorem lowerOk_iff : b.lowerOk v = true ↔ b.first ≤ v.toInt := by
  cases b with
  | unbounded => simpa [Bound.lowerOk, Bound.first] using v.le_toInt
  | inclusive w => simp only [Bound.lowerOk, Bound.first, decide_eq_true_eq, Int64.le_iff_toInt_le]
  | exclusive w =>
    simp only [Bound.lowerOk, Bound.first, decide_eq_true_eq, gt_iff_lt, Int64.lt_iff_toInt_lt]
    omega

theorem upperOk_iff : b.upperOk v = true ↔ v.toInt ≤ b.last := by
  cases b with
  | unbounded =>
    have hmax := v.toInt_lt
    simp only [Bound.upperOk, Bound.last, true_iff]
    omega
  | inclusive w => simp only [Bound.upperOk, Bound.last, decide_eq_true_eq, Int64.le_iff_toInt_le]
  | exclusive w =>
    simp only [Bound.upperOk, Bound.last, decide_eq_true_eq, Int64.lt_iff_toInt_lt]
    omega

theorem cmpInt_eq_lt : cmpInt x y = .lt ↔ x.toInt < y.toInt := compare_lt_iff_lt

theorem cmpInt_eq_gt : cmpInt x y = .gt ↔ y.toInt < x.toInt := compare_gt_iff_gt

theorem then_lt_eq_lt : o.then .lt = .lt ↔ o ≠ .gt := by cases o <;> simp

theorem then_gt_eq_lt : o.then .gt = .lt ↔ o = .lt := by cases o <;> simp

theorem then_lt_eq_gt : o.then .lt = .gt ↔ o = .gt := by cases o <;> simp

theorem then_gt_eq_gt : o.then .gt = .gt ↔ o ≠ .lt := by cases o <;> simp

theorem cmpLowerBound_eq_gt : cmpLowerBound a b = .gt ↔ b.lowerKey < a.lowerKey := by
  cases a with
  | unbounded =>
    cases b with
    | unbounded => simp [cmpLowerBound]
    | inclusive y | exclusive y =>
      have hmin := y.le_toInt
      simp only [cmpLowerBound, Bound.lowerKey, reduceCtorEq, false_iff]
      omega
  | inclusive x | exclusive x =>
    have hmin := x.le_toInt
    cases b with
    | unbounded =>
      simp only [cmpLowerBound, Bound.lowerKey, true_iff]
      omega
    | inclusive y | exclusive y =>
      simp only [cmpLowerBound, Bound.lowerKey, then_lt_eq_gt, then_gt_eq_gt, cmpInt_eq_gt, ne_eq,
        cmpInt_eq_lt]
      omega

theorem first_mono (h : a.lowerKey ≤ b.lowerKey) : a.first ≤ b.first := by
  cases a with
  | unbounded => exact first_ge
  | inclusive x | exclusive x =>
    have hmin := x.le_toInt
    cases b with
    | unbounded | inclusive y | exclusive y =>
      simp only [Bound.lowerKey] at h
      simp only [Bound.first]
      omega

theorem first_maxLowerBound : (maxLowerBound a b).first = max a.first b.first := by
  unfold maxLowerBound
  cases a with
  | unbounded =>
    have hge : Bound.first .unbounded ≤ b.first := first_ge
    rw [max_eq_right hge]
    cases b <;> rfl
  | inclusive x | exclusive x =>
    cases b with
    | unbounded => exact (max_eq_left first_ge).symm
    | inclusive y | exclusive y =>
      simp only [cmpLowerBound, then_lt_eq_lt, then_gt_eq_lt, cmpInt_eq_lt, ne_eq, cmpInt_eq_gt]
      split <;> simp only [Bound.first] <;> omega

theorem cmpUpperBound_last : (cmpUpperBound a b ≠ .gt → a.last ≤ b.last) ∧
    (cmpUpperBound a b ≠ .lt → b.last ≤ a.last) := by
  cases a with
  | unbounded =>
    refine ⟨fun h => ?_, fun _ => last_le⟩
    cases b with
    | unbounded => exact le_rfl
    | inclusive y | exclusive y => exact absurd rfl h
  | inclusive x | exclusive x =>
    cases b with
    | unbounded => exact ⟨fun _ => last_le, fun h => absurd rfl h⟩
    | inclusive y | exclusive y =>
      simp only [cmpUpperBound, ne_eq, then_lt_eq_lt, then_gt_eq_lt, then_lt_eq_gt, then_gt_eq_gt,
        cmpInt_eq_lt, cmpInt_eq_gt, Bound.last]
      omega

theorem last_minUpperBound : (minUpperBound a b).last = min a.last b.last := by
  unfold minUpperBound
  split_ifs with h
  · exact (min_eq_left (cmpUpperBound_last.1 (by simp [h]))).symm
  · exact (min_eq_right (cmpUpperBound_last.2 h)).symm

theorem last_maxUpperBound : (maxUpperBound a b).last = max a.last b.last := by
  unfold maxUpperBound
  split_ifs with h
  · exact (max_eq_left (cmpUpperBound_last.2 (by simp [h]))).symm
  · exact (max_eq_right (cmpUpperBound_last.1 h)).symm

theorem last_flipLowerToUpper (h : b ≠ .unbounded) : (flipLowerToUpper b).last = b.first - 1 := by
  cases b with
  | unbounded => exact absurd rfl h
  | inclusive w => rfl
  | exclusive w => simp [flipLowerToUpper, flipBound, Bound.first, Bound.last]

theorem first_flipUpperToLower (h : b ≠ .unbounded) : (flipUpperToLower b).first = b.last + 1 := by
  cases b with
  | unbounded => exact absurd rfl h
  | inclusive w => rfl
  | exclusive w => simp [flipUpperToLower, flipBound, Bound.first, Bound.last]

end Keys

section Members

variable {iv a b : Interval}

theorem intervalContains_iff :
    intervalContains iv v = true ↔ iv.lower.first ≤ v.toInt ∧ v.toInt ≤ iv.upper.last := by
  rw [intervalContains, Bool.and_eq_true, lowerOk_iff, upperOk_iff]

theorem toInt_succ {a : Int64} (h : a.toInt < 2 ^ 63 - 1) : (a + 1).toInt = a.toInt + 1 := by
  have hmin := a.le_toInt
  rw [Int64.toInt_add]
  apply Int.bmod_eq_of_le <;> simp <;> omega

theorem intervalIsEmpty_of_le (h : iv.lower.first ≤ iv.upper.last) :
    intervalIsEmpty iv = false := by
  obtain ⟨lower, upper⟩ := iv
  cases lower with
  | unbounded => cases upper <;> rfl
  | inclusive a | exclusive a =>
    cases upper with
    | unbounded => rfl
    | inclusive b | exclusive b =>
      have hmax := b.toInt_lt
      simp only [Bound.first, Bound.last] at h
      simp only [intervalIsEmpty, decide_eq_false_iff_not, ge_iff_le, gt_iff_lt,
        Int64.le_iff_toInt_le, Int64.lt_iff_toInt_lt]
      first | omega | rw [toInt_succ] <;> omega

theorem intervalIsEmpty_of_contains (h : intervalContains iv v = true) :
    intervalIsEmpty iv = false := by
  obtain ⟨hlower, hupper⟩ := intervalContains_iff.mp h
  exact intervalIsEmpty_of_le (hlower.trans hupper)

theorem intervalIntersect_contains :
    (∃ c, intervalIntersect a b = some c ∧ intervalContains c v = true) ↔
      intervalContains a v = true ∧ intervalContains b v = true := by
  have hboth : intervalContains ⟨maxLowerBound a.lower b.lower, minUpperBound a.upper b.upper⟩ v =
      true ↔ intervalContains a v = true ∧ intervalContains b v = true := by
    simp only [intervalContains_iff, first_maxLowerBound, last_minUpperBound]
    omega
  rw [← hboth]
  unfold intervalIntersect
  dsimp only
  split
  case isTrue hempty =>
    refine ⟨by simp, fun h => ?_⟩
    rw [intervalIsEmpty_of_contains h] at hempty
    cases hempty
  case isFalse => simp

theorem first_le_of_touch (h : intervalsTouchOrOverlap a b = true) :
    b.lower.first ≤ a.upper.last + 1 := by
  obtain ⟨la, ua⟩ := a
  obtain ⟨lb, ub⟩ := b
  cases ua with
  | unbounded =>
    cases lb with
    | unbounded => simp [Bound.first, Bound.last]
    | inclusive bl | exclusive bl =>
      have hmax := bl.toInt_lt
      simp only [Bound.first, Bound.last]
      omega
  | inclusive au =>
    have hmax := au.toInt_lt
    cases lb with
    | unbounded => cases h
    | inclusive bl =>
      have hbl := bl.toInt_lt
      simp only [intervalsTouchOrOverlap, decide_eq_true_eq, Int64.le_iff_toInt_le] at h
      simp only [Bound.first, Bound.last]
      by_cases hau : au.toInt < 2 ^ 63 - 1
      · rwa [toInt_succ hau] at h
      · omega
    | exclusive bl =>
      simp only [intervalsTouchOrOverlap, decide_eq_true_eq, Int64.le_iff_toInt_le] at h
      simp only [Bound.first, Bound.last]
      omega
  | exclusive au =>
    cases lb with
    | unbounded => cases h
    | inclusive bl | exclusive bl =>
      simp only [intervalsTouchOrOverlap, decide_eq_true_eq, Int64.le_iff_toInt_le,
        Int64.lt_iff_toInt_lt] at h
      simp only [Bound.first, Bound.last]
      omega

end Members

namespace IntervalSet

variable {s t : IntervalSet}

theorem contains_iff : s.contains v = true ↔ ∃ iv ∈ s.intervals, intervalContains iv v = true :=
  List.any_eq_true

theorem exists_mem_mergeFrom {last : Interval} {rest : List Interval}
    (hsorted : (last :: rest).Pairwise fun a b => a.lower.lowerKey ≤ b.lower.lowerKey) :
    (∃ iv ∈ mergeFrom last rest, intervalContains iv v = true) ↔
      ∃ iv ∈ last :: rest, intervalContains iv v = true := by
  induction rest generalizing last with
  | nil => rfl
  | cons next rest ih =>
    obtain ⟨hlast, hrest⟩ := List.pairwise_cons.mp hsorted
    unfold mergeFrom
    split
    case isTrue htouch =>
      have hmerged : intervalContains { last with upper := maxUpperBound last.upper next.upper } v =
          true ↔ intervalContains last v = true ∨ intervalContains next v = true := by
        have hfirst := first_mono (hlast next List.mem_cons_self)
        have hnext := first_le_of_touch htouch
        simp only [intervalContains_iff, last_maxUpperBound]
        omega
      have hsorted' : ({ last with upper := maxUpperBound last.upper next.upper } :: rest).Pairwise
          fun a b => a.lower.lowerKey ≤ b.lower.lowerKey :=
        List.pairwise_cons.mpr ⟨fun b hb => hlast b (List.mem_cons_of_mem _ hb),
          (List.pairwise_cons.mp hrest).2⟩
      rw [ih hsorted']
      simp only [List.exists_mem_cons_iff, hmerged, or_assoc]
    case isFalse =>
      rw [List.exists_mem_cons_iff, ih hrest]
      simp only [List.exists_mem_cons_iff]

theorem sorted_iff {a b : Interval} :
    cmpLowerBound a.lower b.lower ≠ .gt ↔ a.lower.lowerKey ≤ b.lower.lowerKey := by
  rw [ne_eq, cmpLowerBound_eq_gt, not_lt]

instance sorted_total : Std.Total fun a b : Interval => cmpLowerBound a.lower b.lower ≠ .gt :=
  ⟨fun a b => by simpa only [sorted_iff] using le_total _ _⟩

instance sorted_trans : IsTrans Interval fun a b => cmpLowerBound a.lower b.lower ≠ .gt :=
  ⟨fun a b c => by simpa only [sorted_iff] using le_trans⟩

theorem pairwise_sortByLower (l : List Interval) :
    (sortByLower l).Pairwise fun a b => a.lower.lowerKey ≤ b.lower.lowerKey :=
  (List.pairwise_insertionSort _ l).imp fun h => sorted_iff.mp h

theorem contains_normalize {l : List Interval} :
    (normalize l).contains v = true ↔ ∃ iv ∈ l, intervalContains iv v = true := by
  have hsorted := pairwise_sortByLower l
  have hmem : ∀ iv, iv ∈ sortByLower l ↔ iv ∈ l := fun _ => (List.perm_insertionSort _ l).mem_iff
  simp only [← hmem]
  unfold normalize
  split
  case h_1 hnil =>
    rw [hnil]
    simp [contains, empty]
  case h_2 first rest hcons =>
    rw [hcons] at hsorted ⊢
    rw [contains_iff, exists_mem_mergeFrom hsorted]

theorem contains_union :
    (s.union t).contains v = true ↔ s.contains v = true ∨ t.contains v = true := by
  rw [union, contains_normalize, contains_iff, contains_iff]
  simp only [List.mem_append, or_and_right, exists_or]

theorem contains_intersect :
    (s.intersect t).contains v = true ↔ s.contains v = true ∧ t.contains v = true := by
  rw [intersect, contains_normalize, contains_iff, contains_iff]
  simp only [List.mem_flatMap, List.mem_filterMap]
  constructor
  · rintro ⟨c, ⟨a, ha, b, hb, hc⟩, hv⟩
    obtain ⟨hav, hbv⟩ := intervalIntersect_contains.mp ⟨c, hc, hv⟩
    exact ⟨⟨a, ha, hav⟩, b, hb, hbv⟩
  · rintro ⟨⟨a, ha, hav⟩, b, hb, hbv⟩
    obtain ⟨c, hc, hv⟩ := intervalIntersect_contains.mpr ⟨hav, hbv⟩
    exact ⟨c, ⟨a, ha, b, hb, hc⟩, hv⟩

theorem isEmpty_of_contains (h : s.contains v = true) : s.isEmpty = false := by
  obtain ⟨iv, hmem, -⟩ := contains_iff.mp h
  exact List.isEmpty_eq_false_iff.mpr (List.ne_nil_of_mem hmem)

theorem contains_single {i : Interval} :
    (IntervalSet.mk [i]).contains v = true ↔ intervalContains i v = true := by
  rw [contains, List.any_cons, List.any_nil, Bool.or_false]

theorem exists_mem_piece {lower upper : Bound} :
    (∃ iv ∈ piece lower upper, intervalContains iv v = true) ↔
      intervalContains ⟨lower, upper⟩ v = true := by
  unfold piece
  split
  case isTrue hempty =>
    refine ⟨by simp, fun h => ?_⟩
    rw [intervalIsEmpty_of_contains h] at hempty
    cases hempty
  case isFalse => simp

theorem intervals_fromRange {lower upper : Option Int64} :
    (fromRange lower upper lowerInclusive upperInclusive).intervals =
      piece (boundOf lower lowerInclusive) (boundOf upper upperInclusive) := by
  unfold fromRange piece
  dsimp only
  split <;> rfl

theorem contains_fromRange {lower upper : Option Int64} :
    (fromRange lower upper lowerInclusive upperInclusive).contains v = true ↔
      (boundOf lower lowerInclusive).lowerOk v = true ∧
        (boundOf upper upperInclusive).upperOk v = true := by
  rw [contains_iff, intervals_fromRange, exists_mem_piece, intervalContains, Bool.and_eq_true]

theorem contains_singleton : (singleton w).contains v = true ↔ v = w := by
  rw [singleton, contains_single, intervalContains_iff, ← Int64.toInt_inj]
  simp only [Bound.first, Bound.last]
  omega

theorem contains_complement_singleton : (singleton w).complement.contains v = true ↔ v ≠ w := by
  have heq : (singleton w).complement =
      ⟨[⟨.unbounded, .exclusive w⟩, ⟨.exclusive w, .unbounded⟩]⟩ := rfl
  have hmin := v.le_toInt
  have hmax := v.toInt_lt
  rw [heq, contains_iff]
  simp only [List.exists_mem_cons_iff, List.not_mem_nil, false_and, exists_false, or_false,
    intervalContains_iff, Bound.first, Bound.last, ne_eq, ← Int64.toInt_inj]
  omega

def gapsAfter (upper : Bound) : List Interval → List Interval
  | [] => if upper = .unbounded then [] else piece (flipUpperToLower upper) .unbounded
  | next :: rest =>
    (if upper = .unbounded ∨ next.lower = .unbounded then []
      else piece (flipUpperToLower upper) (flipLowerToUpper next.lower)) ++ gapsAfter next.upper rest

theorem intervals_complement {first : Interval} {rest : List Interval} :
    (complement ⟨first :: rest⟩).intervals =
      (if first.lower = .unbounded then [] else piece .unbounded (flipLowerToUpper first.lower)) ++
        gapsAfter first.upper rest := by
  unfold complement
  simp only [List.append_assoc]
  refine congrArg _ ?_
  induction rest generalizing first with
  | nil => rfl
  | cons next rest ih =>
    rw [gapsAfter, ← ih, List.getLast_cons_cons, List.zip_cons_cons, List.flatMap_cons,
      List.append_assoc]

theorem bounded_of_lt_first {b : Bound} (h : v.toInt < b.first) : b ≠ .unbounded := by
  rintro rfl
  exact absurd v.le_toInt (not_le.mpr h)

theorem bounded_of_last_lt {b : Bound} (h : b.last < v.toInt) : b ≠ .unbounded := by
  rintro rfl
  have hmax := v.toInt_lt
  simp only [Bound.last] at h
  omega

theorem exists_mem_gapsAfter {upper : Bound} {rest : List Interval} (hupper : upper.last < v.toInt)
    (hrest : ∀ iv ∈ rest, intervalContains iv v = false) :
    ∃ iv ∈ gapsAfter upper rest, intervalContains iv v = true := by
  have hbounded := bounded_of_last_lt hupper
  have habove := first_flipUpperToLower hbounded
  induction rest generalizing upper with
  | nil =>
    rw [gapsAfter, if_neg hbounded, exists_mem_piece, intervalContains_iff, habove]
    exact ⟨by omega, Int.le_sub_one_of_lt v.toInt_lt⟩
  | cons next rest ih =>
    obtain ⟨hnext, hrest⟩ := List.forall_mem_cons.mp hrest
    rw [gapsAfter]
    simp only [List.mem_append, or_and_right, exists_or]
    -- The value lies below the next interval, or it lies above that one too.
    by_cases hlower : v.toInt < next.lower.first
    · have hbounded' := bounded_of_lt_first hlower
      left
      rw [if_neg (not_or.mpr ⟨hbounded, hbounded'⟩), exists_mem_piece, intervalContains_iff, habove,
        last_flipLowerToUpper hbounded']
      omega
    · right
      have hupper' : next.upper.last < v.toInt := by
        rw [← Bool.not_eq_true, intervalContains_iff] at hnext
        omega
      have hbounded' := bounded_of_last_lt hupper'
      exact ih hupper' hrest hbounded' (first_flipUpperToLower hbounded')

theorem contains_complement (h : s.contains v = false) : s.complement.contains v = true := by
  obtain ⟨intervals⟩ := s
  rw [contains, List.any_eq_false] at h
  cases intervals with
  | nil => exact contains_iff.mpr ⟨_, List.mem_singleton.mpr rfl, rfl⟩
  | cons first rest =>
    simp only [Bool.not_eq_true] at h
    obtain ⟨hfirst, hrest⟩ := List.forall_mem_cons.mp h
    rw [contains_iff, intervals_complement]
    simp only [List.mem_append, or_and_right, exists_or]
    by_cases hlower : v.toInt < first.lower.first
    · have hbounded := bounded_of_lt_first hlower
      left
      rw [if_neg hbounded, exists_mem_piece, intervalContains_iff, last_flipLowerToUpper hbounded]
      exact ⟨v.le_toInt, by omega⟩
    · right
      rw [← Bool.not_eq_true, intervalContains_iff] at hfirst
      exact exists_mem_gapsAfter (by omega) hrest

end IntervalSet

end BpmnLite.Dmn
