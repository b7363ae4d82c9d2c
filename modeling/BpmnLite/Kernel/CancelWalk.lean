import BpmnLite.Kernel.Table
import BpmnLite.Machine
import BpmnLite.Forest

/-!
# The walk that cancels a scope

When the control stacks of a snapshot form a tree, `v2CancelGuardScope` retires the scope and
everything above it, and finds exactly the fibres that hold it. The nesting is bounded by the
longest control stack, so the walk never runs out.
-/

namespace BpmnLite

open Maps Forest

variable {parent child : RecordId} {m : Uuid}

section
variable {snapshot : Snapshot}

theorem scopeAbove_eq_some {chain : List RecordId} {above : Option RecordId} (hnodup : chain.Nodup) :
    scopeAbove parent chain = some above ↔
      ∃ p q, chain = p ++ parent :: q ∧ q.head? = above := by
  induction chain with
  | nil => simp [scopeAbove]
  | cons handle rest ih =>
    obtain ⟨hnot, hrest⟩ := List.nodup_cons.mp hnodup
    by_cases h : handle = parent
    · subst h
      simp only [scopeAbove, if_true, Option.some.injEq]
      constructor
      · intro he
        exact ⟨[], rest, rfl, he⟩
      · rintro ⟨p, q, hp, he⟩
        cases p with
        | nil => exact (List.cons.inj hp).2 ▸ he
        | cons a p => exact absurd (by simp [(List.cons.inj hp).2]) hnot
    · simp only [scopeAbove, h, if_false, ih hrest]
      constructor
      · rintro ⟨p, q, rfl, he⟩
        exact ⟨handle :: p, q, rfl, he⟩
      · rintro ⟨p, q, hp, he⟩
        cases p with
        | nil => exact absurd (List.cons.inj hp).1 h
        | cons a p => exact ⟨p, q, (List.cons.inj hp).2, he⟩

variable (htree : IsTree (chains (fun m => snapshot.fibers[m]?)))
include htree

theorem chain_nodup {f : Fiber} (h : snapshot.fibers[m]? = some f) :
    (effectiveControlStack f).Nodup :=
  htree.nodup ⟨m, f, h, rfl⟩

omit htree in
theorem mem_foldl_childScopes (fibers : List Fiber) (acc : BTreeSet RecordId) :
    child ∈ fibers.foldl (fun (children : BTreeSet RecordId) fiber =>
        match scopeAbove parent (effectiveControlStack fiber) with
        | some (some child) => children.insert child
        | _ => children) acc ↔
      child ∈ acc ∨ ∃ f ∈ fibers, scopeAbove parent (effectiveControlStack f) = some (some child) := by
  induction fibers generalizing acc with
  | nil => simp
  | cons f fibers ih =>
    rw [List.foldl_cons, ih]
    rcases h : scopeAbove parent (effectiveControlStack f) with _ | _ | x
    · simp [h]
    · simp [h]
    · simp only [Std.ExtTreeSet.mem_insert, Nat.compare_eq_eq, List.mem_cons,
        exists_eq_or_imp, h, Option.some.injEq]
      tauto

theorem mem_childScopes :
    child ∈ childScopes snapshot parent ↔ ∃ (m : Uuid) (f : Fiber) (p q : List RecordId),
      snapshot.fibers[m]? = some f ∧ effectiveControlStack f = p ++ parent :: child :: q := by
  unfold childScopes
  rw [Std.ExtTreeSet.mem_toList]
  refine (mem_foldl_childScopes _ _).trans ?_
  simp only [Std.ExtTreeSet.not_mem_empty, false_or]
  constructor
  · rintro ⟨f, hf, habove⟩
    obtain ⟨m, hm⟩ := mem_values.mp hf
    obtain ⟨p, q, hpq, hq⟩ := (scopeAbove_eq_some (chain_nodup htree hm)).mp habove
    cases q with
    | nil => simp at hq
    | cons x q =>
      obtain rfl : x = child := by simpa using hq
      exact ⟨m, f, p, q, hm, hpq⟩
  · rintro ⟨m, f, p, q, hm, hpq⟩
    exact ⟨f, mem_values.mpr ⟨m, hm⟩,
      (scopeAbove_eq_some (chain_nodup htree hm)).mpr ⟨p, child :: q, hpq, rfl⟩⟩

theorem mem_directLeaves (hkeyed : Keyed Fiber.fiberId snapshot.fibers) :
    m ∈ directLeaves snapshot parent ↔ ∃ (f : Fiber) (p : List RecordId),
      snapshot.fibers[m]? = some f ∧ effectiveControlStack f = p ++ [parent] := by
  unfold directLeaves
  simp only [List.mem_map, List.mem_filter, decide_eq_true_eq]
  constructor
  · rintro ⟨f, ⟨hf, habove⟩, rfl⟩
    obtain ⟨k, hk⟩ := mem_values.mp hf
    obtain ⟨p, q, hpq, hq⟩ := (scopeAbove_eq_some (chain_nodup htree hk)).mp habove
    rw [List.head?_eq_none_iff.mp hq] at hpq
    exact ⟨f, p, (hkeyed k f hk) ▸ hk, hpq⟩
  · rintro ⟨f, p, hm, hpq⟩
    refine ⟨f, ⟨mem_values.mpr ⟨m, hm⟩, ?_⟩, hkeyed m f hm⟩
    exact (scopeAbove_eq_some (chain_nodup htree hm)).mpr ⟨p, [], hpq, rfl⟩

variable (snapshot) in
/-- The walk retires the scope and all above it, and finds its holders. -/
def Walks (fuel : ℕ) (parent : RecordId) : Prop :=
  (∀ y, y ∈ (v2CancelGuardScopeFuel snapshot fuel parent).1 ↔
    y = parent ∨ ∃ (m : Uuid) (f : Fiber), snapshot.fibers[m]? = some f ∧ Above f parent y) ∧
  ∀ m, m ∈ (v2CancelGuardScopeFuel snapshot fuel parent).2 ↔
    ∃ f, snapshot.fibers[m]? = some f ∧ parent ∈ effectiveControlStack f

theorem below_child (hchild : child ∈ childScopes snapshot parent) {f : Fiber} {p q : List RecordId}
    (hm : snapshot.fibers[m]? = some f) (hpq : effectiveControlStack f = p ++ child :: q) :
    ∃ p', p = p' ++ [parent] := by
  obtain ⟨m₀, f₀, p₀, q₀, hm₀, hpq₀⟩ := (mem_childScopes htree).mp hchild
  exact ⟨p₀, htree.below_eq ⟨m, f, hm, rfl⟩ ⟨m₀, f₀, hm₀, rfl⟩ hpq
    (by simp [hpq₀] : effectiveControlStack f₀ = (p₀ ++ [parent]) ++ child :: q₀)⟩

theorem walks_succ (hkeyed : Keyed Fiber.fiberId snapshot.fibers) {fuel : ℕ}
    (hnested : ∀ x ∈ childScopes snapshot parent, Walks snapshot fuel x) :
    Walks snapshot (fuel + 1) parent := by
  refine ⟨fun y => ?_, fun m => ?_⟩
  · simp only [v2CancelGuardScopeFuel, List.mem_append, List.mem_flatMap, List.mem_map,
      exists_exists_and_eq_and, List.mem_singleton]
    constructor
    · rintro (⟨x, hx, hy⟩ | rfl)
      · right
        rcases ((hnested x hx).1 y).mp hy with rfl | ⟨m, f, hm, p, q, hpq, hyq⟩
        · obtain ⟨m, f, p, q, hm, hpq⟩ := (mem_childScopes htree).mp hx
          exact ⟨m, f, hm, p, y :: q, hpq, by simp⟩
        · obtain ⟨p', rfl⟩ := below_child htree hx hm hpq
          exact ⟨m, f, hm, p', x :: q, by simpa using hpq, by simp [hyq]⟩
      · exact Or.inl rfl
    · rintro (rfl | ⟨m, f, hm, p, q, hpq, hyq⟩)
      · exact Or.inr rfl
      · left
        cases q with
        | nil => simp at hyq
        | cons x q =>
          have hx : x ∈ childScopes snapshot parent :=
            (mem_childScopes htree).mpr ⟨m, f, p, q, hm, hpq⟩
          refine ⟨x, hx, ((hnested x hx).1 y).mpr ?_⟩
          rcases List.mem_cons.mp hyq with rfl | hyq
          · exact Or.inl rfl
          · exact Or.inr ⟨m, f, hm, p ++ [parent], q, by simpa using hpq, hyq⟩
  · simp only [v2CancelGuardScopeFuel, List.mem_append, List.mem_flatMap, List.mem_map,
      exists_exists_and_eq_and, mem_directLeaves htree hkeyed]
    constructor
    · rintro (⟨x, hx, hm⟩ | ⟨f, p, hm, hpq⟩)
      · obtain ⟨f, hm, hmem⟩ := ((hnested x hx).2 m).mp hm
        obtain ⟨p, q, hpq⟩ := List.append_of_mem hmem
        obtain ⟨p', rfl⟩ := below_child htree hx hm hpq
        exact ⟨f, hm, by simp [hpq]⟩
      · exact ⟨f, hm, by simp [hpq]⟩
    · rintro ⟨f, hm, hmem⟩
      obtain ⟨p, q, hpq⟩ := List.append_of_mem hmem
      cases q with
      | nil => exact Or.inr ⟨f, p, hm, hpq⟩
      | cons x q =>
        have hx : x ∈ childScopes snapshot parent :=
          (mem_childScopes htree).mpr ⟨m, f, p, q, hm, hpq⟩
        exact Or.inl ⟨x, hx, ((hnested x hx).2 m).mpr ⟨f, hm, by simp [hpq]⟩⟩

theorem walks_of_fuel (hkeyed : Keyed Fiber.fiberId snapshot.fibers) (fuel : ℕ) (parent : RecordId)
    (hfuel : ∀ (m : Uuid) (f : Fiber) (p q : List RecordId), snapshot.fibers[m]? = some f →
      effectiveControlStack f = p ++ parent :: q → q.length < fuel + 1) :
    Walks snapshot (fuel + 1) parent := by
  -- The fuel follows the nesting: what stands above a child is shorter by one.
  induction fuel generalizing parent with
  | zero =>
    refine walks_succ htree hkeyed fun x hx => ?_
    obtain ⟨m, f, p, q, hm, hpq⟩ := (mem_childScopes htree).mp hx
    simpa using hfuel m f p (x :: q) hm hpq
  | succ fuel ih =>
    refine walks_succ htree hkeyed fun x hx => ih x fun m f p q hm hpq => ?_
    obtain ⟨p', rfl⟩ := below_child htree hx hm hpq
    simpa using hfuel m f p' (x :: q) hm (by simp [hpq])

omit htree in
theorem length_lt_scopeFuel {f : Fiber} (h : snapshot.fibers[m]? = some f) :
    (effectiveControlStack f).length < scopeFuel snapshot := by
  have hmax : ∀ (lengths : List ℕ) (init : ℕ), init ≤ lengths.foldl max init ∧
      ∀ n ∈ lengths, n ≤ lengths.foldl max init := by
    intro lengths
    induction lengths with
    | nil => simp
    | cons a lengths ih =>
      intro init
      obtain ⟨hinit, hmem⟩ := ih (max init a)
      refine ⟨(le_max_left _ _).trans hinit, fun n hn => ?_⟩
      rcases List.mem_cons.mp hn with rfl | hn
      · exact (le_max_right _ _).trans hinit
      · exact hmem n hn
  unfold scopeFuel
  exact Nat.lt_succ_of_le ((hmax _ 0).2 _ (List.mem_map.mpr ⟨f, mem_values.mpr ⟨m, h⟩, rfl⟩))

theorem walks_scopeFuel (hkeyed : Keyed Fiber.fiberId snapshot.fibers) :
    Walks snapshot (scopeFuel snapshot) parent := by
  obtain ⟨fuel, hfuel⟩ : ∃ fuel, scopeFuel snapshot = fuel + 1 := ⟨_, rfl⟩
  rw [hfuel]
  refine walks_of_fuel htree hkeyed fuel parent fun m f p q hm hpq => ?_
  have hlength := length_lt_scopeFuel hm
  rw [hfuel, hpq, List.length_append, List.length_cons] at hlength
  omega

theorem mem_v2CancelGuardScope_records (hkeyed : Keyed Fiber.fiberId snapshot.fibers) {y : RecordId} :
    y ∈ (v2CancelGuardScope snapshot parent).1 ↔
      y = parent ∨ ∃ (m : Uuid) (f : Fiber), snapshot.fibers[m]? = some f ∧ Above f parent y :=
  (walks_scopeFuel htree hkeyed).1 y

theorem mem_v2CancelGuardScope_fibers (hkeyed : Keyed Fiber.fiberId snapshot.fibers) :
    m ∈ (v2CancelGuardScope snapshot parent).2 ↔
      ∃ f, snapshot.fibers[m]? = some f ∧ parent ∈ effectiveControlStack f :=
  (walks_scopeFuel htree hkeyed).2 m

end

end BpmnLite
