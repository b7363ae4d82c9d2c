import BpmnLite.Search
import BpmnLite.Dsl.Plan

/-!
# Validation of the plan's graph

A plan is accepted when it has an end, the breadth-first search comes to every node, and the
depth-first search finds no cycle. The latter passes over the edges back to a loop's head and so
does not see what only such an edge leads to (`validateDag_ok_iff`).
-/

namespace BpmnLite.Dsl

open Relation Search

inductive DagError where
  | cycle (path : List String)
  | unreachable (id : String)
  | noEnd
  deriving DecidableEq

def DagError.message : DagError → String
  | cycle path => "cycle detected: " ++ " → ".intercalate path
  | unreachable id => s!"node '{id}' is unreachable from start"
  | noEnd => "no end-event in workflow"

section
variable (plan : WorkflowExecutionPlan)

def buildAdjacency (id : String) : List String :=
  match plan.nodes[id]? with
  | some node => node.flowSuccessors ++ node.guardEscapeEntries
  | none => []

def bfsReachable : ℕ → List String → Finset String → Option (Finset String) :=
  flood (buildAdjacency plan)

def isExpectedBackEdge (node next : String) : Bool :=
  match plan.nodes[next]? with
  | some (.loop body _) => body.contains node
  | _ => false

/-- What the search returns: whether there is a cycle, then the visited nodes, the stack and the
path. -/
abbrev Found := Bool × Finset String × Finset String × List String

def dfsNexts (dfs : String → Finset String → Finset String → List String → Option Found)
    (node : String) : List String → Finset String → Finset String → List String → Option Found
  | [], visited, stack, path => some (false, visited, stack.erase node, path.dropLast)
  | next :: rest, visited, stack, path =>
    if isExpectedBackEdge plan node next then dfsNexts dfs node rest visited stack path
    else if next ∉ visited then
      match dfs next visited stack path with
      | some (false, visited, stack, path) => dfsNexts dfs node rest visited stack path
      | found => found
    else if next ∈ stack then some (true, visited, stack, path ++ [next])
    else dfsNexts dfs node rest visited stack path

def dfsCycle : ℕ → String → Finset String → Finset String → List String → Option Found
  | 0, _, _, _, _ => none
  | fuel + 1, node, visited, stack, path =>
    dfsNexts plan (dfsCycle fuel) node (buildAdjacency plan node) (insert node visited)
      (insert node stack) (path ++ [node])

def findCycle (fuel : ℕ) : Option (Option (List String)) :=
  (dfsCycle plan fuel plan.startNode ∅ ∅ []).map fun r => if r.1 then some r.2.2.2 else none

def hasEnd : Bool := plan.nodes.toList.any (·.2 = ExecutionNode.end)

def validateDag (fuel : ℕ) : Option (Except (List DagError) Unit) := do
  let cycle ← findCycle plan fuel
  let reachable ← bfsReachable plan fuel [plan.startNode] ∅
  let errors := cycle.toList.map .cycle ++
    (plan.nodes.keys.filter (· ∉ reachable)).map .unreachable ++
    if hasEnd plan then [] else [.noEnd]
  return if errors = [] then .ok () else .error errors

def Flows (a b : String) : Prop := b ∈ buildAdjacency plan a

/-- The successors of a node that do not lead it back to the head of its loop. -/
def keptNexts (a : String) : List String :=
  (buildAdjacency plan a).filter (¬ isExpectedBackEdge plan a ·)

def Kept (a b : String) : Prop := b ∈ keptNexts plan a

/-- The nodes that the start leads to, all edges taken. -/
def Reached (id : String) : Prop := ReflTransGen (Flows plan) plan.startNode id

structure Valid : Prop where
  ending : ∃ id : String, plan.nodes[id]? = some .end
  reachable : ∀ id, id ∈ plan.nodes → Reached plan id
  acyclic : ∀ id, Reached plan id → ¬ TransGen (Kept plan) id id

/-- If a cycle can be reached at all, one can be reached without an edge back to a loop's head. -/
def Entered : Prop :=
  (∃ id, Reached plan id ∧ TransGen (Kept plan) id id) →
    ∃ id, ReflTransGen (Kept plan) plan.startNode id ∧ TransGen (Kept plan) id id

end

variable {plan : WorkflowExecutionPlan} {node x : String} {V : Finset String} {q nexts : List String}
  {U : Finset String} {fuel : ℕ}

theorem dfsNexts_spec {dfs : String → Finset String → Finset String → List String → Option Found}
    (hdfs : ∀ V₁, V ⊆ V₁ → ∀ y ∈ nexts.filter (¬ isExpectedBackEdge plan node ·), y ∉ q → y ∉ V₁ →
      Outcome (keptNexts plan) V₁ q [y]
        (fun V' => dfs y V₁ q.toFinset q = some (false, V', q.toFinset, q))
        (∃ V' stack path, dfs y V₁ q.toFinset q = some (true, V', stack, path)))
    (hq : ∀ y ∈ q, y ∈ V) :
    Outcome (keptNexts plan) V q (nexts.filter (¬ isExpectedBackEdge plan node ·))
      (fun V' => dfsNexts plan dfs node nexts V q.toFinset q =
        some (false, V', q.toFinset.erase node, q.dropLast))
      (∃ V' stack path, dfsNexts plan dfs node nexts V q.toFinset q =
        some (true, V', stack, path)) := by
  induction nexts generalizing V with
  | nil => exact .nil rfl
  | cons y rest ih =>
    by_cases hback : isExpectedBackEdge plan node y = true
    · rw [List.filter_cons_of_neg (by simpa using hback)] at hdfs ⊢
      simpa only [dfsNexts, if_pos hback] using ih hdfs hq
    rw [List.filter_cons_of_pos (by simpa using hback)] at hdfs ⊢
    have hrest : ∀ V₁, V ⊆ V₁ → _ := fun V₁ hV₁ => ih (V := V₁)
      (fun V₂ hV₂ z hz => hdfs V₂ (hV₁.trans hV₂) z (List.mem_cons_of_mem _ hz))
      fun z hz => hV₁ (hq z hz)
    refine .cons ?_
    by_cases hyq : y ∈ q
    · exact .onPath hyq ⟨_, _, _, by simp [dfsNexts, hback, hq y hyq, hyq]; exact ⟨rfl, rfl, rfl⟩⟩
    by_cases hyV : y ∈ V
    · refine .visited hyq hyV ?_
      simpa [dfsNexts, hback, hyV, hyq] using hrest V subset_rfl
    · refine (hdfs V subset_rfl y (by simp) hyq hyV).mono (fun V₁ hV₁ heq => ?_) ?_
      · simpa [dfsNexts, hback, hyV, heq] using hrest V₁ hV₁
      · rintro ⟨V', stack, path, heq⟩
        exact ⟨V', stack, path, by simp [dfsNexts, hback, hyV, heq]⟩

theorem dfsCycle_spec (hU : ∀ x ∈ U, ∀ y ∈ keptNexts plan x, y ∈ U) (hx : x ∈ U)
    (hxq : x ∉ q) (hxV : x ∉ V) (hq : ∀ y ∈ q, y ∈ V) (hfuel : (U \ V).card ≤ fuel) :
    Outcome (keptNexts plan) V q [x]
      (fun V' => dfsCycle plan fuel x V q.toFinset q = some (false, V', q.toFinset, q))
      (∃ V' stack path, dfsCycle plan fuel x V q.toFinset q = some (true, V', stack, path)) := by
  induction fuel generalizing x V q with
  | zero =>
    have hpos : 0 < (U \ V).card := Finset.card_pos.mpr ⟨x, by simp [hx, hxV]⟩
    omega
  | succ fuel ih =>
    have hstack : insert x q.toFinset = (q ++ [x]).toFinset := by
      rw [List.toFinset_append, Finset.union_comm]
      rfl
    have herase : (q ++ [x]).toFinset.erase x = q.toFinset := by
      rw [← hstack, Finset.erase_insert (by simpa using hxq)]
    have hpath : ∀ z ∈ q ++ [x], z ∈ insert x V := by
      intro z hz
      rcases List.mem_append.mp hz with hz | hz
      · exact Finset.mem_insert_of_mem (hq z hz)
      · simp [List.mem_singleton.mp hz]
    refine .parent hxq hxV ?_
    simp only [dfsCycle, hstack]
    refine (dfsNexts_spec (fun V₁ hV₁ y hy hyq hyV₁ => ?_) hpath).mono (fun V' _ heq => ?_) id
    · have hcard := card_sdiff_lt hx hxV hV₁
      exact ih (hU x hx y hy) hyq hyV₁ (fun z hz => hV₁ (hpath z hz)) (by omega)
    · rw [heq, herase, List.dropLast_concat]

theorem findCycle_eq (hU : ∀ x ∈ U, ∀ y ∈ keptNexts plan x, y ∈ U) (hstart : plan.startNode ∈ U)
    (hfuel : U.card ≤ fuel) : ∃ cycle, findCycle plan fuel = some cycle ∧
      (cycle = none ↔ ¬ Cyclic (keptNexts plan) ∅ plan.startNode) := by
  have hspec := dfsCycle_spec (q := []) (V := ∅) hU hstart (by simp) (by simp) (by simp)
    (Finset.sdiff_empty (s := U) ▸ hfuel)
  rw [List.toFinset_nil] at hspec
  rcases hspec.root with ⟨V', heq, hx⟩ | ⟨⟨V', stack, path, heq⟩, hx⟩
  · exact ⟨none, by simp [findCycle, heq], by simpa using hx⟩
  · exact ⟨some path, by simp [findCycle, heq], by simpa using hx⟩

theorem hasEnd_eq_true : hasEnd plan = true ↔ ∃ id : String, plan.nodes[id]? = some .end := by
  simp only [hasEnd, List.any_eq_true, decide_eq_true_eq, Prod.exists,
    Std.ExtTreeMap.mem_toList_iff_getElem?_eq_some]
  exact ⟨fun ⟨id, _, h, heq⟩ => ⟨id, heq ▸ h⟩, fun ⟨id, h⟩ => ⟨id, _, h, rfl⟩⟩

theorem validateDag_eq {cycle : Option (List String)} {reachable : Finset String}
    (hcycle : findCycle plan fuel = some cycle)
    (hreachable : bfsReachable plan fuel [plan.startNode] ∅ = some reachable) :
    ∃ result, validateDag plan fuel = some result ∧ (result = .ok () ↔ hasEnd plan = true ∧
      (∀ id, id ∈ plan.nodes → id ∈ reachable) ∧ cycle = none) := by
  refine ⟨_, by simp only [validateDag, hcycle, hreachable]; rfl, ?_⟩
  have hiff : ∀ errors : List DagError,
      ((if errors = [] then .ok () else .error errors : Except (List DagError) Unit) = .ok ()) ↔
        errors = [] := by
    intro errors
    split_ifs with h <;> simp [h]
  rw [hiff]
  cases cycle <;> cases hasEnd plan <;> simp [List.filter_eq_nil_iff]

theorem edge_keptNexts : Edge (keptNexts plan) ∅ = Kept plan := by
  ext x y
  simp [Edge, Kept]

theorem validateDag_ok_iff (plan : WorkflowExecutionPlan) : ∃ enough, ∀ fuel, enough ≤ fuel →
    ∃ result, validateDag plan fuel = some result ∧ ((result = .ok () ↔ Valid plan) ↔
      ((∃ id : String, plan.nodes[id]? = some .end) →
        (∀ id, id ∈ plan.nodes → Reached plan id) → Entered plan)) := by
  have hkeys : ∀ x, buildAdjacency plan x ≠ [] → x ∈ plan.nodes.keys.toFinset := by
    intro x hx
    rw [List.mem_toFinset, Std.ExtTreeMap.mem_keys]
    by_contra hnot
    exact hx (by simp [buildAdjacency, Std.ExtTreeMap.getElem?_eq_none hnot])
  obtain ⟨U, hroots, hU⟩ := exists_closed hkeys {plan.startNode}
  have hstart := hroots (Finset.mem_singleton_self _)
  refine ⟨U.card + ∑ x ∈ U, (buildAdjacency plan x).length + 1, fun fuel hfuel => ?_⟩
  have hdepth : U.card ≤ fuel := by omega
  have hcost : ∑ x ∈ U, (buildAdjacency plan x).length < fuel := by omega
  obtain ⟨cycle, hcycle, hnone⟩ := findCycle_eq
    (fun x hx y hy => hU x hx y (List.mem_of_mem_filter hy)) hstart hdepth
  obtain ⟨reachable, hreachable, hmem⟩ := mem_flood_iff hU hstart hcost
  obtain ⟨result, hresult, hok⟩ := validateDag_eq hcycle hreachable
  refine ⟨result, hresult, ?_⟩
  rw [hok, hasEnd_eq_true, hnone, Cyclic, edge_keptNexts]
  -- Every kept edge is an edge of the plan.
  have hkept : ∀ id, ReflTransGen (Kept plan) plan.startNode id → Reached plan id :=
    fun id => ReflTransGen.mono (fun _ _ h => List.mem_of_mem_filter h) _ _
  have hvalid : Valid plan ↔ (∃ id : String, plan.nodes[id]? = some .end) ∧
      (∀ id, id ∈ plan.nodes → Reached plan id) ∧
        ¬ ∃ id, Reached plan id ∧ TransGen (Kept plan) id id := by
    simp only [not_exists, not_and]
    exact ⟨fun ⟨h, h', h''⟩ => ⟨h, h', h''⟩, fun ⟨h, h', h''⟩ => ⟨h, h', h''⟩⟩
  have hreached : (∀ id, id ∈ plan.nodes → id ∈ reachable) ↔
      ∀ id, id ∈ plan.nodes → Reached plan id := by simp only [hmem]; rfl
  rw [hvalid, hreached, Entered]
  have hmono : (∃ id, ReflTransGen (Kept plan) plan.startNode id ∧ TransGen (Kept plan) id id) →
      ∃ id, Reached plan id ∧ TransGen (Kept plan) id id :=
    fun ⟨id, h, hid⟩ => ⟨id, hkept id h, hid⟩
  simp only [Finset.notMem_empty, not_false_eq_true, true_and]
  constructor
  · intro hiff hend hall hcyclic
    by_contra hnot
    exact (hiff.mp ⟨hend, hall, hnot⟩).2.2 hcyclic
  · intro hentered
    constructor
    · exact fun ⟨hend, hall, hnot⟩ => ⟨hend, hall, fun h => hnot (hentered hend hall h)⟩
    · exact fun ⟨hend, hall, hnot⟩ => ⟨hend, hall, fun h => hnot (hmono h)⟩

namespace Sample

/-- A loop entered through its body; behind its head two nodes follow each other in a circle. -/
def behindHead : WorkflowExecutionPlan where
  nodes := Std.ExtTreeMap.ofList (β := ExecutionNode) [("start", .start "n"),
    ("n", .join "head"), ("head", .loop ["n"] "a"), ("a", .split [⟨"b"⟩, ⟨"e"⟩]), ("b", .join "a"),
    ("e", .end)]
  startNode := "start"

theorem cycle_behind_head : validateDag behindHead 20 = some (.ok ()) ∧ ¬ Valid behindHead := by
  refine ⟨by decide +kernel, fun h => ?_⟩
  have hstep : ∀ a b, b ∈ buildAdjacency behindHead a → Flows behindHead a b := fun _ _ => id
  have hreached : Reached behindHead "a" :=
    (((ReflTransGen.refl.tail (hstep _ "n" (by decide +kernel))).tail
      (hstep _ "head" (by decide +kernel))).tail (hstep _ "a" (by decide +kernel)))
  have hkept : ∀ a b, b ∈ keptNexts behindHead a → Kept behindHead a b := fun _ _ => id
  exact h.acyclic "a" hreached
    (.tail (.single (hkept _ "b" (by decide +kernel))) (hkept _ "a" (by decide +kernel)))

end Sample

end BpmnLite.Dsl
