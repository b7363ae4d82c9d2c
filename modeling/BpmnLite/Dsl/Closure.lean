import BpmnLite.Search
import BpmnLite.Dsl.Plan

/-!
# Recursive child workflows

The check of a plan's call activities. Each task whose plug is a workflow's hash must name a
workflow of the registry, and none that can call itself. One set of visited workflows serves the
searches of all tasks, and a search that finds a cycle leaves it half filled. A later task's
recursion is reported where it reaches a cycle that no earlier task's workflow leads to, and only
where it reaches one past the workflows the earlier tasks invoke.
-/

namespace BpmnLite.Dsl

/-- The registry of compiled workflows, as far as the check asks it. -/
structure PlaceholderRegistry where
  workflowExists : String → Bool
  workflowSatisfiesL2 : String → Bool
  getWorkflowChildCalls : String → List String

inductive CallProblem where
  | missing (plug : String)
  | blocking (plug : String)
  | recursion (path : List String)
  deriving DecidableEq

def CallProblem.message (id : String) : CallProblem → String
  | missing plug =>
    s!"Task '{id}' invokes child workflow '{plug}' which does not exist in registry"
  | blocking plug =>
    s!"Task '{id}' invokes blocking child workflow '{plug}' which fails co-reachability " ++
      "(potential deadlock)"
  | recursion path =>
    s!"Task '{id}' detects cyclic child workflow recursion: " ++ " -> ".intercalate path

structure Diagnostic where
  nodeId : String
  problem : CallProblem
  deriving DecidableEq

def isAsciiHexdigit (c : Char) : Bool :=
  ('0' ≤ c && c ≤ '9') || ('a' ≤ c && c ≤ 'f') || ('A' ≤ c && c ≤ 'F')

def isWorkflowHash (plug : String) : Bool :=
  plug.utf8ByteSize = 64 && plug.toList.all isAsciiHexdigit

section
variable (registry : PlaceholderRegistry)

def hasWorkflowCycle :
    ℕ → String → Finset String → List String → Option (Bool × Finset String × List String) :=
  Search.seek registry.getWorkflowChildCalls

variable (fuel : ℕ)

/-- The problems of one task, with the workflows visited after its search. -/
def checkCall (id : String) (t : TaskExecNode) (visited : Finset String) :
    Option (List Diagnostic × Finset String) :=
  if isWorkflowHash t.plug then
    if registry.workflowExists t.plug then
      let blocked := t.deliveryMode = .blocking ∧ ¬ registry.workflowSatisfiesL2 t.plug
      let deadlock := if blocked then [⟨id, .blocking t.plug⟩] else []
      match hasWorkflowCycle registry fuel t.plug visited [t.plug] with
      | none => none
      | some (true, visited, path) => some (deadlock ++ [⟨id, .recursion path⟩], visited)
      | some (false, visited, _) => some (deadlock, visited)
    else some ([⟨id, .missing t.plug⟩], visited)
  else some ([], visited)

def checkCalls :
    List (String × ExecutionNode) → Finset String → Option (List Diagnostic × Finset String)
  | [], visited => some ([], visited)
  | (id, .task t) :: rest, visited =>
    match checkCall registry fuel id t visited with
    | none => none
    | some (problems, visited) =>
      (checkCalls rest visited).map fun more => (problems ++ more.1, more.2)
  | _ :: rest, visited => checkCalls rest visited

/-- The call-activity part of `validate_path_family`. -/
def validatePathFamily (plan : WorkflowExecutionPlan) : Option (List Diagnostic) :=
  (checkCalls registry fuel plan.nodes.toList ∅).map Prod.fst

def Reported (diagnostics : List Diagnostic) (id : String) : Prop :=
  ∃ path, ⟨id, .recursion path⟩ ∈ diagnostics

def Invokes (t : TaskExecNode) : Prop :=
  isWorkflowHash t.plug = true ∧ registry.workflowExists t.plug = true

/-- A cycle of the child-call graph can be reached from the workflow. -/
def Recursive (hash : String) : Prop := Search.Cyclic registry.getWorkflowChildCalls ∅ hash

/-- The child-call graph leads from one workflow to the other. -/
abbrev LeadsTo : String → String → Prop :=
  Relation.ReflTransGen (Search.Edge registry.getWorkflowChildCalls ∅)

def plug? : ExecutionNode → Option String
  | .task t => some t.plug
  | _ => none

/-- The workflows of the registry that the tasks among the nodes invoke. -/
def invoked (nodes : List (String × ExecutionNode)) : Finset String :=
  ((nodes.filterMap (plug? ·.2)).filter fun plug =>
    isWorkflowHash plug && registry.workflowExists plug).toFinset

/-- The workflows invoked by the tasks that the loop comes to before a node. -/
def invokedBefore (plan : WorkflowExecutionPlan) (id : String) : Finset String :=
  invoked registry (plan.nodes.toList.takeWhile (·.1 ≠ id))

/-- What the loop over the nodes visits: the workflows they invoke, and only what these lead to. -/
structure Walks (nodes : List (String × ExecutionNode)) (V V' : Finset String) : Prop where
  subset : V ⊆ V'
  invokes : invoked registry nodes ⊆ V'
  reached : ∀ v ∈ V', v ∈ V ∨ ∃ plug ∈ invoked registry nodes, LeadsTo registry plug v

/-- The workflow leads to a cycle that none of the others leads to. -/
def OwnCycle (others : Finset String) (hash : String) : Prop :=
  ∃ y, LeadsTo registry hash y ∧
    Relation.TransGen (Search.Edge registry.getWorkflowChildCalls ∅) y y ∧
    ∀ other ∈ others, ¬ LeadsTo registry other y

/-- The workflows a plan can come to call, when only finitely many call others. -/
structure Bounds (U : Finset String) (nodes : List (String × ExecutionNode)) : Prop where
  closed : ∀ h ∈ U, ∀ child ∈ registry.getWorkflowChildCalls h, child ∈ U
  plugs : ∀ id t, (id, .task t) ∈ nodes → t.plug ∈ U

end

variable {registry : PlaceholderRegistry} {fuel : ℕ} {plan : WorkflowExecutionPlan} {id : String}
  {t : TaskExecNode} {U V visited : Finset String} {nodes nodes' : List (String × ExecutionNode)}

theorem Bounds.of_subset (h : Bounds registry U nodes) (hsub : ∀ e ∈ nodes', e ∈ nodes) :
    Bounds registry U nodes' := ⟨h.closed, fun id t ht => h.plugs id t (hsub _ ht)⟩

theorem exists_bounds (hfinite : {h | registry.getWorkflowChildCalls h ≠ []}.Finite)
    (nodes : List (String × ExecutionNode)) : ∃ U, Bounds registry U nodes := by
  obtain ⟨U, hroots, hclosed⟩ := Search.exists_closed (fun h hh => hfinite.mem_toFinset.mpr hh)
    (nodes.filterMap (plug? ·.2)).toFinset
  refine ⟨U, hclosed, fun id t ht => hroots ?_⟩
  exact List.mem_toFinset.mpr (List.mem_filterMap.mpr ⟨(id, .task t), ht, rfl⟩)

theorem checkCall_spec (hU : ∀ h ∈ U, ∀ child ∈ registry.getWorkflowChildCalls h, child ∈ U)
    (hplug : t.plug ∈ U) (hfuel : U.card < fuel) (id : String) (visited : Finset String) :
    ∃ problems V, checkCall registry fuel id t visited = some (problems, V) ∧
      (∀ d ∈ problems, d.nodeId = id) ∧ (Reported problems id ↔
        Invokes registry t ∧ Search.Cyclic registry.getWorkflowChildCalls visited t.plug) := by
  unfold checkCall Invokes Reported
  by_cases hhash : isWorkflowHash t.plug = true
  case neg => exact ⟨[], visited, by simp [hhash], by simp, by simp [hhash]⟩
  by_cases hexists : registry.workflowExists t.plug = true
  case neg => exact ⟨_, visited, by simp [hhash, hexists]; rfl, by simp, by simp [hexists]⟩
  have hcard := Finset.card_le_card (Finset.sdiff_subset (s := U) (t := visited))
  obtain ⟨found, V, path, heq, hfound⟩ := Search.seek_found_iff (V := visited) hU hplug
    (lt_of_le_of_lt hcard hfuel)
  simp only [hhash, hexists, if_true, true_and, hasWorkflowCycle, heq, ← hfound]
  cases found with
  | true =>
    refine ⟨_, V, rfl, fun d hd => ?_, by simp⟩
    split_ifs at hd <;> aesop
  | false =>
    refine ⟨_, V, rfl, fun d hd => ?_, ?_⟩
    · split_ifs at hd <;> aesop
    · split_ifs <;> simp

theorem checkCalls_spec (hU : Bounds registry U nodes) (hfuel : U.card < fuel)
    (visited : Finset String) :
    ∃ diagnostics V, checkCalls registry fuel nodes visited = some (diagnostics, V) ∧
      ∀ d ∈ diagnostics, d.nodeId ∈ nodes.map Prod.fst := by
  induction nodes generalizing visited with
  | nil => exact ⟨[], visited, rfl, by simp⟩
  | cons entry rest ih =>
    have ih := ih (hU.of_subset fun e he => List.mem_cons_of_mem _ he)
    obtain ⟨id, node⟩ := entry
    cases node with
    | task t =>
      obtain ⟨problems, V, heq, hids, -⟩ := checkCall_spec hU.closed (hU.plugs id t (by simp))
        hfuel id visited
      obtain ⟨more, V', heq', hmore⟩ := ih V
      refine ⟨problems ++ more, V', by simp [checkCalls, heq, heq'], fun d hd => ?_⟩
      rcases List.mem_append.mp hd with hd | hd
      · simp [hids d hd]
      · exact List.mem_cons_of_mem _ (hmore d hd)
    | _ =>
      obtain ⟨more, V', heq', hmore⟩ := ih visited
      exact ⟨more, V', heq', fun d hd => List.mem_cons_of_mem _ (hmore d hd)⟩

theorem checkCalls_append (nodes nodes' : List (String × ExecutionNode)) :
    checkCalls registry fuel (nodes ++ nodes') visited =
      (checkCalls registry fuel nodes visited).bind fun first =>
        (checkCalls registry fuel nodes' first.2).map fun more => (first.1 ++ more.1, more.2) := by
  induction nodes generalizing visited with
  | nil => simp [checkCalls]
  | cons entry rest ih =>
    obtain ⟨id, node⟩ := entry
    cases node with
    | task t =>
      simp only [List.cons_append, checkCalls]
      cases checkCall registry fuel id t visited with
      | none => rfl
      | some result => simp [ih, Option.bind_map, Option.map_bind, Function.comp_def]
    | _ => exact ih

theorem invoked_append (nodes nodes' : List (String × ExecutionNode)) :
    invoked registry (nodes ++ nodes') = invoked registry nodes ∪ invoked registry nodes' := by
  simp [invoked]

namespace Walks

theorem refl (h : invoked registry nodes = ∅) : Walks registry nodes V V :=
  ⟨subset_rfl, by simp [h], fun _ hv => .inl hv⟩

theorem append {V' : Finset String} (h : Walks registry nodes visited V)
    (h' : Walks registry nodes' V V') : Walks registry (nodes ++ nodes') visited V' where
  subset := h.subset.trans h'.subset
  invokes := by
    rw [invoked_append]
    exact Finset.union_subset (h.invokes.trans h'.subset) h'.invokes
  reached v hv := by
    simp only [invoked_append, Finset.mem_union]
    rcases h'.reached v hv with hv | ⟨plug, hplug, hleads⟩
    · exact (h.reached v hv).imp_right fun ⟨plug, hplug, hleads⟩ => ⟨plug, .inl hplug, hleads⟩
    · exact .inr ⟨plug, .inr hplug, hleads⟩

theorem of_checkCall {problems : List Diagnostic}
    (h : checkCall registry fuel id t visited = some (problems, V)) :
    Walks registry [(id, .task t)] visited V := by
  unfold checkCall at h
  split_ifs at h with hhash hexists
  · have hinvoked : invoked registry [(id, .task t)] = {t.plug} := by
      simp [invoked, plug?, hhash, hexists]
    obtain ⟨found, path, heq⟩ : ∃ found path,
        hasWorkflowCycle registry fuel t.plug visited [t.plug] = some (found, V, path) := by
      split at h <;> simp_all
    have hvisits := Search.Visits.of_seek heq
    refine ⟨hvisits.subset, ?_, fun v hv => ?_⟩
    · rw [hinvoked, Finset.singleton_subset_iff]
      exact Search.mem_of_seek heq
    · simpa [hinvoked] using hvisits.reached v hv
  · obtain ⟨-, rfl⟩ := by simpa using h
    exact refl (by simp [invoked, plug?, hexists])
  · obtain ⟨-, rfl⟩ := by simpa using h
    exact refl (by simp [invoked, plug?, hhash])

theorem of_checkCalls {diagnostics : List Diagnostic}
    (h : checkCalls registry fuel nodes visited = some (diagnostics, V)) :
    Walks registry nodes visited V := by
  induction nodes generalizing visited diagnostics with
  | nil =>
    obtain ⟨-, rfl⟩ := by simpa [checkCalls] using h
    exact refl rfl
  | cons entry rest ih =>
    obtain ⟨id, node⟩ := entry
    cases node with
    | task t =>
      simp only [checkCalls] at h
      split at h
      · cases h
      · rename_i problems V₁ heq
        obtain ⟨⟨more, V'⟩, hmore, heq'⟩ := Option.map_eq_some_iff.mp h
        obtain ⟨-, rfl⟩ := by simpa using heq'
        exact (of_checkCall heq).append (ih hmore)
    | _ => exact (refl rfl : Walks registry [_] _ _).append (ih h)

end Walks

theorem exists_eq_takeWhile {x : ExecutionNode} (h : (id, x) ∈ nodes)
    (hdistinct : nodes.Pairwise (·.1 ≠ ·.1)) : ∃ after,
      nodes = nodes.takeWhile (·.1 ≠ id) ++ (id, x) :: after ∧
      id ∉ (nodes.takeWhile (·.1 ≠ id)).map Prod.fst ∧ id ∉ after.map Prod.fst := by
  induction nodes with
  | nil => cases h
  | cons entry rest ih =>
    obtain ⟨hfirst, hrest⟩ := List.pairwise_cons.mp hdistinct
    rcases List.mem_cons.mp h with rfl | h
    · refine ⟨rest, by simp, by simp, ?_⟩
      simpa using fun node hnode => hfirst (id, node) hnode rfl
    · have hne := hfirst _ h
      obtain ⟨after, heq, hbefore, hafter⟩ := ih h hrest
      refine ⟨after, ?_, ?_, hafter⟩
      · rw [List.takeWhile_cons_of_pos (by simpa using hne), List.cons_append, ← heq]
      · rw [List.takeWhile_cons_of_pos (by simpa using hne)]
        simpa using ⟨Ne.symm hne, by simpa using hbefore⟩

namespace Sample

def selfCalling (digit : Char) : String := String.ofList (List.replicate 64 digit)

/-- Two workflows, each of which calls itself. -/
def calls : PlaceholderRegistry where
  workflowExists hash := hash ∈ [selfCalling 'a', selfCalling 'b']
  workflowSatisfiesL2 _ := true
  getWorkflowChildCalls hash := if hash ∈ [selfCalling 'a', selfCalling 'b'] then [hash] else []

/-- A first task that invokes `aa…`, and a second one. -/
def twoTasks (second : String) : WorkflowExecutionPlan where
  nodes := Std.ExtTreeMap.ofList (β := ExecutionNode) [("done", .end), ("start", .start "first"),
    ("first", .task ⟨selfCalling 'a', .blocking, "second", []⟩),
    ("second", .task ⟨second, .blocking, "done", []⟩)]
  startNode := "start"

theorem calls_finite : {h | calls.getWorkflowChildCalls h ≠ []}.Finite := by
  refine [selfCalling 'a', selfCalling 'b'].toFinset.finite_toSet.subset fun h hh => ?_
  rw [Finset.mem_coe, List.mem_toFinset]
  by_contra hne
  exact hh (if_neg hne)

theorem calls_edge {hash child : String} : Search.Edge calls.getWorkflowChildCalls ∅ hash child ↔
    child = hash ∧ hash ∈ [selfCalling 'a', selfCalling 'b'] := by
  simp only [Search.Edge, calls]
  split_ifs with h <;> simp [h]

theorem calls_leadsTo {hash y : String} (h : LeadsTo calls hash y) : y = hash := by
  induction h with
  | refl => rfl
  | tail _ hedge ih => exact (calls_edge.mp hedge).1.trans ih

end Sample

end BpmnLite.Dsl
