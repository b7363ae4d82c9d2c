import BpmnLite.Maps
import BpmnLite.Dmn.Verify

/-!
# What the decision verifier establishes

The checks of `verify` as facts about the code. The reachable set is closed under `successors`, and
the pass over ascending addresses gives every address that a chain of forward edges leads to a stack
height of its own (`Settled`), which each forward edge carries on.
-/

namespace BpmnLite.Dmn

open Maps
open Std (ExtTreeSet)

variable {instrs : List Instr} {decision : CompiledDecision} {pos pc h : ℕ} {instr : Instr}
  {heights heights' : List (Option ℕ)} {reachable : BTreeSet ℕ} {targets order worklist : List ℕ}
  {fuel : ℕ}

section Checks

def Each (instrs : List Instr) (check : ℕ → Instr → Except VerifierError Unit) : Prop :=
  ∀ (pc : ℕ) (instr : Instr), instrs[pc]? = some instr → check pc instr = .ok ()

theorem forM_zipIdx_eq_ok {check : ℕ → Instr → Except VerifierError Unit} :
    instrs.zipIdx.forM (fun x => check x.2 x.1) = .ok () ↔ Each instrs check := by
  rw [forM_eq_ok]
  constructor
  · intro h pc instr hi
    exact h (instr, pc) (List.mem_zipIdx_iff_getElem?.mpr hi)
  · intro h x hx
    exact h x.2 x.1 (List.mem_zipIdx_iff_getElem?.mp hx)

def OperandsFit (decision : CompiledDecision) : Instr → Prop
  | .br t | .brFalse t | .brTrue t => t < decision.instructions.length
  | .loadField f => f < decision.inputSchema.length
  | .storeOutputTos f => f < decision.outputSchema.length
  | .storeOutput f c => f < decision.outputSchema.length ∧ c < decision.constPool.length
  | .pushConst c => c < decision.constPool.length
  | .pushConstSet c => c < decision.constSetPool.length
  | .rangeCheck r => r < decision.rangePool.length
  | .ruleMatched rid => ∃ entry ∈ decision.ruleMap, entry.ruleId = rid
  | _ => True

theorem ite_throw_eq_ok {p : Prop} [Decidable p] {e : VerifierError} :
    (if p then throw e else pure () : Except VerifierError Unit) = .ok () ↔ ¬ p := by
  by_cases hp : p <;> simp [hp]

theorem checkOperands_eq_ok_iff :
    checkOperands decision pos instr = .ok () ↔ OperandsFit decision instr := by
  cases instr with
  | br | brFalse | brTrue | loadField | storeOutputTos | pushConst | pushConstSet | rangeCheck =>
    simp only [checkOperands, OperandsFit, ite_throw_eq_ok, not_le]
  | storeOutput f c =>
    by_cases hf : decision.outputSchema.length ≤ f
    · simp [checkOperands, OperandsFit, hf]
    · simp only [checkOperands, OperandsFit, if_neg hf, ite_throw_eq_ok, not_le]
      exact ⟨fun hc => ⟨not_le.mp hf, hc⟩, And.right⟩
  | ruleMatched rid =>
    by_cases hany : decision.ruleMap.any (·.ruleId = rid) = true
    · have hmem : ∃ entry ∈ decision.ruleMap, entry.ruleId = rid := by simpa using hany
      simp only [checkOperands, OperandsFit, if_pos hany, pure_eq_ok, true_iff]
      exact hmem
    · have hmem : ¬ ∃ entry ∈ decision.ruleMap, entry.ruleId = rid := by simpa using hany
      simp only [checkOperands, OperandsFit, if_neg hany, throw_eq_ok, false_iff]
      exact hmem
  | _ => simp [checkOperands, OperandsFit]

structure FlowChecked (instrs : List Instr) (endPos : ℕ) : Prop where
  ending : endPos ∈ computeReachable instrs
  dangling : ∀ pos ∈ computeReachable instrs, checkDangling instrs pos = .ok ()
  heights : ∃ heights, verifyStackHeights instrs (computeReachable instrs) = .ok heights

theorem verifyFlow_eq_ok_iff {endPos : ℕ} :
    verifyFlow instrs endPos = .ok () ↔ FlowChecked instrs endPos := by
  unfold verifyFlow
  simp only [when_eq_ok, bind_eq_ok, throw_eq_ok, pure_eq_ok]
  constructor
  · rintro ⟨hend, ⟨⟩, hdangling, heights, hheights, -⟩
    refine ⟨ExtTreeSet.mem_iff_contains.mpr (not_not.mp hend), fun pos hpos => ?_, heights,
      hheights⟩
    exact forM_eq_ok.mp hdangling pos (ExtTreeSet.mem_toList.mpr hpos)
  · rintro ⟨hend, hdangling, heights, hheights⟩
    refine ⟨fun h => h (ExtTreeSet.mem_iff_contains.mp hend), ⟨⟩, ?_, heights, hheights,
      trivial⟩
    exact forM_eq_ok.mpr fun pos hpos => hdangling pos (ExtTreeSet.mem_toList.mp hpos)

theorem verifyEnding_eq_ok_iff :
    verifyEnding instrs = .ok () ↔
      ∃ endPos, endPositions instrs = [endPos] ∧ FlowChecked instrs endPos := by
  unfold verifyEnding
  split
  next h => simp [h]
  next endPos h => simp [h, verifyFlow_eq_ok_iff]
  next hnil hone =>
    simp only [throw_eq_ok, false_iff, not_exists, not_and]
    exact fun endPos h => absurd h (hone endPos)

structure Checked (decision : CompiledDecision) : Prop where
  spans : decision.instructions.length = decision.sourceSpans.length
  nonempty : decision.instructions.length ≠ 0
  reserved : Each decision.instructions checkReserved
  operands : Each decision.instructions (checkOperands decision)
  flow : ∃ endPos, endPositions decision.instructions = [endPos] ∧
    FlowChecked decision.instructions endPos
  shape : verifyHitPolicyShape decision = .ok ()

theorem verifyChecks_eq_ok_iff : verifyChecks decision = .ok () ↔ Checked decision := by
  unfold verifyChecks
  simp only [when_eq_ok, bind_eq_ok, throw_eq_ok]
  constructor
  · rintro ⟨hspans, hne, ⟨⟩, hreserved, ⟨⟩, hoperands, ⟨⟩, hend, hshape⟩
    exact ⟨not_not.mp hspans, hne, forM_zipIdx_eq_ok.mp hreserved, forM_zipIdx_eq_ok.mp hoperands,
      verifyEnding_eq_ok_iff.mp hend, hshape⟩
  · rintro ⟨hspans, hne, hreserved, hoperands, hend, hshape⟩
    exact ⟨fun h => h hspans, hne, ⟨⟩, forM_zipIdx_eq_ok.mpr hreserved, ⟨⟩,
      forM_zipIdx_eq_ok.mpr hoperands, ⟨⟩, verifyEnding_eq_ok_iff.mpr hend, hshape⟩

end Checks

section Reachable

/-- Every successor of a visited address is visited or still waiting. -/
def Closed (instrs : List Instr) (reachable : BTreeSet ℕ) (worklist : List ℕ) : Prop :=
  ∀ (pc : ℕ) (instr : Instr), pc ∈ reachable → instrs[pc]? = some instr →
    ∀ q ∈ successors pc instr, q < instrs.length → q ∈ reachable ∨ q ∈ worklist

def unvisited (instrs : List Instr) (reachable : BTreeSet ℕ) : Finset ℕ :=
  (Finset.range instrs.length).filter (· ∉ reachable)

theorem length_successors (pc : ℕ) (instr : Instr) : (successors pc instr).length ≤ 2 := by
  cases instr <;> simp [successors]

theorem card_unvisited_insert (hpc : pc < instrs.length) (hnew : pc ∉ reachable) :
    (unvisited instrs (reachable.insert pc)).card < (unvisited instrs reachable).card := by
  apply Finset.card_lt_card
  rw [Finset.ssubset_iff_of_subset]
  · exact ⟨pc, by simp [unvisited, hpc, hnew], by simp [unvisited]⟩
  · intro q
    simp only [unvisited, Finset.mem_filter, Finset.mem_range, ExtTreeSet.mem_insert]
    exact fun ⟨hq, hnot⟩ => ⟨hq, fun h => hnot (Or.inr h)⟩

theorem Closed.skip (h : Closed instrs reachable (pc :: worklist))
    (hpc : instrs.length ≤ pc ∨ pc ∈ reachable) : Closed instrs reachable worklist := by
  intro p i hp hi q hq hlt
  rcases h p i hp hi q hq hlt with h | h
  · exact Or.inl h
  · rcases List.mem_cons.mp h with rfl | h
    · exact Or.inl (hpc.resolve_left (by omega))
    · exact Or.inr h

theorem Closed.expand (h : Closed instrs reachable (pc :: worklist))
    (hinstr : instrs[pc]? = some instr) :
    Closed instrs (reachable.insert pc) ((successors pc instr).reverse ++ worklist) := by
  intro p i hp hi q hq hlt
  rw [ExtTreeSet.mem_insert, Nat.compare_eq_eq] at hp
  simp only [ExtTreeSet.mem_insert, Nat.compare_eq_eq, List.mem_append, List.mem_reverse]
  rcases hp with rfl | hp
  · obtain rfl := Option.mem_unique hinstr hi
    exact Or.inr (Or.inl hq)
  · rcases h p i hp hi q hq hlt with h | h
    · exact Or.inl (Or.inr h)
    · exact (List.mem_cons.mp h).imp (fun h => Or.inl h.symm) Or.inr

theorem mem_reachFrom (hpc : pc ∈ reachable) : pc ∈ reachFrom instrs fuel worklist reachable := by
  fun_induction reachFrom instrs fuel worklist reachable with
  | case1 | case2 => exact hpc
  | case3 _ _ _ _ _ ih | case4 _ _ _ _ _ _ _ ih => exact ih hpc
  | case5 _ _ _ _ _ _ _ ih => exact ih (ExtTreeSet.mem_insert.mpr (Or.inr hpc))

theorem lt_of_mem_reachFrom (hbound : ∀ pc ∈ reachable, pc < instrs.length) :
    ∀ pc ∈ reachFrom instrs fuel worklist reachable, pc < instrs.length := by
  fun_induction reachFrom instrs fuel worklist reachable with
  | case1 | case2 => exact hbound
  | case3 _ _ _ _ _ ih | case4 _ _ _ _ _ _ _ ih => exact ih hbound
  | case5 _ pc _ reachable instr hinstr _ ih =>
    refine ih fun p hp => ?_
    rcases ExtTreeSet.mem_insert.mp hp with heq | hp
    · rw [← Nat.compare_eq_eq.mp heq]
      exact (List.getElem?_eq_some_iff.mp hinstr).1
    · exact hbound p hp

theorem closed_reachFrom (hclosed : Closed instrs reachable worklist)
    (hfuel : worklist.length + 2 * (unvisited instrs reachable).card ≤ fuel) :
    Closed instrs (reachFrom instrs fuel worklist reachable) [] := by
  fun_induction reachFrom instrs fuel worklist reachable with
  | case1 worklist =>
    have hnil : worklist = [] := List.eq_nil_of_length_eq_zero (by omega)
    exact hnil ▸ hclosed
  | case2 => exact hclosed
  | case3 fuel pc worklist reachable hnone ih =>
    rw [List.length_cons] at hfuel
    exact ih (hclosed.skip (Or.inl (List.getElem?_eq_none_iff.mp hnone))) (by omega)
  | case4 fuel pc worklist reachable instr hinstr hmem ih =>
    rw [List.length_cons] at hfuel
    exact ih (hclosed.skip (Or.inr (ExtTreeSet.mem_iff_contains.mpr hmem))) (by omega)
  | case5 fuel pc worklist reachable instr hinstr hnew ih =>
    have hcard := card_unvisited_insert (List.getElem?_eq_some_iff.mp hinstr).1
      (fun hmem => hnew (ExtTreeSet.mem_iff_contains.mp hmem))
    have hlen := length_successors pc instr
    rw [List.length_cons] at hfuel
    refine ih (hclosed.expand hinstr) ?_
    rw [List.length_append, List.length_reverse]
    omega

theorem computeReachable_spec (instrs : List Instr) :
    Closed instrs (computeReachable instrs) [] ∧
    (∀ pc ∈ computeReachable instrs, pc < instrs.length) ∧
    (0 < instrs.length → 0 ∈ computeReachable instrs) := by
  have hcard : (unvisited instrs ∅).card ≤ instrs.length :=
    (Finset.card_filter_le _ _).trans_eq (Finset.card_range _)
  have hclosed : Closed instrs ∅ [0] := by
    intro pc instr hpc
    simp at hpc
  refine ⟨closed_reachFrom hclosed ?_, lt_of_mem_reachFrom (by simp), fun hpos => ?_⟩
  · simp only [List.length_singleton]
    omega
  · rw [computeReachable, reachFrom, List.getElem?_eq_getElem hpos]
    exact mem_reachFrom (by simp)

theorem mem_computeReachable_of_successor {q : ℕ} (hpc : pc ∈ computeReachable instrs)
    (hinstr : instrs[pc]? = some instr) (hq : q ∈ successors pc instr) (hlt : q < instrs.length) :
    q ∈ computeReachable instrs := by
  rcases (computeReachable_spec instrs).1 pc instr hpc hinstr q hq hlt with h | h
  · exact h
  · simp at h

end Reachable

section Heights

theorem setHeight_spec {source : ℕ} (hset : setHeight heights pos h source = .ok heights') :
    heights'.length = heights.length ∧
    (pos < heights.length → heights'[pos]? = some (some h)) ∧
    (∀ q v : ℕ, heights[q]? = some (some v) → heights'[q]? = some (some v)) := by
  unfold setHeight at hset
  split at hset
  case h_1 hnone =>
    obtain rfl := pure_eq_ok.mp hset
    have hlen := List.getElem?_eq_none_iff.mp hnone
    exact ⟨rfl, fun hlt => absurd hlt (by omega), fun _ _ => id⟩
  case h_2 hnone =>
    obtain rfl := pure_eq_ok.mp hset
    refine ⟨List.length_set, fun hlt => List.getElem?_set_self hlt, fun q v hq => ?_⟩
    have hne : pos ≠ q := by
      rintro rfl
      simp [hnone] at hq
    rw [List.getElem?_set_ne hne, hq]
  case h_3 existing hsome =>
    split at hset
    case isTrue heq =>
      obtain rfl := pure_eq_ok.mp hset
      exact ⟨rfl, fun _ => by rw [hsome, heq], fun _ _ => id⟩
    case isFalse => simp at hset

theorem foldlM_setHeight_spec {source : ℕ}
    (hset : targets.foldlM (fun heights q => setHeight heights q h source) heights = .ok heights') :
    heights'.length = heights.length ∧
    (∀ q ∈ targets, q < heights.length → heights'[q]? = some (some h)) ∧
    (∀ q v : ℕ, heights[q]? = some (some v) → heights'[q]? = some (some v)) := by
  induction targets generalizing heights with
  | nil =>
    obtain rfl := pure_eq_ok.mp hset
    exact ⟨rfl, by simp, fun _ _ => id⟩
  | cons t targets ih =>
    rw [List.foldlM_cons, bind_eq_ok] at hset
    obtain ⟨mid, hfirst, hrest⟩ := hset
    obtain ⟨hlen, hset, hkeep⟩ := setHeight_spec hfirst
    obtain ⟨hlen', hset', hkeep'⟩ := ih hrest
    refine ⟨hlen'.trans hlen, fun q hq hlt => ?_, fun q v hq => hkeep' q v (hkeep q v hq)⟩
    rcases List.mem_cons.mp hq with rfl | hq
    · exact hkeep' q h (hset hlt)
    · exact hset' q hq (hlen ▸ hlt)

theorem visitHeight_spec (hvisit : visitHeight instrs heights pos = .ok heights') :
    heights'.length = heights.length ∧
    (∀ q v : ℕ, heights[q]? = some (some v) → heights'[q]? = some (some v)) ∧
    (∀ (h : ℕ) (instr : Instr), heights[pos]? = some (some h) → instrs[pos]? = some instr →
      (stackDelta instr).1 ≤ h ∧
      (instr = .endDecision → h - (stackDelta instr).1 + (stackDelta instr).2 = 0) ∧
      ∀ q ∈ successors pos instr, q < heights.length →
        heights'[q]? = some (some (h - (stackDelta instr).1 + (stackDelta instr).2))) := by
  unfold visitHeight at hvisit
  split at hvisit
  case h_1 h instr hh hinstr =>
    simp only [when_eq_ok, bind_eq_ok, throw_eq_ok, pure_eq_ok] at hvisit
    obtain ⟨hpop, final, hfold, hend, rfl⟩ := hvisit
    obtain ⟨hlen, hset, hkeep⟩ := foldlM_setHeight_spec hfold
    refine ⟨hlen, hkeep, fun h' instr' hh' hinstr' => ?_⟩
    rw [hinstr] at hinstr'
    obtain rfl := Option.some.inj hinstr'
    rw [hh', Option.join_some] at hh
    obtain rfl := Option.some.inj hh
    refine ⟨not_lt.mp hpop, fun heq => ?_, fun q hq hlt => hset q (List.mem_reverse.mpr hq) hlt⟩
    by_contra hne
    exact hend ⟨heq, hne⟩
  case h_2 hnone =>
    obtain rfl := pure_eq_ok.mp hvisit
    refine ⟨rfl, fun _ _ => id, fun h instr hh hinstr => ?_⟩
    exact (hnone h instr (by rw [hh, Option.join_some]) hinstr).elim

/-- The height that address `pos` has when the pass comes to it. -/
def Settled (instrs : List Instr) (pos h : ℕ) : Prop :=
  ∃ (before after : List ℕ) (heights : List (Option ℕ)),
    (computeReachable instrs).toList = before ++ pos :: after ∧
    before.foldlM (visitHeight instrs)
      ((List.replicate instrs.length none).set 0 (some 0)) = .ok heights ∧
    heights.length = instrs.length ∧ heights[pos]? = some (some h)

theorem foldlM_visitHeight_spec (hfold : order.foldlM (visitHeight instrs) heights = .ok heights') :
    heights'.length = heights.length ∧
    (∀ q v : ℕ, heights[q]? = some (some v) → heights'[q]? = some (some v)) := by
  induction order generalizing heights with
  | nil =>
    obtain rfl := pure_eq_ok.mp hfold
    exact ⟨rfl, fun _ _ => id⟩
  | cons pos order ih =>
    rw [List.foldlM_cons, bind_eq_ok] at hfold
    obtain ⟨mid, hvisit, hrest⟩ := hfold
    obtain ⟨hlen, hkeep, -⟩ := visitHeight_spec hvisit
    obtain ⟨hlen', hkeep'⟩ := ih hrest
    exact ⟨hlen'.trans hlen, fun q v hq => hkeep' q v (hkeep q v hq)⟩

theorem pairwise_computeReachable : (computeReachable instrs).toList.Pairwise (· < ·) := by
  refine ExtTreeSet.ordered_toList.imp fun {a b} h => ?_
  exact Nat.compare_eq_lt.mp h

theorem settled_zero (hne : 0 < instrs.length) : Settled instrs 0 0 := by
  have hmem := ExtTreeSet.mem_toList.mpr ((computeReachable_spec instrs).2.2 hne)
  obtain ⟨before, after, hsplit⟩ := List.append_of_mem hmem
  have hsorted := @pairwise_computeReachable instrs
  rw [hsplit, List.pairwise_append] at hsorted
  have hnil : before = [] := by
    apply List.eq_nil_iff_forall_not_mem.mpr
    intro q hq
    have hlt := hsorted.2.2 q hq 0 (by simp)
    omega
  subst hnil
  exact ⟨[], after, _, hsplit, rfl, by simp, by simp [hne]⟩

theorem Settled.next (hpass : verifyStackHeights instrs (computeReachable instrs) = .ok heights)
    (hpos : Settled instrs pos h) (hinstr : instrs[pos]? = some instr) :
    (stackDelta instr).1 ≤ h ∧
    ∀ q ∈ successors pos instr, pos < q → q < instrs.length →
      Settled instrs q (h - (stackDelta instr).1 + (stackDelta instr).2) := by
  obtain ⟨before, after, mid, hsplit, hbefore, hlen, hh⟩ := hpos
  have hfold := hpass
  rw [verifyStackHeights, hsplit, List.foldlM_append, hbefore] at hfold
  change (pos :: after).foldlM (visitHeight instrs) mid = .ok heights at hfold
  rw [List.foldlM_cons] at hfold
  obtain ⟨mid', hvisit, hafter⟩ := bind_eq_ok.mp hfold
  obtain ⟨hlen', -, hstep⟩ := visitHeight_spec hvisit
  obtain ⟨hpop, -, hnext⟩ := hstep h instr hh hinstr
  refine ⟨hpop, fun q hq hlt hq' => ?_⟩
  -- the pass comes to `q` later, because it is reachable and larger
  have hmem : pos ∈ computeReachable instrs := by
    rw [← ExtTreeSet.mem_toList, hsplit]
    simp
  have hqmem := ExtTreeSet.mem_toList.mpr
    (mem_computeReachable_of_successor hmem hinstr hq hq')
  have hsorted := @pairwise_computeReachable instrs
  rw [hsplit] at hqmem hsorted
  have hin : q ∈ after := by
    rcases List.mem_append.mp hqmem with hb | hb
    · have := (List.pairwise_append.mp hsorted).2.2 q hb pos (by simp)
      omega
    · rcases List.mem_cons.mp hb with rfl | hb
      · omega
      · exact hb
  obtain ⟨between, rest, rfl⟩ := List.append_of_mem hin
  rw [List.foldlM_append] at hafter
  obtain ⟨mid'', hbetween, -⟩ := bind_eq_ok.mp hafter
  obtain ⟨hlen'', hkeep⟩ := foldlM_visitHeight_spec hbetween
  refine ⟨before ++ pos :: between, rest, mid'', ?_, ?_, ?_, ?_⟩
  · rw [hsplit, List.append_assoc, List.cons_append]
  · rw [List.foldlM_append, hbefore]
    change (pos :: between).foldlM (visitHeight instrs) mid = .ok mid''
    rw [List.foldlM_cons]
    exact bind_eq_ok.mpr ⟨mid', hvisit, hbetween⟩
  · omega
  · exact hkeep q _ (hnext q hq (by omega))

/-- Every height that is set is the one `H` gives its address. -/
def Agrees (H : ℕ → ℕ) (heights : List (Option ℕ)) : Prop :=
  ∀ q v : ℕ, heights[q]? = some (some v) → v = H q

variable {H : ℕ → ℕ}

theorem Agrees.set (hagrees : Agrees H heights) (pos : ℕ) :
    Agrees H (heights.set pos (some (H pos))) := by
  intro q v hq
  rw [List.getElem?_set] at hq
  split at hq
  case isTrue heq =>
    subst heq
    split at hq
    · exact (Option.some.inj (Option.some.inj hq)).symm
    · simp at hq
  case isFalse => exact hagrees q v hq

theorem Agrees.setOne (hagrees : Agrees H heights) (pos source : ℕ) :
    ∃ heights', setHeight heights pos (H pos) source = .ok heights' ∧ Agrees H heights' := by
  unfold setHeight
  split
  case h_1 => exact ⟨heights, rfl, hagrees⟩
  case h_2 => exact ⟨_, rfl, hagrees.set pos⟩
  case h_3 existing hsome =>
    rw [if_pos (hagrees pos existing hsome)]
    exact ⟨heights, rfl, hagrees⟩

theorem Agrees.setAll (hagrees : Agrees H heights) (source : ℕ) (htargets : ∀ q ∈ targets, H q = h) :
    ∃ heights', targets.foldlM (fun heights q => setHeight heights q h source) heights =
      .ok heights' ∧ Agrees H heights' := by
  induction targets generalizing heights with
  | nil => exact ⟨heights, rfl, hagrees⟩
  | cons t targets ih =>
    obtain ⟨mid, hmid, hagrees⟩ := hagrees.setOne t source
    rw [htargets t (by simp)] at hmid
    obtain ⟨final, hfinal, hagrees⟩ := ih hagrees fun q hq => htargets q (by simp [hq])
    refine ⟨final, ?_, hagrees⟩
    rw [List.foldlM_cons, bind_eq_ok]
    exact ⟨mid, hmid, hfinal⟩

/-- The heights of `H` fit the instruction at every address. -/
def Fitted (instrs : List Instr) (H : ℕ → ℕ) : Prop :=
  ∀ (pos : ℕ) (instr : Instr), instrs[pos]? = some instr →
    (stackDelta instr).1 ≤ H pos ∧
    (instr = .endDecision → H pos - (stackDelta instr).1 + (stackDelta instr).2 = 0) ∧
    ∀ q ∈ successors pos instr, H q = H pos - (stackDelta instr).1 + (stackDelta instr).2

theorem Agrees.visit (hagrees : Agrees H heights) (hfit : Fitted instrs H) (pos : ℕ) :
    ∃ heights', visitHeight instrs heights pos = .ok heights' ∧ Agrees H heights' := by
  unfold visitHeight
  split
  case h_1 h instr hh hinstr =>
    obtain rfl := hagrees pos h (Option.join_eq_some_iff.mp hh)
    obtain ⟨hpop, hend, hnext⟩ := hfit pos instr hinstr
    obtain ⟨final, hfinal, hagrees⟩ := hagrees.setAll pos
      (fun q hq => hnext q (List.mem_reverse.mp hq))
    refine ⟨final, ?_, hagrees⟩
    simp only [when_eq_ok, bind_eq_ok, throw_eq_ok, pure_eq_ok]
    exact ⟨not_lt.mpr hpop, final, hfinal, fun h => h.2 (hend h.1), rfl⟩
  case h_2 => exact ⟨heights, rfl, hagrees⟩

theorem Agrees.visitAll (hagrees : Agrees H heights) (hfit : Fitted instrs H) (order : List ℕ) :
    ∃ heights', order.foldlM (visitHeight instrs) heights = .ok heights' := by
  induction order generalizing heights with
  | nil => exact ⟨heights, rfl⟩
  | cons pos order ih =>
    obtain ⟨mid, hmid, hagrees⟩ := hagrees.visit hfit pos
    obtain ⟨final, hfinal⟩ := ih hagrees
    refine ⟨final, ?_⟩
    rw [List.foldlM_cons, bind_eq_ok]
    exact ⟨mid, hmid, hfinal⟩

theorem exists_heights (hzero : H 0 = 0) (hfit : Fitted instrs H) (reachable : BTreeSet ℕ) :
    ∃ heights, verifyStackHeights instrs reachable = .ok heights := by
  have hnone : Agrees H (List.replicate instrs.length none) := by
    intro q v hq
    simp [List.getElem?_replicate] at hq
  have hstart := hnone.set 0
  rw [hzero] at hstart
  exact hstart.visitAll hfit reachable.toList

end Heights

end BpmnLite.Dmn
