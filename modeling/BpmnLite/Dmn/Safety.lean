import BpmnLite.Dmn.VerifySpec
import BpmnLite.Dmn.Vm

/-!
# Safety of verified decisions

A run of verified code never pops an empty stack, never indexes outside a vector and ends after at
most one step for every instruction, as long as three things hold of the states it goes through
(`Orderly`): a branch that is taken goes forward, `Dup` finds a value to copy, and an integer that
`InSet` takes for a set was pushed by `PushConstSet`. The verifier checks none of the three. Which
values on the stack are set references is followed by a list of marks beside the stack.
-/

namespace BpmnLite.Dmn.Vm

variable {compiled : CompiledDecision} {source : String} {state : VmState} {instr : Instr}
  {new : List TypedValue} {marks : List Bool} {k fuel : ℕ}

section Effects

def pops : Instr → ℕ
  | .eq | .notEq | .lt | .le | .gt | .ge | .inSet | .and | .or => 2
  | .pop | .rangeCheck _ | .isNull | .isNotNull | .not | .brFalse _ | .brTrue _
  | .storeOutputTos _ => 1
  | _ => 0

def takenBranch (state : VmState) : Instr → Option ℕ
  | .br t => some t
  | .brFalse t => if asBool (top state (.bool false)) then none else some t
  | .brTrue t => if asBool (top state (.bool false)) then some t else none
  | _ => none

def isInteger : TypedValue → Bool
  | .integer _ => true
  | _ => false

/-- Every index the instruction uses in this state lies inside its vector. -/
def InBounds (compiled : CompiledDecision) (input : TypedInputContext) (state : VmState) :
    Instr → Prop
  | .loadField f => f < input.slots.length
  | .pushConst c => c < compiled.constPool.length
  | .pushConstSet s => s < compiled.constSetPool.length
  | .inSet => ∀ i : ℤ, top state .null = .integer i →
      0 ≤ i ∧ i.toNat < compiled.constSetPool.length
  | .rangeCheck r => r < compiled.rangePool.length
  | .storeOutputTos f => f < state.output.length
  | .storeOutput f c => f < state.output.length ∧ c < compiled.constPool.length
  | _ => True

variable {input : TypedInputContext} {span : SourceSpan} {state' : VmState}

def InRule (compiled : CompiledDecision) (state : VmState) : Prop :=
  ∀ idx ∈ state.currentRuleIdx, idx < compiled.ruleMap.length

theorem detectRuleTransition_spec (hrule : InRule compiled state) :
    ∃ idx preds, detectRuleTransition compiled state =
        { state with currentRuleIdx := idx, currentRulePredicates := preds } ∧
      InRule compiled { state with currentRuleIdx := idx, currentRulePredicates := preds } := by
  unfold detectRuleTransition
  split
  case h_1 idx hidx =>
    refine ⟨some idx, [], rfl, fun i hi => ?_⟩
    obtain rfl := Option.some.inj hi
    exact (List.findIdx?_eq_some_iff_getElem.mp hidx).1
  case h_2 => exact ⟨state.currentRuleIdx, state.currentRulePredicates, rfl, hrule⟩

theorem finaliseRule_spec (hrule : InRule compiled state) {result : Option VmState}
    (hresult : result = finaliseNonMatchingRule compiled state ∨
      ∃ rule, result = finaliseMatchingRule compiled state rule) :
    ∃ state', result = some state' ∧ state'.pc = state.pc ∧ state'.dataStack = state.dataStack ∧
      state'.output = state.output ∧ state'.halted = state.halted ∧ InRule compiled state' := by
  cases hcurrent : state.currentRuleIdx with
  | none =>
    refine ⟨state, ?_, rfl, rfl, rfl, rfl, hrule⟩
    rcases hresult with rfl | ⟨rule, rfl⟩ <;>
      simp [finaliseNonMatchingRule, finaliseMatchingRule, hcurrent]
  | some idx =>
    have hentry := List.getElem?_eq_getElem (hrule idx hcurrent)
    rcases hresult with rfl | ⟨rule, rfl⟩
    all_goals
      simp only [finaliseNonMatchingRule, finaliseMatchingRule, hcurrent, hentry]
      exact ⟨_, rfl, rfl, rfl, rfl, rfl, by simp [InRule]⟩

def Pushes (state : VmState) (new : List TypedValue) : Instr → Prop
  | .pushConstSet s => new = [.integer s]
  | .dup => new = state.dataStack.head?.toList
  | instr => new.length = (stackDelta instr).2

theorem Pushes.length (hpush : Pushes state new instr)
    (hcopies : instr = .dup → state.dataStack ≠ []) : new.length = (stackDelta instr).2 := by
  cases instr with
  | pushConstSet set =>
    obtain rfl := hpush
    rfl
  | dup =>
    obtain rfl := hpush
    cases hstack : state.dataStack with
    | nil => exact absurd hstack (hcopies rfl)
    | cons v stack => rfl
  | _ => exact hpush

structure Effect (compiled : CompiledDecision) (state state' : VmState) (instr : Instr) : Prop where
  stack : ∃ new, state'.dataStack = new ++ state.dataStack.drop (pops instr) ∧
    Pushes state new instr
  output : state'.output.length = state.output.length
  rule : InRule compiled state'
  control : instr = .endDecision ∧ state'.halted = true ∨
    state'.pc ∈ successors state.pc instr ∧
      (state'.pc = state.pc + 1 ∨ takenBranch state instr = some state'.pc)

theorem Effect.falls (new : List TypedValue)
    (hstack : state'.dataStack = new ++ state.dataStack.drop (pops instr))
    (hpush : Pushes state new instr) (houtput : state'.output.length = state.output.length)
    (hrule : InRule compiled state') (hpc : state'.pc = state.pc + 1)
    (hnext : state.pc + 1 ∈ successors state.pc instr) : Effect compiled state state' instr :=
  ⟨⟨new, hstack, hpush⟩, houtput, hrule, Or.inr ⟨hpc ▸ hnext, Or.inl hpc⟩⟩

theorem Effect.unary {fallback : TypedValue} {f : TypedValue → Bool}
    (hrule : InRule compiled state) (hpops : pops instr = 1)
    (hpush : ∀ new, new.length = 1 → Pushes state new instr)
    (hnext : state.pc + 1 ∈ successors state.pc instr) :
    Effect compiled state (unary fallback f state) instr :=
  .falls [_] (by rw [hpops, List.drop_one]; rfl) (hpush [_] rfl) rfl hrule rfl hnext

theorem Effect.test {b : Bool} (hrule : InRule compiled state) (hpops : pops instr = 2)
    (hpush : ∀ new, new.length = 1 → Pushes state new instr)
    (hnext : state.pc + 1 ∈ successors state.pc instr) :
    Effect compiled state (advance (push (pop (pop state)) (.bool b))) instr :=
  .falls [_] (by rw [hpops, ← List.tail_drop, List.drop_one]; rfl) (hpush [_] rfl) rfl hrule rfl hnext

theorem execute_spec (source : String) (span : SourceSpan) (hrule : InRule compiled state)
    (hbounds : InBounds compiled input state instr) (hreserved : instr.isReserved = false) :
    ∃ state', execute compiled input source span state instr = some state' ∧
      Effect compiled state state' instr := by
  have hnext : ∀ pc : ℕ, pc + 1 ∈ [pc + 1] := fun pc => List.mem_singleton_self _
  have htail : state.dataStack.tail = state.dataStack.drop 1 := List.drop_one.symm
  cases instr with
  | loadField f => exact ⟨_, rfl, .falls [_] rfl rfl rfl hrule rfl (hnext _)⟩
  | pushConst c =>
    simp only [execute, List.getElem?_eq_getElem (show c < compiled.constPool.length from hbounds)]
    exact ⟨_, rfl, .falls [_] rfl rfl rfl hrule rfl (hnext _)⟩
  | pushConstSet c => exact ⟨_, rfl, .falls [_] rfl rfl rfl hrule rfl (hnext _)⟩
  | pop => exact ⟨_, rfl, .falls [] htail rfl rfl hrule rfl (hnext _)⟩
  | dup => exact ⟨_, rfl, .falls _ rfl rfl rfl hrule rfl (hnext _)⟩
  | eq | notEq | lt | le | gt | ge | and | or =>
    exact ⟨_, rfl, .test hrule rfl (fun _ => id) (hnext _)⟩
  | inSet =>
    simp only [execute, inSet]
    split
    case h_1 i hi =>
      obtain ⟨hneg, hlt⟩ := hbounds i hi
      rw [if_neg (not_lt.mpr hneg), List.getElem?_eq_getElem hlt]
      exact ⟨_, rfl, .test hrule rfl (fun _ => id) (hnext _)⟩
    case h_2 => exact ⟨_, rfl, .test hrule rfl (fun _ => id) (hnext _)⟩
  | rangeCheck r =>
    simp only [execute, List.getElem?_eq_getElem (show r < compiled.rangePool.length from hbounds)]
    exact ⟨_, rfl, .unary hrule rfl (fun _ => id) (hnext _)⟩
  | isNull | isNotNull | not => exact ⟨_, rfl, .unary hrule rfl (fun _ => id) (hnext _)⟩
  | br t => exact ⟨_, rfl, ⟨[], rfl, rfl⟩, rfl, hrule, Or.inr ⟨List.mem_singleton_self t, Or.inr rfl⟩⟩
  | brFalse t =>
    simp only [execute]
    split
    case isTrue htrue =>
      exact ⟨_, rfl, .falls [] htail rfl rfl hrule rfl (by simp [successors])⟩
    case isFalse hfalse =>
      have hrecord : InRule compiled
          (recordPredicateTrace source (pop state) (asBool (top state (.bool false))) span) := hrule
      obtain ⟨mid, hmid, hpc, hstack, houtput, -, hrule'⟩ := finaliseRule_spec hrecord (.inl rfl)
      rw [hmid]
      refine ⟨_, rfl, ⟨[], ?_, rfl⟩, congrArg List.length houtput, hrule', Or.inr ⟨?_, Or.inr ?_⟩⟩
      · exact hstack.trans htail
      · simp [successors]
      · simp [takenBranch, hfalse]
  | brTrue t =>
    simp only [execute]
    split
    case isTrue htrue =>
      refine ⟨_, rfl, ⟨[], htail, rfl⟩, rfl, hrule, Or.inr ⟨?_, Or.inr ?_⟩⟩
      · simp [successors]
      · simp [takenBranch, htrue]
    case isFalse =>
      exact ⟨_, rfl, .falls [] htail rfl rfl hrule rfl (by simp [successors])⟩
  | ruleMatched rid =>
    have hlisted : InRule compiled { state with matchedRules := state.matchedRules ++ [rid] } := hrule
    obtain ⟨mid, hmid, hpc, hstack, houtput, -, hrule'⟩ := 
      finaliseRule_spec hlisted (.inr ⟨rid, rfl⟩)
    simp only [execute, hmid]
    exact ⟨_, rfl, .falls [] hstack rfl (congrArg List.length houtput) hrule'
      (congrArg (· + 1) hpc) (hnext _)⟩
  | storeOutputTos f =>
    have hlt : f < (pop state).output.length := hbounds
    simp only [execute, storeOutput, if_pos hlt]
    exact ⟨_, rfl, .falls [] htail rfl List.length_set hrule rfl (hnext _)⟩
  | storeOutput f c =>
    simp only [execute, storeOutput, if_pos hbounds.1, List.getElem?_eq_getElem hbounds.2]
    exact ⟨_, rfl, .falls [] rfl rfl List.length_set hrule rfl (hnext _)⟩
  | endDecision => exact ⟨_, rfl, ⟨[], rfl, rfl⟩, rfl, hrule, Or.inl ⟨rfl, rfl⟩⟩
  | call | «return» | forAllBegin | forAllEnd | aggregateBegin | aggregateEnd | loadPath =>
    simp [Instr.isReserved] at hreserved

end Effects

section Marks

/-- The marks of the stack after an instruction: `PushConstSet` pushes a set reference, `Dup` copies
one, and whatever else is pushed is none. -/
def remark (marks : List Bool) : Instr → List Bool
  | .pushConstSet _ => true :: marks
  | .dup => marks.head?.toList ++ marks
  | instr => List.replicate (stackDelta instr).2 false ++ marks.drop (pops instr)

/-- The states of a run with the marks of their stacks. -/
inductive Marked (compiled : CompiledDecision) (input : TypedInputContext) (source : String) :
    VmState → List Bool → Prop
  | start : Marked compiled input source (VmState.new compiled) []
  | step {state state' : VmState} {marks : List Bool} {instr : Instr} :
      Marked compiled input source state marks → ¬ Stopped compiled state →
      compiled.instructions[state.pc]? = some instr →
      step compiled input source state = some state' →
      Marked compiled input source state' (remark marks instr)

/-- What the verifier leaves unchecked. -/
structure Orderly (state : VmState) (marks : List Bool) (instr : Instr) : Prop where
  forward : ∀ t ∈ takenBranch state instr, state.pc < t
  copies : instr = .dup → state.dataStack ≠ []
  refers : instr = .inSet → isInteger (top state .null) = true → marks.head? = some true

instance decidableOrderly (state : VmState) (marks : List Bool) (instr : Instr) :
    Decidable (Orderly state marks instr) :=
  decidable_of_iff ((∀ t ∈ takenBranch state instr, state.pc < t) ∧
      (instr = .dup → state.dataStack ≠ []) ∧
      (instr = .inSet → isInteger (top state .null) = true → marks.head? = some true))
    ⟨fun ⟨h, h', h''⟩ => ⟨h, h', h''⟩, fun ⟨h, h', h''⟩ => ⟨h, h', h''⟩⟩

/-- A marked value is the index of a set of the pool. -/
def IsReference (compiled : CompiledDecision) (mark : Bool) (v : TypedValue) : Prop :=
  mark = true → ∃ set : ℕ, v = .integer set ∧ set < compiled.constSetPool.length

structure Sound (compiled : CompiledDecision) (state : VmState) (marks : List Bool) : Prop where
  height : Stopped compiled state ∨
    Settled compiled.instructions state.pc state.dataStack.length
  refers : List.Forall₂ (IsReference compiled) marks state.dataStack
  output : state.output.length = compiled.outputSchema.length
  rule : InRule compiled state

variable {input : TypedInputContext} {state' : VmState}

theorem pops_eq (instr : Instr) : pops instr = (stackDelta instr).1 := by
  cases instr <;> rfl

theorem Sound.start (hchecked : Checked compiled) : Sound compiled (VmState.new compiled) [] where
  height := Or.inr (settled_zero (Nat.pos_of_ne_zero hchecked.nonempty))
  refers := .nil
  output := List.length_replicate
  rule := by simp [InRule, VmState.new]

/-- The verifier's operand checks put every index in bounds; that of `InSet` comes from the marks. -/
theorem Sound.inBounds (hsound : Sound compiled state marks)
    (hfit : OperandsFit compiled instr)
    (hslots : input.slots.length = compiled.inputSchema.length)
    (horderly : Orderly state marks instr) : InBounds compiled input state instr := by
  cases instr with
  | loadField f => exact Nat.lt_of_lt_of_eq hfit hslots.symm
  | pushConst | pushConstSet | rangeCheck => exact hfit
  | storeOutputTos f => exact Nat.lt_of_lt_of_eq hfit hsound.output.symm
  | storeOutput f c => exact ⟨Nat.lt_of_lt_of_eq hfit.1 hsound.output.symm, hfit.2⟩
  | inSet =>
    intro i hi
    have hmark := horderly.refers rfl (by rw [hi]; rfl)
    have hrefers := hsound.refers
    -- the mark on top of the stack is the one of the integer
    cases hmarks : marks with
    | nil => simp [hmarks] at hmark
    | cons m rest =>
      rw [hmarks] at hrefers hmark
      cases hstack : state.dataStack with
      | nil => simp [hstack] at hrefers
      | cons v stack =>
        rw [hstack] at hrefers
        obtain ⟨set, hv, hlt⟩ := (List.forall₂_cons.mp hrefers).1 (Option.some.inj hmark)
        simp only [top, hstack, List.head?_cons, Option.getD_some, hv] at hi
        obtain rfl := TypedValue.integer.inj hi
        exact ⟨Int.natCast_nonneg set, by simpa using hlt⟩
  | _ => trivial

theorem forall₂_remark (hrefers : List.Forall₂ (IsReference compiled) marks state.dataStack)
    (hpush : Pushes state new instr) (hfit : OperandsFit compiled instr) :
    List.Forall₂ (IsReference compiled) (remark marks instr)
      (new ++ state.dataStack.drop (pops instr)) := by
  have hfalse : ∀ vs : List TypedValue,
      List.Forall₂ (IsReference compiled) (List.replicate vs.length false) vs := by
    intro vs
    induction vs with
    | nil => exact .nil
    | cons v vs ih => exact .cons (by simp [IsReference]) ih
  cases instr with
  | pushConstSet set =>
    obtain rfl := hpush
    exact .cons (fun _ => ⟨set, rfl, hfit⟩) hrefers
  | dup =>
    obtain rfl := hpush
    change List.Forall₂ _ _ (state.dataStack.head?.toList ++ state.dataStack)
    generalize state.dataStack = stack at hrefers
    cases hrefers with
    | nil => exact .nil
    | cons hhead htail => exact .cons hhead (.cons hhead htail)
  | _ =>
    change new.length = _ at hpush
    simp only [remark, ← hpush]
    exact List.rel_append (hfalse new) (List.forall₂_drop _ hrefers)

/-- One step of an orderly run: no pop of an empty stack, no index out of bounds, and on to a later
address. -/
theorem step_sound (source : String) (hchecked : Checked compiled)
    (hslots : input.slots.length = compiled.inputSchema.length)
    (hsound : Sound compiled state marks) (hgoing : ¬ Stopped compiled state)
    (hinstr : compiled.instructions[state.pc]? = some instr)
    (horderly : Orderly state marks instr) :
    pops instr ≤ state.dataStack.length ∧ InBounds compiled input state instr ∧
    ∃ state', step compiled input source state = some state' ∧
      Sound compiled state' (remark marks instr) ∧
      (Stopped compiled state' ∨ state.pc < state'.pc) := by
  obtain ⟨endPos, -, -, -, heights, hheights⟩ := hchecked.flow
  have hfit : OperandsFit compiled instr :=
    checkOperands_eq_ok_iff.mp (hchecked.operands state.pc instr hinstr)
  have hreserved : instr.isReserved = false := by
    simpa [checkReserved, ite_throw_eq_ok] using hchecked.reserved state.pc instr hinstr
  have hbounds := hsound.inBounds hfit hslots horderly
  obtain ⟨hpop, hnext⟩ := (hsound.height.resolve_left hgoing).next hheights hinstr
  refine ⟨(pops_eq instr).trans_le hpop, hbounds, ?_⟩
  have hpc : state.pc < compiled.sourceSpans.length :=
    hchecked.spans ▸ (List.getElem?_eq_some_iff.mp hinstr).1
  obtain ⟨idx, preds, hdetect, hrule⟩ := detectRuleTransition_spec hsound.rule
  obtain ⟨state', hexecute, ⟨new, hstack, hpush⟩, houtput, hrule', hcontrol⟩ :=
    execute_spec source compiled.sourceSpans[state.pc] hrule hbounds hreserved
  have hstep : step compiled input source state = some state' := by
    simp only [step, List.getElem?_eq_getElem hpc, hinstr, hdetect]
    exact hexecute
  have hlength : state'.dataStack.length =
      state.dataStack.length - (stackDelta instr).1 + (stackDelta instr).2 := by
    rw [hstack, List.length_append, List.length_drop, pops_eq, hpush.length horderly.copies]
    exact Nat.add_comm _ _
  have hlater : Stopped compiled state' ∨ state.pc < state'.pc ∧
      state'.pc ∈ successors state.pc instr := by
    rcases hcontrol with ⟨-, hhalted⟩ | ⟨hmem, hpc | htaken⟩
    · exact Or.inl (Or.inl hhalted)
    · exact Or.inr ⟨Nat.lt_of_lt_of_eq (Nat.lt_succ_self _) hpc.symm, hmem⟩
    · exact Or.inr ⟨horderly.forward _ htaken, hmem⟩
  refine ⟨state', hstep, ⟨?_, ?_, houtput.trans hsound.output, hrule'⟩, hlater.imp_right And.left⟩
  · rcases hlater with hstopped | ⟨hlt, hmem⟩
    · exact Or.inl hstopped
    · by_cases hin : state'.pc < compiled.instructions.length
      · rw [hlength]
        exact Or.inr (hnext _ hmem hlt hin)
      · exact Or.inl (Or.inr (not_lt.mp hin))
  · rw [hstack]
    exact forall₂_remark hsound.refers hpush hfit

end Marks

section Runs

variable {input : TypedInputContext}

def OrderlyRun (compiled : CompiledDecision) (input : TypedInputContext) (source : String) : Prop :=
  ∀ state marks instr, Marked compiled input source state marks → ¬ Stopped compiled state →
    compiled.instructions[state.pc]? = some instr → Orderly state marks instr

theorem Marked.sound (hchecked : Checked compiled)
    (hslots : input.slots.length = compiled.inputSchema.length)
    (horderly : OrderlyRun compiled input source)
    (hmarked : Marked compiled input source state marks) : Sound compiled state marks := by
  induction hmarked with
  | start => exact .start hchecked
  | step hmarked hgoing hinstr hstep ih =>
    obtain ⟨-, -, state', hstep', hsound, -⟩ := step_sound source hchecked hslots ih hgoing hinstr
      (horderly _ _ _ hmarked hgoing hinstr)
    obtain rfl := Option.mem_unique hstep hstep'
    exact hsound

theorem Marked.runLoop (hchecked : Checked compiled)
    (hslots : input.slots.length = compiled.inputSchema.length)
    (horderly : OrderlyRun compiled input source)
    (hmarked : Marked compiled input source state marks)
    (hk : compiled.instructions.length ≤ state.pc + k) :
    ∃ final, ∀ fuel, k ≤ fuel → runLoop compiled input source fuel state = .returned final := by
  induction k generalizing state marks with
  | zero => exact ⟨state, fun fuel _ => runLoop_of_stopped (Or.inr hk) input source fuel⟩
  | succ k ih =>
    by_cases hgoing : Stopped compiled state
    · exact ⟨state, fun fuel _ => runLoop_of_stopped hgoing input source fuel⟩
    · have hinstr := List.getElem?_eq_getElem (not_le.mp fun h => hgoing (Or.inr h))
      obtain ⟨-, -, state', hstep, -, hlater⟩ := step_sound source hchecked hslots
        (hmarked.sound hchecked hslots horderly) hgoing hinstr
        (horderly _ _ _ hmarked hgoing hinstr)
      have hrest : ∃ final, ∀ fuel, k ≤ fuel →
          Vm.runLoop compiled input source fuel state' = .returned final := by
        rcases hlater with hstop | hlt
        · exact ⟨state', fun fuel _ => runLoop_of_stopped hstop input source fuel⟩
        · exact ih (hmarked.step hgoing hinstr hstep) (by omega)
      obtain ⟨final, hfinal⟩ := hrest
      refine ⟨final, fun fuel hfuel => ?_⟩
      obtain ⟨fuel, rfl⟩ := Nat.exists_eq_succ_of_ne_zero (show fuel ≠ 0 by omega)
      rw [Nat.succ_eq_add_one, runLoop_of_step hgoing hstep]
      exact hfinal fuel (by omega)

theorem decideOutcome_error {policy : HitPolicy} {rules : List RuleId} {e : EvalError}
    (h : decideOutcome policy rules = .error e) :
    e = .noMatch ∨ ∃ rules, e = .multipleMatches rules := by
  unfold decideOutcome at h
  split at h
  all_goals simp only [Except.error.injEq, reduceCtorEq] at h
  all_goals subst h
  · exact Or.inl rfl
  · exact Or.inr ⟨_, rfl⟩
  · exact Or.inl rfl

/-- Soundness of the verifier for orderly runs: the machine stops within one step for every
instruction, with an output or the error of the hit policy, and on the way it never pops an empty
stack and never indexes out of bounds. -/
theorem verified_run_safe (R : Runtime) (decision : VerifiedDecision) (input : TypedInputContext)
    (source : String) (hinput : input.IsFor R decision.asCompiled.inputSchema)
    (horderly : OrderlyRun decision.asCompiled input source) :
    (∃ result, (∀ fuel, decision.asCompiled.instructions.length ≤ fuel →
        evaluate R fuel decision input source = .returned result) ∧
      ∀ e, result = .error e → e = .noMatch ∨ ∃ rules, e = .multipleMatches rules) ∧
    ∀ state marks instr, Marked decision.asCompiled input source state marks →
      ¬ Stopped decision.asCompiled state →
      decision.asCompiled.instructions[state.pc]? = some instr →
      pops instr ≤ state.dataStack.length ∧ InBounds decision.asCompiled input state instr := by
  have hchecked := verifyChecks_eq_ok_iff.mp decision.verified
  obtain ⟨hhash, hslots⟩ := hinput
  constructor
  · obtain ⟨final, hfinal⟩ := Marked.runLoop hchecked hslots horderly .start
      (show _ ≤ 0 + decision.asCompiled.instructions.length by omega)
    refine ⟨finalize R decision.asCompiled final, fun fuel hfuel => ?_, fun e he => ?_⟩
    · rw [evaluate, runVm, if_neg (not_not.mpr hhash.symm), if_neg (not_not.mpr hslots),
        hfinal fuel hfuel]
      rfl
    · cases hout : decideOutcome decision.asCompiled.hitPolicy final.matchedRules with
      | ok rule => simp [finalize, hout, bind, Except.bind, pure, Except.pure] at he
      | error e' =>
        simp only [finalize, hout, bind, Except.bind, Except.error.injEq] at he
        subst he
        exact decideOutcome_error hout
  · intro state marks instr hmarked hgoing hinstr
    obtain ⟨hpops, hbounds, -⟩ := step_sound source hchecked hslots
      (hmarked.sound hchecked hslots horderly) hgoing hinstr (horderly _ _ _ hmarked hgoing hinstr)
    exact ⟨hpops, hbounds⟩

end Runs

section Audit

variable {input : TypedInputContext}

/-- Runs the machine and looks at every state on the way. -/
def audit (compiled : CompiledDecision) (input : TypedInputContext) (source : String) :
    ℕ → VmState → List Bool → Bool
  | 0, state, _ => Stopped compiled state
  | fuel + 1, state, marks =>
    decide (Stopped compiled state) ||
    match compiled.instructions[state.pc]?, step compiled input source state with
    | some instr, some state' =>
      decide (Orderly state marks instr) &&
        audit compiled input source fuel state' (remark marks instr)
    | _, _ => false

theorem audit_of_marked (haudit : audit compiled input source fuel (VmState.new compiled) [] = true)
    (hmarked : Marked compiled input source state marks) :
    ∃ fuel, audit compiled input source fuel state marks = true := by
  induction hmarked with
  | start => exact ⟨fuel, haudit⟩
  | step hmarked hgoing hinstr hstep ih =>
    obtain ⟨fuel, hfuel⟩ := ih
    cases fuel with
    | zero => exact absurd (of_decide_eq_true hfuel) hgoing
    | succ fuel =>
      simp only [audit, hgoing, decide_false, Bool.false_or, hinstr, hstep, Bool.and_eq_true] at hfuel
      exact ⟨fuel, hfuel.2⟩

theorem orderlyRun_of_audit
    (haudit : audit compiled input source fuel (VmState.new compiled) [] = true) :
    OrderlyRun compiled input source := by
  intro state marks instr hmarked hgoing hinstr
  obtain ⟨fuel, hfuel⟩ := audit_of_marked haudit hmarked
  cases fuel with
  | zero => exact absurd (of_decide_eq_true hfuel) hgoing
  | succ fuel =>
    simp only [audit, hgoing, decide_false, Bool.false_or, hinstr] at hfuel
    split at hfuel
    case h_1 hinstr' _ =>
      obtain rfl := Option.some.inj hinstr'
      exact of_decide_eq_true (Bool.and_eq_true_iff.mp hfuel).1
    case h_2 => simp at hfuel

end Audit

namespace Sample

def runtime : Runtime := ⟨fun _ => 0, fun _ => none⟩

/-- A decision over one input and one output field, with one rule that begins at address 0. -/
def decision (inputType : ResolvedType) (sets : List (List TypedValue)) (instrs : List Instr) :
    CompiledDecision where
  decisionId := "d"
  name := "d"
  hitPolicy := .unique
  inputSchema := [⟨0, "x", inputType, default⟩]
  outputSchema := [⟨0, "y", .bool, default⟩]
  constPool := [.bool true]
  constSetPool := sets
  rangePool := []
  instructions := instrs
  sourceSpans := List.replicate instrs.length default
  ruleMap := [⟨0, "r", 0, default⟩]
  typedIr := ⟨"d", "d", .unique, [], [], [], [], default⟩

def context (v : TypedValue) : TypedInputContext := ⟨[some v], 0⟩

/-- A branch back to the entry. -/
def spinning : CompiledDecision :=
  decision .bool [] [.loadField 0, .brTrue 0, .endDecision]

/-- An input field taken for a set. -/
def confused : CompiledDecision :=
  decision .integer [] [.loadField 0, .loadField 0, .inSet, .pop, .endDecision]

/-- A copy of nothing. -/
def hollow : CompiledDecision := decision .bool [] [.dup, .pop, .endDecision]

/-- The code the compiler emits for a rule that tests membership in a set. -/
def membership : CompiledDecision :=
  decision .str [[.str "a", .str "b"]]
    [.loadField 0, .pushConstSet 0, .inSet, .brFalse 7, .pushConst 0, .storeOutputTos 0,
     .ruleMatched 0, .endDecision]

/-- A membership test ends with an output, whatever more fuel there is. -/
theorem membership_safe : ∃ result, ∀ fuel, 8 ≤ fuel →
    evaluate runtime fuel ⟨membership, by decide +kernel⟩ (context (.str "b")) "" =
      .returned result := by
  obtain ⟨⟨result, hresult, -⟩, -⟩ := verified_run_safe runtime ⟨membership, by decide +kernel⟩
    (context (.str "b")) "" ⟨rfl, rfl⟩
    (orderlyRun_of_audit (show audit _ _ _ 8 _ _ = true by decide +kernel))
  exact ⟨result, hresult⟩

theorem spinning_runs (fuel : ℕ) :
    runLoop spinning (context (.bool true)) "" fuel
      { VmState.new spinning with currentRuleIdx := some 0 } = .running ∧
    runLoop spinning (context (.bool true)) "" fuel
      { VmState.new spinning with
        pc := 1, dataStack := [.bool true], currentRuleIdx := some 0 } = .running := by
  induction fuel with
  | zero => exact ⟨rfl, rfl⟩
  | succ fuel ih => exact ⟨ih.2, ih.1⟩

/-- Three decisions that `verify` accepts: one whose evaluation never ends, one that indexes the
set pool out of bounds and one that pops an empty stack. -/
theorem accepted_decisions_fail :
    ((∃ d, verify spinning = .ok d ∧
        ∀ fuel, evaluate runtime fuel d (context (.bool true)) "" = .running) ∧
      (context (.bool true)).IsFor runtime spinning.inputSchema) ∧
    ((∃ d, verify confused = .ok d ∧
        evaluate runtime 3 d (context (.integer 5)) "" = .panicked) ∧
      (context (.integer 5)).IsFor runtime confused.inputSchema) ∧
    ((∃ d, verify hollow = .ok d) ∧ ∃ state marks,
      Marked hollow (context (.bool true)) "" state marks ∧ ¬ Stopped hollow state ∧
      hollow.instructions[state.pc]? = some .pop ∧ state.dataStack.length < pops .pop) := by
  refine ⟨⟨⟨⟨spinning, by decide +kernel⟩, rfl, fun fuel => ?_⟩, rfl, rfl⟩,
    ⟨⟨⟨confused, by decide +kernel⟩, rfl, rfl⟩, rfl, rfl⟩,
    ⟨⟨hollow, by decide +kernel⟩, rfl⟩, _, _, .step .start (by decide) rfl rfl, by decide, rfl,
    by decide⟩
  cases fuel with
  | zero => rfl
  | succ fuel => exact congrArg (Ending.map _) (spinning_runs fuel).2

end Sample

end BpmnLite.Dmn.Vm
