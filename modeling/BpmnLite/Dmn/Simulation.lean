import BpmnLite.Dmn.EmitVerified
import BpmnLite.Dmn.Reference
import BpmnLite.Dmn.Vm

/-!
# The machine on emitted code

How the machine runs the code of a typed decision. A predicate's code leaves the value that the
reference evaluator computes, a rule's code matches exactly when the evaluator says so, and the run
over all rules enters them in order, up to the first match under FIRST.
-/

namespace BpmnLite.Dmn.Vm

open Emit Reference

variable {s' : VmState} {code a : List Instr} {catalogue : Catalogue} {f : Bool → Bool → Bool}
  {items preds : List TypedPredicate} {next start : ℕ} {policy : HitPolicy} {rules : List TypedRule}
  {compiled : CompiledDecision} {input : TypedInputContext} {source : String} {s u : VmState}
  {instr : Instr} {v w : TypedValue} {idx stop lo hi : ℕ} {entry : RuleMapEntry} {rule : TypedRule}
  (hspans : compiled.instructions.length = compiled.sourceSpans.length)

section Moves

variable (compiled input source) in
def Moves (s s' : VmState) : Prop :=
  ¬ Stopped compiled s ∧ step compiled input source s = some s'

variable (compiled input source) in
/-- Rounds made at addresses from `lo` up to, but not including, `hi`. -/
def Goes (lo hi : ℕ) : VmState → VmState → Prop :=
  Relation.ReflTransGen fun a b => Moves compiled input source a b ∧ lo ≤ a.pc ∧ a.pc < hi

theorem Goes.mono {lo' hi' : ℕ} (h : Goes compiled input source lo hi s s') (hlo : lo' ≤ lo)
    (hhi : hi ≤ hi') : Goes compiled input source lo' hi' s s' := by
  refine Relation.ReflTransGen.mono ?_ _ _ h
  exact fun _ _ h => ⟨h.1, hlo.trans h.2.1, h.2.2.trans_le hhi⟩

theorem Goes.trans {mid : ℕ} (h : Goes compiled input source lo mid s s')
    (h' : Goes compiled input source mid hi s' u) (hlo : lo ≤ mid) (hhi : mid ≤ hi) :
    Goes compiled input source lo hi s u :=
  Relation.ReflTransGen.trans (h.mono le_rfl hhi) (h'.mono hlo le_rfl)

theorem Goes.run (h : Goes compiled input source lo hi s s') :
    ∃ k, ∀ fuel, runLoop compiled input source (fuel + k) s =
      runLoop compiled input source fuel s' := by
  induction h using Relation.ReflTransGen.head_induction_on with
  | refl => exact ⟨0, fun _ => rfl⟩
  | head hmove _ ih =>
    obtain ⟨k, hk⟩ := ih
    refine ⟨k + 1, fun fuel => ?_⟩
    rw [← hk fuel]
    exact runLoop_of_step hmove.1.1 hmove.1.2 (fuel + k)

theorem Goes.visits (h : Goes compiled input source lo hi s s')
    (hu : Relation.ReflTransGen (Moves compiled input source) s u) :
    (lo ≤ u.pc ∧ u.pc < hi) ∨ Relation.ReflTransGen (Moves compiled input source) s' u := by
  induction h using Relation.ReflTransGen.head_induction_on with
  | refl => exact Or.inr hu
  | head hmove _ ih =>
    rcases hu.cases_head with rfl | ⟨m, hm, hu⟩
    · exact Or.inl hmove.2
    · obtain rfl := Option.some.inj (hmove.1.2.symm.trans hm.2)
      exact ih hu

theorem Stopped.visits (h : Stopped compiled s)
    (hu : Relation.ReflTransGen (Moves compiled input source) s u) : u = s := by
  rcases hu.cases_head with rfl | ⟨m, hm, -⟩
  · rfl
  · exact (hm.1 h).elim

end Moves

section Blocks

def Quiet (compiled : CompiledDecision) (pc : ℕ) : Prop :=
  ∀ entry ∈ compiled.ruleMap, entry.entryAddr ≠ pc

def Entered (compiled : CompiledDecision) (s : VmState) : Prop :=
  detectRuleTransition compiled s = s

theorem entered_of_quiet (h : Quiet compiled s.pc) : Entered compiled s := by
  have hnone : compiled.ruleMap.findIdx? (fun entry => entry.entryAddr = s.pc) = none := by
    rw [List.findIdx?_eq_none_iff]
    intro entry hentry
    simpa using h entry hentry
  rw [Entered, detectRuleTransition, hnone]

/-- The machine stands before a block that no rule begins in. -/
structure At (compiled : CompiledDecision) (s : VmState) (block : List Instr) : Prop where
  code : CodeAt compiled.instructions s.pc block
  running : s.halted = false
  entered : Entered compiled s
  quiet : ∀ q, s.pc < q → q ≤ s.pc + block.length → Quiet compiled q

theorem At.right {b : List Instr} (h : At compiled s (a ++ b)) (hne : a ≠ [])
    (hpc : s'.pc = s.pc + a.length) (hrunning : s'.halted = false) : At compiled s' b := by
  have hpos : 0 < a.length := List.length_pos_of_ne_nil hne
  have hquiet := h.quiet
  rw [List.length_append] at hquiet
  refine ⟨?_, hrunning, entered_of_quiet (hquiet _ (by omega) (by omega)), fun q hq hle => ?_⟩
  · rw [hpc]
    exact (codeAt_append.mp h.code).2
  · exact hquiet q (by omega) (by omega)

theorem At.left {b : List Instr} (h : At compiled s (a ++ b)) : At compiled s a := by
  refine ⟨(codeAt_append.mp h.code).1, h.running, h.entered, fun q hq hle => ?_⟩
  exact h.quiet q hq (by rw [List.length_append]; omega)

include hspans

theorem exists_goes {good : VmState → Prop} (hinstr : compiled.instructions[s.pc]? = some instr)
    (hrunning : s.halted = false) (hentered : Entered compiled s)
    (hexec : ∀ span, ∃ s', execute compiled input source span s instr = some s' ∧ good s') :
    ∃ s', Goes compiled input source s.pc (s.pc + 1) s s' ∧ good s' := by
  have hlt : s.pc < compiled.instructions.length := (List.getElem?_eq_some_iff.mp hinstr).1
  obtain ⟨span, hspan⟩ : ∃ span, compiled.sourceSpans[s.pc]? = some span :=
    ⟨_, List.getElem?_eq_getElem (by omega)⟩
  obtain ⟨s', hs', hgood⟩ := hexec span
  have hstep : step compiled input source s = some s' := by
    rw [step, hspan, hinstr]
    change execute compiled input source span (detectRuleTransition compiled s) instr = some s'
    rw [hentered]
    exact hs'
  have hgoing : ¬ Stopped compiled s := by
    rintro (h | h)
    · simp [hrunning] at h
    · omega
  exact ⟨s', .single ⟨⟨hgoing, hstep⟩, le_rfl, Nat.lt_succ_self _⟩, hgood⟩

end Blocks

section Straight

variable (compiled input source) in
/-- Straight-line code on its own, away from the rest of the code. -/
def runStraight (code : List Instr) (s : VmState) : Option VmState :=
  code.foldlM (fun s instr => execute compiled input source ⟨0, 0⟩ s instr) s

theorem runStraight_cons (instr : Instr) (code : List Instr) (s : VmState) :
    runStraight compiled input source (instr :: code) s =
      (execute compiled input source ⟨0, 0⟩ s instr).bind
        (runStraight compiled input source code) := by
  rw [runStraight, List.foldlM_cons]
  rfl

theorem runStraight_append (a b : List Instr) (s : VmState) :
    runStraight compiled input source (a ++ b) s =
      (runStraight compiled input source a s).bind (runStraight compiled input source b) := by
  rw [runStraight, List.foldlM_append]
  rfl

theorem execute_plain (hplain : IsPlain instr)
    (h : execute compiled input source ⟨0, 0⟩ s instr = some s') :
    (∀ span, execute compiled input source span s instr = some s') ∧ s'.pc = s.pc + 1 ∧
      s'.halted = s.halted := by
  refine ⟨fun span => by cases instr <;> first | exact h | exact hplain.elim, ?_⟩
  cases instr with
  | loadField | pushConstSet | eq | notEq | lt | le | gt | ge | isNull | isNotNull | and | or
  | not =>
    obtain rfl := Option.some.inj h
    exact ⟨rfl, rfl⟩
  | pushConst c =>
    obtain ⟨v, -, hs'⟩ := Option.bind_eq_some_iff.mp h
    obtain rfl := Option.some.inj hs'
    exact ⟨rfl, rfl⟩
  | rangeCheck r =>
    obtain ⟨range, -, hs'⟩ := Option.bind_eq_some_iff.mp h
    obtain rfl := Option.some.inj hs'
    exact ⟨rfl, rfl⟩
  | inSet =>
    simp only [execute, inSet] at h
    split at h
    · split at h
      · simp at h
      · obtain ⟨set, -, hs'⟩ := Option.bind_eq_some_iff.mp h
        obtain rfl := Option.some.inj hs'
        exact ⟨rfl, rfl⟩
    · obtain rfl := Option.some.inj h
      exact ⟨rfl, rfl⟩
  | storeOutputTos field =>
    obtain ⟨stored, hstored, hs'⟩ := Option.bind_eq_some_iff.mp h
    obtain rfl := Option.some.inj hs'
    simp only [storeOutput] at hstored
    split at hstored
    · obtain rfl := Option.some.inj hstored
      exact ⟨rfl, rfl⟩
    · simp at hstored
  | _ => exact hplain.elim

include hspans

theorem goes_straight (hat : At compiled s code) (hplain : ∀ i ∈ code, IsPlain i)
    (hrun : runStraight compiled input source code s = some s') :
    Goes compiled input source s.pc (s.pc + code.length) s s' ∧ s'.pc = s.pc + code.length ∧
      s'.halted = false ∧ Entered compiled s' := by
  induction code generalizing s with
  | nil =>
    obtain rfl := Option.some.inj hrun
    exact ⟨.refl, rfl, hat.running, hat.entered⟩
  | cons instr code ih =>
    obtain ⟨hfirst, hrest⟩ := List.forall_mem_cons.mp hplain
    rw [runStraight_cons] at hrun
    obtain ⟨mid, hmid, hrun⟩ := Option.bind_eq_some_iff.mp hrun
    obtain ⟨hexec, hpc, hhalted⟩ := execute_plain hfirst hmid
    have hrunning : mid.halted = false := hhalted.trans hat.running
    obtain ⟨_, hgoes, rfl⟩ := exists_goes hspans (codeAt_cons.mp hat.code).1 hat.running hat.entered
      fun span => ⟨mid, hexec span, rfl⟩
    have hnext : At compiled mid code :=
      At.right (show At compiled s ([instr] ++ code) from hat) (by simp) hpc hrunning
    obtain ⟨hgoes', hpc', hend⟩ := ih hnext hrest hrun
    rw [hpc] at hgoes' hpc'
    rw [List.length_cons]
    refine ⟨?_, by omega, hend⟩
    exact (hgoes.trans hgoes' (by omega) (by omega)).mono le_rfl (by omega)

end Straight

section Predicates

@[simp]
theorem asBool_bool (b : Bool) : asBool (.bool b) = b := by
  cases b <;> rfl

def after (s : VmState) (code : List Instr) (v : TypedValue) : VmState :=
  { s with pc := s.pc + code.length, dataStack := v :: s.dataStack }

theorem present_cases (input : TypedInputContext) (field : FieldId) :
    (∃ v, v ≠ .null ∧ (input.get field).getD .null = v ∧ present input field = some v) ∨
    ((input.get field).getD .null = .null ∧ present input field = none) := by
  unfold present
  cases input.get field with
  | none => exact Or.inr ⟨rfl, rfl⟩
  | some v =>
    by_cases hv : v = .null
    · exact Or.inr ⟨hv, by simp [hv]⟩
    · exact Or.inl ⟨v, hv, rfl, by simp [hv]⟩

theorem ne_null_of_hasType {ty : ResolvedType} (h : HasType catalogue v ty) : v ≠ .null := by
  rintro rfl
  cases ty <;> exact h

theorem valuesEqual_of_ne_null (hv : v ≠ .null) (hw : w ≠ .null) : valuesEqual v w = v.eq w := by
  cases v <;> cases w <;> first | rfl | contradiction

theorem valuesDiffer_of_ne_null (hv : v ≠ .null) (hw : w ≠ .null) : valuesDiffer v w = !v.eq w := by
  cases v <;> cases w <;> first | rfl | contradiction

def opTest : ComparisonOp → TypedValue → TypedValue → Bool
  | .eq => valuesEqual
  | .notEq => valuesDiffer
  | .lt => compares (· = .lt)
  | .le => compares (· ≠ .gt)
  | .gt => compares (· = .gt)
  | .ge => compares (· ≠ .lt)

theorem execute_comparisonInstr (op : ComparisonOp) (span : SourceSpan) (s : VmState) :
    execute compiled input source span s (comparisonInstr op) = some (binary (opTest op) s) := by
  cases op <;> rfl

theorem opTest_eq (field : FieldId) (op : ComparisonOp) {rhs : TypedValue} (hrhs : rhs ≠ .null) :
    opTest op ((input.get field).getD .null) rhs = evalComparison input field op rhs := by
  unfold evalComparison
  rcases present_cases input field with ⟨v, hv, hget, hpresent⟩ | ⟨hget, hpresent⟩
  · rw [hget, hpresent]
    cases op with
    | eq => exact valuesEqual_of_ne_null hv hrhs
    | notEq => simp [opTest, compareValues, valuesDiffer_of_ne_null hv hrhs, hrhs]
    | lt | le | gt | ge => rfl
  · rw [hget, hpresent]
    cases op <;> rfl

theorem evalRangeCheck_eq (field : FieldId) (range : RangeEntry) :
    evalRangeCheck ((input.get field).getD .null) range =
      evalRange input field range.lower range.upper range.lowerInclusive range.upperInclusive := by
  unfold evalRange
  rcases present_cases input field with ⟨v, hv, hget, hpresent⟩ | ⟨hget, hpresent⟩
  · have hnull : isNull v = false := by
      cases v <;> first | rfl | contradiction
    rw [hget, hpresent]
    simp only [evalRangeCheck, hnull, Bool.not_false, Bool.true_and]
    congr 1
    · rcases range.lower with _ | b
      · rfl
      · dsimp only [meetsBound]
        rcases v.compareNumeric b with _ | (_ | _ | _) <;> rfl
    · rcases range.upper with _ | b
      · rfl
      · dsimp only [meetsBound]
        rcases v.compareNumeric b with _ | (_ | _ | _) <;> rfl
  · rw [hget, hpresent]
    rfl

theorem any_canonicalSet (field : FieldId) {values : List TypedValue}
    (hvalues : ∀ v ∈ values, Fits v) (hnull : ∀ v ∈ values, v ≠ .null) :
    (canonicalSet values).any (valuesEqual ((input.get field).getD .null)) =
      evalInSet input field values := by
  have hany : ∀ f : TypedValue → Bool, (canonicalSet values).any f = values.any f := by
    intro f
    rw [Bool.eq_iff_iff, List.any_eq_true, List.any_eq_true]
    simp only [mem_canonicalSet hvalues]
  unfold evalInSet
  rw [hany]
  rcases present_cases input field with ⟨v, hv, hget, hpresent⟩ | ⟨hget, hpresent⟩
  · rw [hget, hpresent]
    rw [Bool.eq_iff_iff, List.any_eq_true, List.any_eq_true]
    refine exists_congr fun w => and_congr_right fun hw => ?_
    rw [valuesEqual_of_ne_null hv (hnull w hw)]
  · rw [hget, hpresent]
    simp [valuesEqual]

theorem isNull_eq (field : FieldId) :
    isNull ((input.get field).getD .null) = evalIsNull input field := by
  unfold evalIsNull
  rcases present_cases input field with ⟨v, hv, hget, hpresent⟩ | ⟨hget, hpresent⟩
  · rw [hget, hpresent]
    cases v <;> first | rfl | contradiction
  · rw [hget, hpresent]
    rfl

theorem evalIsNotNull_eq (field : FieldId) : evalIsNotNull input field = !evalIsNull input field := by
  unfold evalIsNotNull evalIsNull
  cases present input field <;> rfl

theorem runStraight_loadField (field : FieldId) (code : List Instr) (s : VmState) :
    runStraight compiled input source (.loadField field :: code) s =
      runStraight compiled input source code (advance (push s ((input.get field).getD .null))) :=
  rfl

theorem runStraight_pushConst {c : ConstId} (h : compiled.constPool[c]? = some v)
    (code : List Instr) (s : VmState) :
    runStraight compiled input source (.pushConst c :: code) s =
      runStraight compiled input source code (advance (push s v)) := by
  rw [runStraight_cons, execute, h]
  rfl

def Leaves (compiled : CompiledDecision) (input : TypedInputContext) (source : String)
    (p : TypedPredicate) : Prop :=
  ∀ s, runStraight compiled input source (codeOf (poolsOf compiled) p) s =
    some (after s (codeOf (poolsOf compiled) p) (.bool (evalPredicate input p)))

theorem runStraight_operandsCode
    (hexec : ∀ s, execute compiled input source ⟨0, 0⟩ s instr =
      some (binary (fun a b => f (asBool a) (asBool b)) s))
    (hitems : ∀ p ∈ items, Leaves compiled input source p) (s : VmState) (b : Bool) :
    runStraight compiled input source (operandsCode (poolsOf compiled) instr items)
        (push s (.bool b)) =
      some (after s (operandsCode (poolsOf compiled) instr items)
        (.bool (items.foldl (fun b p => f b (evalPredicate input p)) b))) := by
  induction items generalizing s b with
  | nil => rfl
  | cons p items ih =>
    obtain ⟨hp, hitems⟩ := List.forall_mem_cons.mp hitems
    rw [operandsCode, runStraight_append, hp, Option.bind_some, runStraight_cons, hexec,
      Option.bind_some]
    have hcombined : binary (fun a b => f (asBool a) (asBool b))
        (after (push s (.bool b)) (codeOf (poolsOf compiled) p) (.bool (evalPredicate input p))) =
        push { s with pc := s.pc + (codeOf (poolsOf compiled) p).length + 1 }
          (.bool (f b (evalPredicate input p))) := by
      simp [binary, after, push, pop, top, advance]
    rw [hcombined, ih hitems]
    simp only [after, List.length_append, List.length_cons, List.foldl_cons, Option.some.injEq,
      VmState.mk.injEq, and_true]
    omega

theorem runStraight_junctionCode
    (hexec : ∀ s, execute compiled input source ⟨0, 0⟩ s instr =
      some (binary (fun a b => f (asBool a) (asBool b)) s))
    {first : TypedPredicate} (hitems : ∀ p ∈ first :: items, Leaves compiled input source p)
    (s : VmState) :
    runStraight compiled input source (junctionCode (poolsOf compiled) instr (first :: items)) s =
      some (after s (junctionCode (poolsOf compiled) instr (first :: items))
        (.bool (items.foldl (fun b p => f b (evalPredicate input p)) (evalPredicate input first)))) := by
  obtain ⟨hfirst, hitems⟩ := List.forall_mem_cons.mp hitems
  rw [junctionCode, runStraight_append, hfirst, Option.bind_some]
  have hpushed : after s (codeOf (poolsOf compiled) first) (.bool (evalPredicate input first)) =
      push { s with pc := s.pc + (codeOf (poolsOf compiled) first).length }
        (.bool (evalPredicate input first)) := rfl
  rw [hpushed, runStraight_operandsCode hexec hitems]
  simp [after, Nat.add_assoc]

theorem foldl_and (items : List TypedPredicate) (b : Bool) :
    items.foldl (fun b p => b && evalPredicate input p) b =
      (b && items.all (evalPredicate input)) := by
  induction items generalizing b with
  | nil => simp
  | cons p items ih => rw [List.foldl_cons, ih, List.all_cons, Bool.and_assoc]

theorem foldl_or (items : List TypedPredicate) (b : Bool) :
    items.foldl (fun b p => b || evalPredicate input p) b =
      (b || items.any (evalPredicate input)) := by
  induction items generalizing b with
  | nil => simp
  | cons p items ih => rw [List.foldl_cons, ih, List.any_cons, Bool.or_assoc]

theorem leaves_codeOf {p : TypedPredicate} (hholds : Holds (poolsOf compiled) p)
    (htyped : p.WellTyped catalogue compiled.inputSchema) (hshape : p.WellShaped) :
    Leaves compiled input source p := by
  intro s
  induction p generalizing s with
  | comparison field op rhs span =>
    obtain ⟨entry, -, hrhs, -⟩ := htyped
    have hconst : compiled.constPool[(poolsOf compiled).const rhs]? = some rhs := hholds
    have htest := @opTest_eq input field op rhs (ne_null_of_hasType hrhs)
    rw [codeOf, runStraight_loadField, runStraight_pushConst hconst, runStraight_cons,
      execute_comparisonInstr, evalPredicate, ← htest]
    rfl
  | inSet field values span =>
    obtain ⟨entry, -, hvalues⟩ := htyped
    have hset : compiled.constSetPool[(poolsOf compiled).set values]? =
      some (canonicalSet values) := hholds
    have hany := @any_canonicalSet input field values (fun v hv => fits_of_hasType (hvalues v hv))
      fun v hv => ne_null_of_hasType (hvalues v hv)
    rw [codeOf, runStraight_loadField, runStraight_cons, execute, evalPredicate, ← hany]
    simp [inSet, push, pop, top, advance, hset, runStraight, after, execute]
  | range field lower upper lowerInclusive upperInclusive span =>
    have hrange : compiled.rangePool[(poolsOf compiled).range
      ⟨lower, upper, lowerInclusive, upperInclusive⟩]? = _ := hholds
    have hcheck := @evalRangeCheck_eq input field ⟨lower, upper, lowerInclusive, upperInclusive⟩
    rw [codeOf, runStraight_loadField, runStraight_cons, execute, hrange, evalPredicate, ← hcheck]
    rfl
  | isNull field span =>
    rw [codeOf, runStraight_loadField, evalPredicate, ← isNull_eq]
    rfl
  | isNotNull field span =>
    rw [codeOf, runStraight_loadField, evalPredicate, evalIsNotNull_eq, ← isNull_eq]
    rfl
  | not inner span ih =>
    rw [codeOf, runStraight_append, ih hholds htyped hshape]
    simp [runStraight, execute, after, unary, top, pop, push, advance, evalPredicate,
      Nat.add_assoc]
  | and items span ih | or items span ih =>
    obtain _ | ⟨first, items⟩ := items
    · simp [TypedPredicate.WellShaped, TypedPredicate.Every] at hshape
    have hitems : ∀ p ∈ first :: items, Leaves compiled input source p := fun p hp =>
      ih p hp (TypedPredicate.everyAll_iff.mp hholds.2 p hp)
        (TypedPredicate.everyAll_iff.mp htyped.2 p hp)
        (TypedPredicate.everyAll_iff.mp hshape.2 p hp)
    rw [codeOf, runStraight_junctionCode (fun _ => rfl) hitems, evalPredicate,
      evalPredicates_eq_map]
    simp [foldl_and, foldl_or]

end Predicates

section Rules

def refused (s : VmState) (next : ℕ) (trace : RuleTrace) : VmState :=
  { s with
    pc := next, ruleTraces := s.ruleTraces ++ [trace], currentRulePredicates := []
    currentRuleIdx := none }

def tested (s : VmState) (pc : ℕ) (traces : List PredicateTrace) : VmState :=
  { s with pc, currentRulePredicates := traces }

def stored (output : List (Option TypedValue)) (assigns : List TypedAssignment) :
    List (Option TypedValue) :=
  assigns.foldl (fun output a => output.set a.outputField (some a.value)) output

theorem runStraight_storesCode {assigns : List TypedAssignment}
    (hfound : ∀ a ∈ assigns, Found serializeTypedValue (poolsOf compiled).consts a.value)
    (hfields : ∀ a ∈ assigns, a.outputField < s.output.length) :
    runStraight compiled input source (storesCode (poolsOf compiled) assigns) s =
      some { s with
        pc := s.pc + (storesCode (poolsOf compiled) assigns).length
        output := stored s.output assigns } := by
  induction assigns generalizing s with
  | nil => rfl
  | cons a assigns ih =>
    obtain ⟨hfirst, hfound⟩ := List.forall_mem_cons.mp hfound
    obtain ⟨hfield, hfields⟩ := List.forall_mem_cons.mp hfields
    have hconst : compiled.constPool[(poolsOf compiled).const a.value]? = some a.value := hfirst
    have hstore : execute compiled input source ⟨0, 0⟩ (advance (push s a.value))
        (.storeOutputTos a.outputField) =
        some { s with pc := s.pc + 2, output := s.output.set a.outputField (some a.value) } := by
      simp [execute, storeOutput, pop, push, top, advance, hfield]
    have hcons : storesCode (poolsOf compiled) (a :: assigns) =
        .pushConst ((poolsOf compiled).const a.value) :: .storeOutputTos a.outputField ::
          storesCode (poolsOf compiled) assigns := rfl
    rw [hcons, runStraight_pushConst hconst, runStraight_cons, hstore, Option.bind_some,
      ih hfound (by simpa using hfields)]
    simp only [List.length_cons, stored, List.foldl_cons, Option.some.injEq, VmState.mk.injEq,
      and_true]
    omega

theorem isPlain_storesCode (Q : Pools) (assigns : List TypedAssignment) :
    ∀ i ∈ storesCode Q assigns, IsPlain i := by
  intro i hi
  obtain ⟨a, -, hi⟩ := List.mem_flatMap.mp hi
  rcases List.mem_cons.mp hi with rfl | hi
  · trivial
  · obtain rfl := List.mem_singleton.mp hi
    trivial

/-- The outcome of tests that end at `pc` when all hold and lead to `next` when one fails. -/
def Tested (entry : RuleMapEntry) (next pc : ℕ) (s : VmState) (result : Bool) (s' : VmState) : Prop :=
  if result then ∃ traces, s' = tested s pc traces
  else ∃ trace, s' = refused s next trace ∧ trace.ruleId = entry.ruleId ∧ trace.matched = false

theorem finaliseNonMatchingRule_refused (hidx : s.currentRuleIdx = some idx)
    (hentry : compiled.ruleMap[idx]? = some entry) :
    ∃ trace, finaliseNonMatchingRule compiled s = some (refused s s.pc trace) ∧
      trace.ruleId = entry.ruleId ∧ trace.matched = false := by
  refine ⟨⟨entry.ruleId, entry.ruleName, false, s.currentRulePredicates, entry.sourceSpan⟩, ?_,
    rfl, rfl⟩
  rw [finaliseNonMatchingRule, hidx]
  simp [hentry, refused]

theorem execute_brFalse (hidx : s.currentRuleIdx = some idx)
    (hentry : compiled.ruleMap[idx]? = some entry) (code : List Instr) (next : ℕ) (result : Bool)
    (span : SourceSpan) :
    ∃ s', execute compiled input source span (after s code (.bool result)) (.brFalse next) =
        some s' ∧
      Tested entry next (s.pc + code.length + 1) s result s' := by
  cases result with
  | true => exact ⟨_, rfl, _, rfl⟩
  | false =>
    obtain ⟨trace, hfinal, htrace⟩ := @finaliseNonMatchingRule_refused compiled
      (recordPredicateTrace source (pop (after s code (.bool false))) false span) idx entry hidx hentry
    refine ⟨refused s next trace, ?_, trace, rfl, htrace⟩
    have hexec : execute compiled input source span (after s code (.bool false)) (.brFalse next) =
        (finaliseNonMatchingRule compiled (recordPredicateTrace source
          (pop (after s code (.bool false))) false span)).bind fun s => some { s with pc := next } := by
      rfl
    rw [hexec, hfinal]
    rfl

include hspans

theorem goes_test {p : TypedPredicate} (hleaves : Leaves compiled input source p)
    (hplain : ∀ i ∈ codeOf (poolsOf compiled) p, IsPlain i) (hne : codeOf (poolsOf compiled) p ≠ [])
    (hat : At compiled s (codeOf (poolsOf compiled) p ++ [.brFalse next]))
    (hidx : s.currentRuleIdx = some idx) (hentry : compiled.ruleMap[idx]? = some entry) :
    ∃ s', Goes compiled input source s.pc
        (s.pc + (codeOf (poolsOf compiled) p).length + 1) s s' ∧
      Tested entry next (s.pc + (codeOf (poolsOf compiled) p).length + 1) s
        (evalPredicate input p) s' := by
  obtain ⟨hgoes, hpc, hrunning, -⟩ := goes_straight hspans hat.left hplain (hleaves s)
  have hat' := hat.right hne hpc hrunning
  obtain ⟨s', hgoes', hs'⟩ := exists_goes hspans (codeAt_cons.mp hat'.code).1 hat'.running
    hat'.entered (execute_brFalse hidx hentry (codeOf (poolsOf compiled) p) next
      (evalPredicate input p))
  rw [hpc] at hgoes'
  exact ⟨s', hgoes.trans hgoes' (by omega) (by omega), hs'⟩

theorem goes_testsCode (hleaves : ∀ p ∈ preds, Leaves compiled input source p)
    (hplain : ∀ p ∈ preds, (∀ i ∈ codeOf (poolsOf compiled) p, IsPlain i) ∧
      codeOf (poolsOf compiled) p ≠ [])
    (hat : At compiled s (testsCode (poolsOf compiled) next preds))
    (hidx : s.currentRuleIdx = some idx) (hentry : compiled.ruleMap[idx]? = some entry) :
    ∃ s', Goes compiled input source s.pc
        (s.pc + (testsCode (poolsOf compiled) next preds).length) s s' ∧
      Tested entry next (s.pc + (testsCode (poolsOf compiled) next preds).length) s
        (preds.all (evalPredicate input)) s' ∧
      (preds.all (evalPredicate input) = true → Entered compiled s') := by
  induction preds generalizing s with
  | nil => exact ⟨s, .refl, ⟨s.currentRulePredicates, rfl⟩, fun _ => hat.entered⟩
  | cons p preds ih =>
    obtain ⟨hfirst, hleaves⟩ := List.forall_mem_cons.mp hleaves
    obtain ⟨⟨hcode, hne⟩, hplain⟩ := List.forall_mem_cons.mp hplain
    have hcons : testsCode (poolsOf compiled) next (p :: preds) =
        (codeOf (poolsOf compiled) p ++ [.brFalse next]) ++
          testsCode (poolsOf compiled) next preds := rfl
    rw [hcons] at hat ⊢
    have hlen : ((codeOf (poolsOf compiled) p ++ [Instr.brFalse next]) ++
        testsCode (poolsOf compiled) next preds).length = (codeOf (poolsOf compiled) p).length + 1 +
          (testsCode (poolsOf compiled) next preds).length := by
      simp only [List.length_append, List.length_singleton]
    obtain ⟨mid, hgoes, hmid⟩ := goes_test hspans hfirst hcode hne hat.left hidx hentry
    rw [hlen, List.all_cons, ← Nat.add_assoc, ← Nat.add_assoc]
    cases hp : evalPredicate input p with
    | false =>
      rw [hp] at hmid
      exact ⟨mid, hgoes.mono le_rfl (by omega), hmid, by simp⟩
    | true =>
      rw [hp] at hmid
      obtain ⟨traces, rfl⟩ := hmid
      have hpc : (tested s (s.pc + (codeOf (poolsOf compiled) p).length + 1) traces).pc =
          s.pc + (codeOf (poolsOf compiled) p ++ [Instr.brFalse next]).length := by
        rw [List.length_append]
        rfl
      obtain ⟨s', hgoes', hs'⟩ := ih hleaves hplain (hat.right (by simp) hpc hat.running) hidx
      exact ⟨s', hgoes.trans hgoes' (by omega) (Nat.le_add_right _ _), hs'⟩

end Rules

section Rule

def accepted (s : VmState) (rule : RuleId) (trace : RuleTrace) : VmState :=
  { s with
    pc := s.pc + 1, matchedRules := s.matchedRules ++ [rule]
    ruleTraces := s.ruleTraces ++ [trace], currentRulePredicates := [], currentRuleIdx := none }

theorem execute_ruleMatched (hidx : s.currentRuleIdx = some idx)
    (hentry : compiled.ruleMap[idx]? = some entry) (rule : RuleId) (span : SourceSpan) :
    ∃ s', execute compiled input source span s (.ruleMatched rule) = some s' ∧
      ∃ trace, s' = accepted s rule trace ∧ trace.ruleId = rule ∧ trace.matched = true := by
  refine ⟨_, ?_, ⟨rule, entry.ruleName, true, if s.currentRulePredicates = [] then
    [{ result := true, sourceSpan := entry.sourceSpan, description := "catch-all" }]
    else s.currentRulePredicates, entry.sourceSpan⟩, rfl, rfl, rfl⟩
  simp [execute, finaliseMatchingRule, hidx, hentry, accepted, advance]

def enter (s : VmState) (idx : ℕ) : VmState :=
  { s with currentRuleIdx := some idx, currentRulePredicates := [] }

theorem detect_eq_enter
    (hfind : compiled.ruleMap.findIdx? (fun entry => entry.entryAddr = s.pc) = some idx) :
    detectRuleTransition compiled s = enter s idx := by
  rw [detectRuleTransition, hfind]
  rfl

theorem goes_of_enter
    (hfind : compiled.ruleMap.findIdx? (fun entry => entry.entryAddr = s.pc) = some idx)
    (h : Goes compiled input source lo hi (enter s idx) s') (hpc : s'.pc ≠ s.pc) :
    Goes compiled input source lo hi s s' := by
  have hstep : step compiled input source s = step compiled input source (enter s idx) := by
    have hagain : detectRuleTransition compiled (enter s idx) = enter s idx := detect_eq_enter hfind
    rw [step, step, detect_eq_enter hfind, hagain]
    rfl
  rcases Relation.ReflTransGen.cases_head h with rfl | ⟨mid, ⟨⟨hgoing, hmid⟩, hlo, hhi⟩, hrest⟩
  · exact (hpc rfl).elim
  · exact .head ⟨⟨hgoing, hstep.trans hmid⟩, hlo, hhi⟩ hrest

structure RuleDone (input : TypedInputContext) (policy : HitPolicy) (rule : TypedRule)
    (next stop : ℕ) (s s' : VmState) : Prop where
  stack : s'.dataStack = s.dataStack
  running : s'.halted = false
  trace : ∃ trace, s'.ruleTraces = s.ruleTraces ++ [trace] ∧ trace.ruleId = rule.ruleId ∧
    trace.matched = matchesRule input rule
  pc : s'.pc = if matchesRule input rule = true ∧ policy = .first then stop else next
  matchedRules : s'.matchedRules =
    s.matchedRules ++ if matchesRule input rule then [rule.ruleId] else []
  output : s'.output =
    if matchesRule input rule then stored s.output rule.assigns else s.output

/-- Where a rule stands: its entry in the rule map is found first at its address, and no other rule
begins inside its code. -/
structure RuleAt (compiled : CompiledDecision) (policy : HitPolicy) (rule : TypedRule)
    (start stop idx : ℕ) : Prop where
  code : CodeAt compiled.instructions start (ruleCode (poolsOf compiled) policy rule
    (start + ruleSize (poolsOf compiled) policy rule) stop)
  find : compiled.ruleMap.findIdx? (fun entry => entry.entryAddr = start) = some idx
  entry : ∃ entry, compiled.ruleMap[idx]? = some entry ∧ entry.ruleId = rule.ruleId
  quiet : ∀ q, start < q → q < start + ruleSize (poolsOf compiled) policy rule → Quiet compiled q
  below : start + ruleSize (poolsOf compiled) policy rule ≤ stop

/-- A rule as the machine needs it. -/
structure RuleSound (compiled : CompiledDecision) (input : TypedInputContext) (source : String)
    (rule : TypedRule) : Prop where
  leaves : ∀ p ∈ rule.when.preds, Leaves compiled input source p
  plain : ∀ p ∈ rule.when.preds, (∀ i ∈ codeOf (poolsOf compiled) p, IsPlain i) ∧
    codeOf (poolsOf compiled) p ≠ []
  values : ∀ a ∈ rule.assigns, Found serializeTypedValue (poolsOf compiled).consts a.value
  fields : ∀ a ∈ rule.assigns, a.outputField < compiled.outputSchema.length

theorem matchesRule_eq (input : TypedInputContext) (rule : TypedRule) :
    matchesRule input rule = rule.when.preds.all (evalPredicate input) := by
  unfold matchesRule
  cases rule.when <;> rfl

include hspans

theorem goes_br (hinstr : compiled.instructions[s.pc]? = some (.br stop))
    (hrunning : s.halted = false) (hentered : Entered compiled s) :
    Goes compiled input source s.pc (s.pc + 1) s { s with pc := stop } := by
  obtain ⟨_, hgoes, rfl⟩ := @exists_goes compiled input source s _ hspans (· = { s with pc := stop })
    hinstr hrunning hentered fun span => ⟨_, rfl, rfl⟩
  exact hgoes

theorem goes_accept (hsound : RuleSound compiled input source rule)
    (hcode : CodeAt compiled.instructions s.pc
      (storesCode (poolsOf compiled) rule.assigns ++ .ruleMatched rule.ruleId :: exitCode policy
      stop))
    (hrunning : s.halted = false) (hentered : Entered compiled s)
    (hidx : s.currentRuleIdx = some idx) (hentry : compiled.ruleMap[idx]? = some entry)
    (hquiet : ∀ q, s.pc < q → q < s.pc + (storesCode (poolsOf compiled) rule.assigns ++ .ruleMatched
      rule.ruleId :: exitCode policy stop).length → Quiet compiled q)
    (hlen : s.output.length = compiled.outputSchema.length) :
    ∃ s' trace, Goes compiled input source s.pc (s.pc + (storesCode (poolsOf compiled) rule.assigns ++
        .ruleMatched rule.ruleId :: exitCode policy stop).length) s s' ∧
      trace.ruleId = rule.ruleId ∧ trace.matched = true ∧
      s' = { accepted { s with output := stored s.output rule.assigns } rule.ruleId trace with
        pc := if policy = .first then stop else
          s.pc + (storesCode (poolsOf compiled) rule.assigns).length + 1 } := by
  rw [List.length_append, List.length_cons] at hquiet ⊢
  obtain ⟨hstores, hrest⟩ := codeAt_append.mp hcode
  obtain ⟨hmatched, hexit⟩ := codeAt_cons.mp hrest
  have hat : At compiled s (storesCode (poolsOf compiled) rule.assigns) :=
    ⟨hstores, hrunning, hentered, fun q hq hle => hquiet q hq (by omega)⟩
  obtain ⟨hgoes, hpc, hrunning', hentered'⟩ := goes_straight hspans hat
    (isPlain_storesCode _ rule.assigns)
    (@runStraight_storesCode compiled input source s _ hsound.values fun a ha => by
      rw [hlen]; exact hsound.fields a ha)
  obtain ⟨_, hgoes', trace, rfl, hid, hflag⟩ := exists_goes hspans hmatched hrunning' hentered'
    fun span => execute_ruleMatched (by exact hidx) hentry rule.ruleId span
  have hboth := hgoes.trans hgoes' (by omega) (Nat.le_succ _)
  cases policy with
  | unique => exact ⟨_, trace, hboth, hid, hflag, rfl⟩
  | first =>
    -- one more round for the branch to the end
    generalize ht : accepted _ rule.ruleId trace = t at hboth
    have hpc : t.pc = s.pc + (storesCode (poolsOf compiled) rule.assigns).length + 1 := by
      rw [← ht]
      rfl
    have hbr := @goes_br compiled input source t stop hspans (hpc ▸ (codeAt_cons.mp hexit).1)
      (ht ▸ hrunning)
      (entered_of_quiet (hquiet t.pc (by omega) (by rw [hpc]; simp [exitCode]; omega)))
    rw [← hpc] at hboth
    refine ⟨_, trace, hboth.trans (hbr.mono le_rfl ?_) (by omega) ?_, hid, hflag, ?_⟩
    · simp [exitCode]
      omega
    · simp [exitCode]
      omega
    · rw [← ht]
      rfl

theorem goes_rule (hsound : RuleSound compiled input source rule)
    (hat : RuleAt compiled policy rule s.pc stop idx) (hrunning : s.halted = false)
    (hlen : s.output.length = compiled.outputSchema.length) :
    ∃ s', Goes compiled input source s.pc (s.pc + ruleSize (poolsOf compiled) policy rule) s s' ∧
      RuleDone input policy rule (s.pc + ruleSize (poolsOf compiled) policy rule) stop s s' := by
  obtain ⟨hcode, hfind, ⟨entry, hentry, hid⟩, hquiet, hbelow⟩ := hat
  generalize hnext : s.pc + ruleSize (poolsOf compiled) policy rule = next at *
  have hsize : (testsCode (poolsOf compiled) next rule.when.preds).length +
      (storesCode (poolsOf compiled) rule.assigns).length + 1 + (exitCode policy stop).length =
      ruleSize (poolsOf compiled) policy rule := by
    rw [← length_ruleCode _ _ _ next stop, ruleCode]
    simp only [List.length_append, List.length_cons]
    omega
  rw [ruleCode, codeAt_append] at hcode
  have hat : At compiled (enter s idx) (testsCode (poolsOf compiled) next rule.when.preds) :=
    ⟨hcode.1, hrunning, detect_eq_enter hfind, fun q hq hle => hquiet q hq (by
      change q ≤ s.pc + _ at hle
      omega)⟩
  obtain ⟨mid, hgoes, hresult, hentered⟩ := goes_testsCode hspans hsound.leaves hsound.plain hat
    rfl hentry
  rw [← matchesRule_eq] at hresult hentered
  cases hmatches : matchesRule input rule with
  | false =>
    rw [hmatches] at hresult
    obtain ⟨trace, rfl, htrace, hflag⟩ := hresult
    have hgoes' := goes_of_enter hfind (hgoes.mono le_rfl (show _ ≤ next by
      change s.pc + _ ≤ next
      omega)) (show next ≠ s.pc by omega)
    refine ⟨_, hgoes', rfl, hrunning, ⟨trace, rfl, htrace.trans hid, ?_⟩, ?_, ?_, ?_⟩
    · rw [hflag, hmatches]
    · rw [hmatches]
      rfl
    · simp [hmatches, refused, enter]
    · rw [hmatches]
      rfl
  | true =>
    rw [hmatches] at hresult
    obtain ⟨traces, rfl⟩ := hresult
    generalize testsCode (poolsOf compiled) next rule.when.preds = tests at *
    have hstart : ∀ n : ℕ, (tested (enter s idx) ((enter s idx).pc + tests.length) traces).pc + n =
        s.pc + tests.length + n := fun _ => rfl
    obtain ⟨s', trace, hrest, htrace, hflag, rfl⟩ := goes_accept hspans hsound (by exact hcode.2)
      (by exact hrunning) (hentered hmatches) rfl hentry (fun q hq hlt => hquiet q (by
        have := hstart 0
        omega) (by
        rw [List.length_append, List.length_cons, hstart] at hlt
        omega)) hlen
    have hall := hgoes.trans hrest (by omega) (Nat.le_add_right _ _)
    have hend : s.pc + tests.length + (storesCode (poolsOf compiled) rule.assigns ++
        .ruleMatched rule.ruleId :: exitCode policy stop).length = next := by
      rw [List.length_append, List.length_cons]
      omega
    rw [hstart, hend] at hall
    have hpc : (if policy = .first then stop else
        (tested (enter s idx) ((enter s idx).pc + tests.length) traces).pc +
          (storesCode (poolsOf compiled) rule.assigns).length + 1) =
        if true = true ∧ policy = .first then stop else next := by
      cases policy with
      | first => rfl
      | unique =>
        simp only [exitCode, List.length_nil, reduceCtorEq, if_false, and_false, hstart] at hsize ⊢
        omega
    have hne : (if true = true ∧ policy = .first then stop else next) ≠ s.pc := by
      split <;> omega
    refine ⟨_, goes_of_enter hfind hall fun h => hne (hpc.symm.trans h), rfl, hrunning,
      ⟨trace, rfl, htrace, ?_⟩, ?_, ?_, ?_⟩
    · rw [hflag, hmatches]
    · rw [hmatches, ← hpc]
    · rw [hmatches]
      rfl
    · rw [hmatches]
      rfl

end Rule

section Run

/-- The rules the machine enters: under FIRST it leaves after the first match. -/
def considered (policy : HitPolicy) (input : TypedInputContext) : List TypedRule → List TypedRule
  | [] => []
  | rule :: rules =>
    rule :: if matchesRule input rule = true ∧ policy = .first then [] else
      considered policy input rules

def RulesAt (compiled : CompiledDecision) (policy : HitPolicy) (stop : ℕ) :
    ℕ → ℕ → List TypedRule → Prop
  | start, _, [] => start = stop
  | start, idx, rule :: rules => RuleAt compiled policy rule start stop idx ∧
    RulesAt compiled policy stop (start + ruleSize (poolsOf compiled) policy rule) (idx + 1) rules

structure RulesDone (input : TypedInputContext) (rules : List TypedRule) (stop : ℕ)
    (s s' : VmState) : Prop where
  pc : s'.pc = stop
  running : s'.halted = false
  traces : s'.ruleTraces.map (fun t => (t.ruleId, t.matched)) =
    s.ruleTraces.map (fun t => (t.ruleId, t.matched)) ++
      rules.map fun rule => (rule.ruleId, matchesRule input rule)
  matchedRules : s'.matchedRules =
    s.matchedRules ++ (rules.filter (matchesRule input)).map (·.ruleId)
  output : s'.output =
    (rules.filter (matchesRule input)).foldl (fun output rule => stored output rule.assigns) s.output

theorem RulesDone.nil (hpc : s.pc = stop) (hrunning : s.halted = false) :
    RulesDone input [] stop s s :=
  ⟨hpc, hrunning, by simp, by simp, rfl⟩

theorem RulesDone.cons {mid : VmState} (hrule : RuleDone input policy rule next stop s mid)
    (hrules : RulesDone input rules stop mid s') : RulesDone input (rule :: rules) stop s s' where
  pc := hrules.pc
  running := hrules.running
  traces := by
    obtain ⟨trace, htraces, hid, hflag⟩ := hrule.trace
    rw [hrules.traces, htraces, List.map_append, List.append_assoc]
    simp [hid, hflag]
  matchedRules := by
    rw [hrules.matchedRules, hrule.matchedRules, List.filter_cons]
    split <;> simp
  output := by
    rw [hrules.output, hrule.output, List.filter_cons]
    split <;> rfl

theorem ruleSize_pos (Q : Pools) (policy : HitPolicy) (rule : TypedRule) :
    0 < ruleSize Q policy rule := by
  simp only [ruleSize, ruleCode, List.length_append, List.length_cons]
  omega

theorem ruleEntries_ge {Q : Pools} (hmem : entry ∈ ruleEntries Q policy start rules) :
    start ≤ entry.entryAddr := by
  induction rules generalizing start with
  | nil => simp [ruleEntries] at hmem
  | cons rule rules ih =>
    rcases List.mem_cons.mp hmem with rfl | hmem
    · exact le_rfl
    · exact (Nat.le_add_right _ _).trans (ih hmem)

theorem RulesAt.entry_lt (hat : RulesAt compiled policy stop start idx rules)
    (hmem : entry ∈ ruleEntries (poolsOf compiled) policy start rules) :
    entry.entryAddr < stop := by
  induction rules generalizing start idx with
  | nil => simp [ruleEntries] at hmem
  | cons rule rules ih =>
    rcases List.mem_cons.mp hmem with rfl | hmem
    · exact (Nat.lt_add_of_pos_right (ruleSize_pos _ _ _)).trans_le hat.1.below
    · exact ih hat.2 hmem

theorem length_stored (output : List (Option TypedValue)) (assigns : List TypedAssignment) :
    (stored output assigns).length = output.length := by
  induction assigns generalizing output with
  | nil => rfl
  | cons a assigns ih =>
    rw [stored, List.foldl_cons]
    exact (ih _).trans List.length_set

variable (hend : compiled.instructions[stop]? = some .endDecision)

include hspans hend

theorem moves_end (hpc : s.pc = stop) (hrunning : s.halted = false) :
    ∃ s', Moves compiled input source s s' ∧ s'.halted = true ∧ s'.pc = stop ∧
      s'.matchedRules = s.matchedRules ∧ s'.output = s.output ∧ s'.ruleTraces = s.ruleTraces := by
  have hlt : stop < compiled.instructions.length := (List.getElem?_eq_some_iff.mp hend).1
  obtain ⟨span, hspan⟩ : ∃ span, compiled.sourceSpans[stop]? = some span :=
    ⟨_, List.getElem?_eq_getElem (by omega)⟩
  have hsame : (detectRuleTransition compiled s).pc = s.pc ∧
      (detectRuleTransition compiled s).matchedRules = s.matchedRules ∧
      (detectRuleTransition compiled s).output = s.output ∧
      (detectRuleTransition compiled s).ruleTraces = s.ruleTraces := by
    unfold detectRuleTransition
    split <;> exact ⟨rfl, rfl, rfl, rfl⟩
  refine ⟨{ detectRuleTransition compiled s with halted := true }, ⟨?_, ?_⟩, rfl,
    hsame.1.trans hpc, hsame.2⟩
  · rintro (h | h)
    · simp [hrunning] at h
    · omega
  · rw [step, hpc, hspan, hend]
    rfl

theorem visits_end (hpc : s.pc = stop) (hrunning : s.halted = false)
    (hu : Relation.ReflTransGen (Moves compiled input source) s u) : u.pc = stop := by
  obtain ⟨s', hmove, hhalted, hpc', -⟩ := @moves_end compiled input source s stop hspans hend hpc
    hrunning
  rcases hu.cases_head with rfl | ⟨m, hm, hrest⟩
  · exact hpc
  · obtain rfl := Option.some.inj (hmove.2.symm.trans hm.2)
    have hstopped : Stopped compiled s' := Or.inl hhalted
    rw [hstopped.visits hrest]
    exact hpc'

theorem goes_rules (hsound : ∀ rule ∈ rules, RuleSound compiled input source rule)
    (hat : RulesAt compiled policy stop s.pc idx rules) (hrunning : s.halted = false)
    (hlen : s.output.length = compiled.outputSchema.length) :
    ∃ s', Goes compiled input source s.pc stop s s' ∧
      RulesDone input (considered policy input rules) stop s s' ∧
      ∀ u, Relation.ReflTransGen (Moves compiled input source) s u → s.pc ≤ u.pc ∧
        ∀ (k : ℕ) (entry : RuleMapEntry),
          (ruleEntries (poolsOf compiled) policy s.pc rules)[k]? = some entry →
          u.pc = entry.entryAddr → k < (considered policy input rules).length := by
  induction rules generalizing s idx with
  | nil =>
    have hpc : s.pc = stop := hat
    refine ⟨s, .refl, .nil hpc hrunning, fun u hu => ⟨?_, by simp [ruleEntries]⟩⟩
    rw [visits_end hspans hend hpc hrunning hu, hpc]
  | cons rule rules ih =>
    obtain ⟨hfirst, hsound⟩ := List.forall_mem_cons.mp hsound
    obtain ⟨hrule, hrest⟩ := hat
    obtain ⟨mid, hgoes, hdone⟩ := goes_rule hspans hfirst hrule hrunning hlen
    have hpos := ruleSize_pos (poolsOf compiled) policy rule
    have hbelow := hrule.below
    have hpc := hdone.pc
    -- inside the code of the rule only its own entry is met
    have hinside : ∀ u : VmState, u.pc < s.pc + ruleSize (poolsOf compiled) policy rule →
        ∀ (k : ℕ) (entry : RuleMapEntry),
          (ruleEntries (poolsOf compiled) policy s.pc (rule :: rules))[k]? = some entry →
          u.pc = entry.entryAddr → k = 0 := by
      intro u hu k entry hentry heq
      cases k with
      | zero => rfl
      | succ k =>
        have hge := ruleEntries_ge (List.mem_of_getElem? (show
          (ruleEntries (poolsOf compiled) policy _ rules)[k]? = some entry from hentry))
        omega
    rw [considered]
    split
    case isTrue hleave =>
      rw [if_pos hleave] at hpc
      refine ⟨mid, hgoes.mono le_rfl hbelow, .cons hdone (.nil hpc hdone.running), fun u hu => ?_⟩
      rcases hgoes.visits hu with ⟨hge, hlt⟩ | hu
      · refine ⟨hge, fun k entry hentry heq => ?_⟩
        rw [hinside u hlt k entry hentry heq]
        simp
      · have hstop := visits_end hspans hend hpc hdone.running hu
        refine ⟨by omega, fun k entry hentry heq => ?_⟩
        have hboth : RulesAt compiled policy stop s.pc idx (rule :: rules) := ⟨hrule, hrest⟩
        have hlt := hboth.entry_lt (List.mem_of_getElem? hentry)
        omega
    case isFalse hstay =>
      rw [if_neg hstay] at hpc
      rw [← hpc] at hrest
      obtain ⟨s', hgoes', hdone', hvisits⟩ := ih hsound hrest hdone.running (by
        rw [hdone.output]
        split
        · rw [length_stored, hlen]
        · exact hlen)
      rw [← hpc] at hgoes
      refine ⟨s', hgoes.trans hgoes' (by omega) (by omega), .cons hdone hdone', fun u hu => ?_⟩
      rcases hgoes.visits hu with ⟨hge, hlt⟩ | hu
      · refine ⟨hge, fun k entry hentry heq => ?_⟩
        rw [hinside u (hpc ▸ hlt) k entry hentry heq]
        simp
      · obtain ⟨hge, hentries⟩ := hvisits u hu
        refine ⟨by omega, fun k entry hentry heq => ?_⟩
        cases k with
        | zero => simp
        | succ k =>
          rw [List.length_cons]
          exact Nat.succ_lt_succ (hentries k entry (by rw [hpc]; exact hentry) heq)

end Run

end BpmnLite.Dmn.Vm
