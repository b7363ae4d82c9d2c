import BpmnLite.Dmn.EmitSpec
import BpmnLite.Dmn.VerifySpec

/-!
# Emitted code passes the verifier

The code of a well-typed decision meets every check: its operands are in range, its tests and stores
take the stack from height zero back to height zero, each rule leads to the next one or to the end,
and under FIRST each `RuleMatched` is followed by its branch.
-/

namespace BpmnLite.Dmn.Emit

variable {instrs a b block code : List Instr} {pc h' pos next stop t h start : ℕ} {instr : Instr}
  {catalogue : Catalogue} {compiled : CompiledDecision} {Q : Pools}
  {items preds : List TypedPredicate} {policy : HitPolicy} {rules : List TypedRule}
  {ty : ResolvedType} {p : TypedPredicate} {rule : TypedRule}

section CodeAt

def CodeAt (instrs : List Instr) (pc : ℕ) (block : List Instr) : Prop :=
  block <+: instrs.drop pc

theorem codeAt_append :
    CodeAt instrs pc (a ++ b) ↔ CodeAt instrs pc a ∧ CodeAt instrs (pc + a.length) b := by
  unfold CodeAt
  constructor
  · rintro ⟨rest, hrest⟩
    have hdrop : instrs.drop (pc + a.length) = b ++ rest := by
      rw [← List.drop_drop, ← hrest, List.append_assoc, List.drop_left]
    exact ⟨⟨b ++ rest, by rw [← List.append_assoc, hrest]⟩, ⟨rest, hdrop.symm⟩⟩
  · rintro ⟨⟨rest, hrest⟩, ⟨rest', hrest'⟩⟩
    have heq : rest = b ++ rest' := by
      rw [hrest', ← List.drop_drop, ← hrest, List.drop_left]
    exact ⟨rest', by rw [List.append_assoc, ← heq, hrest]⟩

theorem codeAt_cons :
    CodeAt instrs pc (instr :: block) ↔ instrs[pc]? = some instr ∧ CodeAt instrs (pc + 1) block := by
  have hsplit : CodeAt instrs pc ([instr] ++ block) ↔ _ := codeAt_append
  have hone : CodeAt instrs pc [instr] ↔ instrs[pc]? = some instr := by
    rw [CodeAt, ← List.head?_drop]
    cases instrs.drop pc <;> simp [eq_comm]
  rw [hone] at hsplit
  exact hsplit

theorem codeAt_self (pre block : List Instr) : CodeAt (pre ++ block) pre.length block := by
  rw [CodeAt, List.drop_left]

end CodeAt

section Tests

/-- An instruction of a test or a store: it falls through, and no rule ends with it. -/
def IsPlain : Instr → Prop
  | .loadField _ | .pushConst _ | .pushConstSet _ | .eq | .notEq | .lt | .le | .gt | .ge | .inSet
  | .rangeCheck _ | .isNull | .isNotNull | .and | .or | .not | .storeOutputTos _ => True
  | _ => False

theorem isPlain_comparisonInstr (op : ComparisonOp) : IsPlain (comparisonInstr op) := by
  cases op <;> trivial

theorem IsPlain.isReserved (h : IsPlain instr) : instr.isReserved = false := by
  cases instr <;> first | rfl | exact h.elim

theorem IsPlain.successors (h : IsPlain instr) (pc : ℕ) : successors pc instr = [pc + 1] := by
  cases instr <;> first | rfl | exact h.elim

def poolsOf (compiled : CompiledDecision) : Pools :=
  ⟨compiled.constPool, compiled.constSetPool, compiled.rangePool⟩

theorem forall_mem_junctionCode {good : Instr → Prop} (hinstr : good instr)
    (hitems : ∀ p ∈ items, ∀ i ∈ codeOf Q p, good i) :
    ∀ i ∈ junctionCode Q instr items, good i := by
  have hoperands : ∀ items : List TypedPredicate, (∀ p ∈ items, ∀ i ∈ codeOf Q p, good i) →
      ∀ i ∈ operandsCode Q instr items, good i := by
    intro items
    induction items with
    | nil => simp [operandsCode]
    | cons p items ih =>
      intro hitems
      obtain ⟨hp, hitems⟩ := List.forall_mem_cons.mp hitems
      rw [operandsCode, List.forall_mem_append, List.forall_mem_cons]
      exact ⟨hp, hinstr, ih hitems⟩
  cases items with
  | nil => simp [junctionCode]
  | cons p items =>
    obtain ⟨hp, hitems⟩ := List.forall_mem_cons.mp hitems
    rw [junctionCode, List.forall_mem_append]
    exact ⟨hp, hoperands items hitems⟩

theorem codeOf_plain (hholds : Holds (poolsOf compiled) p)
    (htyped : p.WellTyped catalogue compiled.inputSchema) :
    ∀ i ∈ codeOf (poolsOf compiled) p, IsPlain i ∧ OperandsFit compiled i := by
  have hfield : ∀ {field : FieldId} {entry : FieldSchema},
      compiled.inputSchema[field]? = some entry → field < compiled.inputSchema.length :=
    fun h => (List.getElem?_eq_some_iff.mp h).1
  induction p with
  | comparison field op rhs span =>
    obtain ⟨entry, hentry, -⟩ := htyped
    have hop : OperandsFit compiled (comparisonInstr op) := by cases op <;> trivial
    simp only [codeOf, List.forall_mem_cons]
    exact ⟨⟨trivial, hfield hentry⟩, ⟨trivial, hholds.lt⟩, ⟨isPlain_comparisonInstr op, hop⟩,
      by simp⟩
  | inSet field values span =>
    obtain ⟨entry, hentry, -⟩ := htyped
    simp only [codeOf, List.forall_mem_cons]
    exact ⟨⟨trivial, hfield hentry⟩, ⟨trivial, hholds.lt⟩, ⟨trivial, trivial⟩, by simp⟩
  | range field lower upper lowerInclusive upperInclusive span =>
    obtain ⟨entry, hentry, -⟩ := htyped
    simp only [codeOf, List.forall_mem_cons]
    exact ⟨⟨trivial, hfield hentry⟩, ⟨trivial, hholds.lt⟩, by simp⟩
  | isNull field span | isNotNull field span =>
    simp only [codeOf, List.forall_mem_cons]
    exact ⟨⟨trivial, htyped⟩, ⟨trivial, trivial⟩, by simp⟩
  | not inner span ih =>
    rw [codeOf, List.forall_mem_append]
    exact ⟨ih hholds htyped, by simp [IsPlain, OperandsFit]⟩
  | and items span ih | or items span ih =>
    refine forall_mem_junctionCode ⟨trivial, trivial⟩ fun p hp => ih p hp ?_ ?_
    · exact TypedPredicate.everyAll_iff.mp hholds.2 p hp
    · exact TypedPredicate.everyAll_iff.mp htyped.2 p hp

end Tests

section Heights

def raise (h : ℕ) (instr : Instr) : ℕ := h - (stackDelta instr).1 + (stackDelta instr).2

def target : Instr → Option ℕ
  | .br t | .brFalse t | .brTrue t => some t
  | _ => none

/-- Code that takes the stack from height `h` to height `h'`. Nothing pops more than there is, and
control leaves only with an empty stack, for an address of `T` or at the end. -/
def Framed (T : ℕ → Prop) : List Instr → ℕ → ℕ → Prop
  | [], h, h' => h = h'
  | instr :: code, h, h' =>
    (stackDelta instr).1 ≤ h ∧ (∀ t ∈ target instr, T t ∧ raise h instr = 0) ∧
    (instr = .endDecision → raise h instr = 0) ∧ Framed T code (raise h instr) h'

variable {T : ℕ → Prop}

theorem framed_append {h'' : ℕ} (ha : Framed T a h h') (hb : Framed T b h' h'') :
    Framed T (a ++ b) h h'' := by
  induction a generalizing h with
  | nil =>
    obtain rfl : h = h' := ha
    exact hb
  | cons instr a ih =>
    obtain ⟨hpop, htarget, hend, hrest⟩ := ha
    exact ⟨hpop, htarget, hend, ih hrest⟩

theorem framed_cons (hplain : IsPlain instr) (hpop : (stackDelta instr).1 ≤ h)
    (hcode : Framed T code (raise h instr) h') : Framed T (instr :: code) h h' := by
  refine ⟨hpop, fun t ht => ?_, fun heq => ?_, hcode⟩
  · cases instr <;> first | exact hplain.elim | simp [target] at ht
  · subst heq
    exact hplain.elim

theorem Framed.foldl (hcode : Framed T code h h') : code.foldl raise h = h' := by
  induction code generalizing h with
  | nil => exact hcode
  | cons instr code ih => exact ih hcode.2.2.2

theorem Framed.get (hcode : Framed T code h h') (hinstr : code[pos]? = some instr) :
    (stackDelta instr).1 ≤ (code.take pos).foldl raise h ∧
    (∀ t ∈ target instr, T t ∧ raise ((code.take pos).foldl raise h) instr = 0) ∧
    (instr = .endDecision → raise ((code.take pos).foldl raise h) instr = 0) := by
  induction code generalizing h pos with
  | nil => simp at hinstr
  | cons first code ih =>
    obtain ⟨hpop, htarget, hend, hrest⟩ := hcode
    cases pos with
    | zero =>
      obtain rfl : first = instr := by simpa using hinstr
      exact ⟨hpop, htarget, hend⟩
    | succ pos => exact ih hrest (by simpa using hinstr)

theorem Framed.fitted (hcode : Framed (fun t => (code.take t).foldl raise 0 = 0) code 0 h') :
    Fitted code (fun pos => (code.take pos).foldl raise 0) := by
  intro pos instr hinstr
  obtain ⟨hpop, htarget, hend⟩ := hcode.get hinstr
  have hnext : (code.take (pos + 1)).foldl raise 0 =
      raise ((code.take pos).foldl raise 0) instr := by
    rw [List.take_add_one, hinstr, List.foldl_append]
    rfl
  have hjump : ∀ t ∈ target instr, (code.take t).foldl raise 0 =
      raise ((code.take pos).foldl raise 0) instr := by
    intro t ht
    obtain ⟨hzero, heq⟩ := htarget t ht
    rw [hzero, heq]
  refine ⟨hpop, hend, fun q hq => ?_⟩
  have hcases : q = pos + 1 ∨ target instr = some q := by
    cases instr with
    | br t => exact Or.inr (congrArg some (List.mem_singleton.mp hq).symm)
    | brFalse t | brTrue t =>
      rcases List.mem_cons.mp hq with rfl | hq
      · exact Or.inr rfl
      · exact Or.inl (List.mem_singleton.mp hq)
    | endDecision => simp [successors] at hq
    | _ => exact Or.inl (List.mem_singleton.mp hq)
  rcases hcases with rfl | ht
  · exact hnext
  · exact hjump q ht

theorem framed_operandsCode (hplain : IsPlain instr) (hdelta : stackDelta instr = (2, 1))
    (hitems : ∀ p ∈ items, ∀ h, Framed T (codeOf Q p) h (h + 1)) (h : ℕ) :
    Framed T (operandsCode Q instr items) (h + 1) (h + 1) := by
  induction items with
  | nil => rfl
  | cons p items ih =>
    obtain ⟨hp, hitems⟩ := List.forall_mem_cons.mp hitems
    have hraise : raise (h + 1 + 1) instr = h + 1 := by
      rw [raise, hdelta]
      omega
    rw [operandsCode]
    refine framed_append (hp (h + 1)) (framed_cons hplain (by rw [hdelta]; omega) ?_)
    rw [hraise]
    exact ih hitems

theorem framed_junctionCode (hplain : IsPlain instr) (hdelta : stackDelta instr = (2, 1))
    (hlen : 2 ≤ items.length) (hitems : ∀ p ∈ items, ∀ h, Framed T (codeOf Q p) h (h + 1)) (h : ℕ) :
    Framed T (junctionCode Q instr items) h (h + 1) := by
  cases items with
  | nil => simp at hlen
  | cons p items =>
    obtain ⟨hp, hitems⟩ := List.forall_mem_cons.mp hitems
    exact framed_append (hp h) (framed_operandsCode hplain hdelta hitems h)

theorem framed_codeOf (Q : Pools) (hshape : p.WellShaped) (h : ℕ) :
    Framed T (codeOf Q p) h (h + 1) := by
  induction p generalizing h with
  | comparison field op rhs span =>
    cases op <;> simp [codeOf, comparisonInstr, Framed, stackDelta, raise, target]
  | inSet | range | isNull | isNotNull => simp [codeOf, Framed, stackDelta, raise, target]
  | not inner span ih =>
    exact framed_append (ih hshape h) (by simp [Framed, stackDelta, raise, target])
  | and items span ih | or items span ih =>
    have hitems := fun p hp => ih p hp (TypedPredicate.everyAll_iff.mp hshape.2 p hp)
    exact framed_junctionCode (by trivial) rfl hshape.1 hitems h

theorem framed_testsCode (Q : Pools) (hnext : T next) (hshape : ∀ p ∈ preds, p.WellShaped) :
    Framed T (testsCode Q next preds) 0 0 := by
  induction preds with
  | nil => rfl
  | cons p preds ih =>
    obtain ⟨hp, hpreds⟩ := List.forall_mem_cons.mp hshape
    rw [testsCode, List.flatMap_cons]
    refine framed_append (framed_append (framed_codeOf Q hp 0) ?_) (ih hpreds)
    simp [Framed, stackDelta, raise, target, hnext]

theorem framed_storesCode (Q : Pools) (assigns : List TypedAssignment) :
    Framed T (storesCode Q assigns) 0 0 := by
  induction assigns with
  | nil => rfl
  | cons a assigns ih =>
    rw [storesCode, List.flatMap_cons]
    exact framed_append (by simp [Framed, stackDelta, raise, target]) ih

theorem framed_ruleCode (Q : Pools) (policy : HitPolicy)
    (hshape : ∀ p ∈ rule.when.preds, p.WellShaped) (hnext : T next) (hstop : T stop) :
    Framed T (ruleCode Q policy rule next stop) 0 0 := by
  refine framed_append (framed_testsCode Q hnext hshape)
    (framed_append (framed_storesCode Q rule.assigns) ?_)
  cases policy <;> simp [exitCode, Framed, stackDelta, raise, target, hstop]

end Heights

variable (hholds : ∀ rule ∈ rules, RuleHolds (poolsOf compiled) rule)
  (htyped : ∀ rule ∈ rules, rule.WellTyped catalogue compiled.inputSchema compiled.outputSchema)

section Rules

theorem foldl_ruleCode (Q : Pools) (policy : HitPolicy)
    (hshape : ∀ p ∈ rule.when.preds, p.WellShaped) (next stop : ℕ) :
    (ruleCode Q policy rule next stop).foldl raise 0 = 0 := by
  have hframed : Framed (fun _ => True) (ruleCode Q policy rule next stop) 0 0 :=
    framed_ruleCode Q policy hshape trivial trivial
  exact hframed.foldl

theorem framed_rulesCode {full pre post : List Instr}
    (hshape : ∀ rule ∈ rules, ∀ p ∈ rule.when.preds, p.WellShaped)
    (hfull : full = pre ++ (rulesCode Q policy stop pre.length rules ++ post))
    (hpre : pre.foldl raise 0 = 0) (hstop : (full.take stop).foldl raise 0 = 0) :
    Framed (fun t => (full.take t).foldl raise 0 = 0)
      (rulesCode Q policy stop pre.length rules) 0 0 := by
  induction rules generalizing pre with
  | nil => rfl
  | cons rule rules ih =>
    obtain ⟨hrule, hrules⟩ := List.forall_mem_cons.mp hshape
    rw [rulesCode] at hfull ⊢
    generalize hcode : ruleCode Q policy rule (pre.length + ruleSize Q policy rule) stop = code
      at hfull ⊢
    have hlen : (pre ++ code).length = pre.length + ruleSize Q policy rule := by
      rw [List.length_append, ← hcode, length_ruleCode]
    have hnext : (pre ++ code).foldl raise 0 = 0 := by
      rw [List.foldl_append, hpre, ← hcode, foldl_ruleCode Q policy hrule]
    have hat : (full.take (pre.length + ruleSize Q policy rule)).foldl raise 0 = 0 := by
      rw [hfull, List.append_assoc, ← List.append_assoc, ← hlen, List.take_left, hnext]
    have hfull' : full = (pre ++ code) ++
        (rulesCode Q policy stop (pre ++ code).length rules ++ post) := by
      rw [hlen, hfull]
      simp
    have hrest := ih hrules hfull' hnext
    rw [hlen] at hrest
    rw [← hcode]
    exact framed_append (framed_ruleCode Q policy hrule hat hstop) hrest

theorem foldl_rulesCode (Q : Pools) (policy : HitPolicy)
    (hshape : ∀ rule ∈ rules, ∀ p ∈ rule.when.preds, p.WellShaped) (stop start : ℕ) :
    (rulesCode Q policy stop start rules).foldl raise 0 = 0 := by
  induction rules generalizing start with
  | nil => rfl
  | cons rule rules ih =>
    obtain ⟨hrule, hrules⟩ := List.forall_mem_cons.mp hshape
    rw [rulesCode, List.foldl_append, foldl_ruleCode Q policy hrule, ih hrules]

inductive InRules (compiled : CompiledDecision) (policy : HitPolicy) (stop : ℕ)
    (rules : List TypedRule) : Instr → Prop
  | plain {instr : Instr} (hplain : IsPlain instr) (hfits : OperandsFit compiled instr) :
    InRules compiled policy stop rules instr
  | next {t : ℕ} (hle : t ≤ stop) : InRules compiled policy stop rules (.brFalse t)
  | matched {rule : TypedRule} (hmem : rule ∈ rules) :
    InRules compiled policy stop rules (.ruleMatched rule.ruleId)
  | exit (hpolicy : policy = .first) : InRules compiled policy stop rules (.br stop)

theorem InRules.weaken {rules' : List TypedRule} (hsub : rules ⊆ rules')
    (h : InRules compiled policy stop rules instr) : InRules compiled policy stop rules' instr := by
  cases h with
  | plain hplain hfits => exact .plain hplain hfits
  | next hle => exact .next hle
  | matched hmem => exact .matched (hsub hmem)
  | exit hpolicy => exact .exit hpolicy

theorem mem_ruleBody (hholds : RuleHolds (poolsOf compiled) rule)
    (htyped : rule.WellTyped catalogue compiled.inputSchema compiled.outputSchema) :
    ∀ i ∈ testsCode (poolsOf compiled) next rule.when.preds ++
        storesCode (poolsOf compiled) rule.assigns,
      IsPlain i ∧ OperandsFit compiled i ∨ i = .brFalse next := by
  rw [List.forall_mem_append]
  constructor
  · intro i hi
    obtain ⟨p, hp, hi⟩ := List.mem_flatMap.mp hi
    rcases List.mem_append.mp hi with hi | hi
    · exact Or.inl (codeOf_plain (hholds.preds p hp) (htyped.preds p hp) i hi)
    · exact Or.inr (List.mem_singleton.mp hi)
  · intro i hi
    obtain ⟨a, ha, hi⟩ := List.mem_flatMap.mp hi
    rcases List.mem_cons.mp hi with rfl | hi
    · exact Or.inl ⟨trivial, (hholds.values a ha).lt⟩
    · obtain rfl := List.mem_singleton.mp hi
      obtain ⟨entry, hentry, -⟩ := htyped.values a ha
      exact Or.inl ⟨trivial, (List.getElem?_eq_some_iff.mp hentry).1⟩

theorem inRules_ruleCode (hholds : RuleHolds (poolsOf compiled) rule)
    (htyped : rule.WellTyped catalogue compiled.inputSchema compiled.outputSchema)
    (hnext : next ≤ stop) :
    ∀ i ∈ ruleCode (poolsOf compiled) policy rule next stop,
      InRules compiled policy stop [rule] i := by
  rw [ruleCode, ← List.append_assoc, List.forall_mem_append, List.forall_mem_cons]
  refine ⟨fun i hi => ?_, .matched (by simp), ?_⟩
  · rcases mem_ruleBody hholds htyped i hi with ⟨hplain, hfits⟩ | rfl
    · exact .plain hplain hfits
    · exact .next hnext
  · cases policy with
    | unique => simp [exitCode]
    | first => simpa [exitCode] using .exit rfl

include hholds htyped in
theorem inRules_rulesCode
    (hstop : start + (rulesCode (poolsOf compiled) policy stop start rules).length ≤ stop) :
    ∀ i ∈ rulesCode (poolsOf compiled) policy stop start rules,
      InRules compiled policy stop rules i := by
  induction rules generalizing start with
  | nil => simp [rulesCode]
  | cons rule rules ih =>
    obtain ⟨hrule, hrules⟩ := List.forall_mem_cons.mp hholds
    obtain ⟨htype, htypes⟩ := List.forall_mem_cons.mp htyped
    rw [rulesCode, List.length_append, length_ruleCode] at hstop
    rw [rulesCode, List.forall_mem_append]
    refine ⟨fun i hi => ?_, fun i hi => ?_⟩
    · exact (inRules_ruleCode hrule htype (by omega) i hi).weaken (by simp)
    · exact (ih hrules htypes (by omega) i hi).weaken (List.subset_cons_self _ _)

theorem mem_ruleEntries (hmem : rule ∈ rules) (start : ℕ) :
    ∃ entry ∈ ruleEntries Q policy start rules, entry.ruleId = rule.ruleId := by
  induction rules generalizing start with
  | nil => simp at hmem
  | cons first rules ih =>
    rw [ruleEntries]
    rcases List.mem_cons.mp hmem with rfl | hmem
    · exact ⟨_, List.mem_cons_self, rfl⟩
    · obtain ⟨entry, hentry, heq⟩ := ih hmem (start + ruleSize Q policy first)
      exact ⟨entry, List.mem_cons_of_mem _ hentry, heq⟩

end Rules

section Flow

def FallsThrough (instr : Instr) : Prop := ∀ pc, pc + 1 ∈ successors pc instr

theorem reachable_after (hpc : pc ∈ computeReachable instrs) (hat : CodeAt instrs pc block)
    (hlt : pc + block.length < instrs.length) (hfall : ∀ i ∈ block, FallsThrough i) :
    pc + block.length ∈ computeReachable instrs := by
  induction block generalizing pc with
  | nil => exact hpc
  | cons instr block ih =>
    obtain ⟨hinstr, hrest⟩ := codeAt_cons.mp hat
    obtain ⟨hfirst, hfall⟩ := List.forall_mem_cons.mp hfall
    rw [List.length_cons] at hlt ⊢
    have hnext := mem_computeReachable_of_successor hpc hinstr (hfirst pc) (by omega)
    have hall := ih hnext hrest (by omega) hfall
    rw [Nat.add_right_comm] at hall
    exact hall

theorem InRules.fallsThrough (h : InRules compiled .unique stop rules instr) :
    FallsThrough instr := by
  intro pc
  cases h with
  | plain hplain => simp [hplain.successors]
  | next | matched => simp [successors]
  | exit hpolicy => simp at hpolicy

theorem ruleCode_first (Q : Pools) (rule : TypedRule) (next stop : ℕ) :
    ruleCode Q .first rule next stop = ruleCode Q .unique rule next stop ++ [.br stop] := by
  simp [ruleCode, exitCode]

include hholds htyped in
theorem stop_reachable (hstart : start ∈ computeReachable instrs)
    (hat : CodeAt instrs start (rulesCode (poolsOf compiled) policy stop start rules))
    (hstop : stop = start + (rulesCode (poolsOf compiled) policy stop start rules).length)
    (hlt : stop < instrs.length) : stop ∈ computeReachable instrs := by
  cases policy with
  | unique =>
    have hkinds := inRules_rulesCode hholds htyped hstop.ge
    have hend := reachable_after hstart hat (by rw [← hstop]; exact hlt)
      fun i hi => (hkinds i hi).fallsThrough
    rw [← hstop] at hend
    exact hend
  | first =>
    cases rules with
    | nil =>
      obtain rfl : stop = start := hstop
      exact hstart
    | cons rule rules =>
      rw [rulesCode, List.length_append, length_ruleCode] at hstop
      rw [rulesCode, ruleCode_first] at hat
      have hnext : start + ruleSize (poolsOf compiled) .first rule ≤ stop := by omega
      have hkinds : ∀ i ∈ ruleCode (poolsOf compiled) .unique rule _ stop, _ :=
        inRules_ruleCode (hholds rule (by simp)) (htyped rule (by simp)) hnext
      have hbody := (codeAt_append.mp (codeAt_append.mp hat).1).1
      have hexit := (codeAt_cons.mp (codeAt_append.mp (codeAt_append.mp hat).1).2).1
      have hlen := (List.getElem?_eq_some_iff.mp hexit).1
      have hreach := reachable_after hstart hbody hlen fun i hi => (hkinds i hi).fallsThrough
      exact mem_computeReachable_of_successor hreach hexit (by simp [successors]) hlt

end Flow

section Shape

def Follows (code : List Instr) : Prop :=
  ∀ (pos : ℕ) (rule : RuleId), code[pos]? = some (.ruleMatched rule) →
    ∃ t, code[pos + 1]? = some (.br t)

theorem Follows.append (ha : Follows a) (hb : Follows b) : Follows (a ++ b) := by
  intro pos rule hpos
  by_cases hlt : pos < a.length
  · rw [List.getElem?_append_left hlt] at hpos
    obtain ⟨t, ht⟩ := ha pos rule hpos
    exact ⟨t, by rw [List.getElem?_append_left (List.getElem?_eq_some_iff.mp ht).1, ht]⟩
  · rw [List.getElem?_append_right (by omega)] at hpos
    obtain ⟨t, ht⟩ := hb _ rule hpos
    refine ⟨t, ?_⟩
    rw [List.getElem?_append_right (by omega), ← ht]
    congr 1
    omega

theorem follows_of_forall (h : ∀ i ∈ code, ∀ rule, i ≠ .ruleMatched rule) : Follows code :=
  fun _ rule hpos => (h _ (List.mem_of_getElem? hpos) rule rfl).elim

theorem follows_ruleCode (hholds : RuleHolds (poolsOf compiled) rule)
    (htyped : rule.WellTyped catalogue compiled.inputSchema compiled.outputSchema) (next stop : ℕ) :
    Follows (ruleCode (poolsOf compiled) .first rule next stop) := by
  rw [ruleCode, ← List.append_assoc]
  apply Follows.append
  · apply follows_of_forall
    intro i hi id heq
    rcases mem_ruleBody hholds htyped i hi with ⟨hplain, -⟩ | hbr
    · subst heq
      exact hplain
    · rw [hbr] at heq
      simp at heq
  · intro pos id hpos
    cases pos with
    | zero => exact ⟨stop, rfl⟩
    | succ pos => cases pos <;> simp [exitCode] at hpos

include hholds htyped in
theorem follows_rulesCode (start stop : ℕ) : Follows (rulesCode (poolsOf compiled) .first stop start rules) := by
  induction rules generalizing start with
  | nil => exact follows_of_forall (by simp [rulesCode])
  | cons rule rules ih =>
    obtain ⟨hrule, hrules⟩ := List.forall_mem_cons.mp hholds
    obtain ⟨htype, htypes⟩ := List.forall_mem_cons.mp htyped
    exact (follows_ruleCode hrule htype _ stop).append (ih hrules htypes _)

end Shape

section Ready

variable {schema : List FieldSchema}

theorem fits_of_hasType {v : TypedValue} (h : HasType catalogue v ty) : Fits v := by
  cases v with
  | integer i => cases ty <;> first | exact h | exact h.elim
  | _ => trivial

theorem numericBound_of_hasType {bound : Option TypedValue} (hnumeric : ty.isNumeric = true)
    (h : ∀ v ∈ bound, HasType catalogue v ty) : NumericBound bound := by
  cases bound with
  | none => trivial
  | some v =>
    have hv := h v rfl
    cases ty with
    | integer => cases v <;> first | exact hv | exact hv.elim
    | decimal => cases v <;> first | exact hv | exact hv.elim
    | enum | bool | str => simp [ResolvedType.isNumeric] at hnumeric

theorem testFits_of_typed (h : p.TestTyped catalogue schema) : TestFits p := by
  cases p with
  | comparison field op rhs span =>
    obtain ⟨entry, -, hrhs, -⟩ := h
    exact fits_of_hasType hrhs
  | inSet field values span =>
    obtain ⟨entry, -, hvalues⟩ := h
    exact fun v hv => fits_of_hasType (hvalues v hv)
  | range field lower upper lowerInclusive upperInclusive span =>
    obtain ⟨entry, -, hnumeric, hlower, hupper⟩ := h
    exact ⟨numericBound_of_hasType hnumeric hlower, numericBound_of_hasType hnumeric hupper⟩
  | _ => trivial

theorem ruleReady {inputs outputs : List FieldSchema}
    (htyped : rule.WellTyped catalogue inputs outputs)
    (hshape : ∀ p ∈ rule.when.preds, p.WellShaped) : RuleReady rule where
  preds := fun p hp => ((htyped.preds p hp).and (hshape p hp)).imp
    (fun _ h => testFits_of_typed h.1) (fun _ h => h.2)
  values := fun a ha => by
    obtain ⟨entry, -, hvalue⟩ := htyped.values a ha
    exact fits_of_hasType hvalue

end Ready

section Accepted

variable {typed : TypedDecision}

theorem endPositions_append (h : ∀ i ∈ code, i ≠ .endDecision) :
    endPositions (code ++ [.endDecision]) = [code.length] := by
  have hnone : (code.zipIdx.filter fun x => x.1 = .endDecision) = [] := by
    rw [List.filter_eq_nil_iff]
    intro x hx
    simpa using h x.1 (List.fst_mem_of_mem_zipIdx hx)
  rw [endPositions, List.zipIdx_append, List.filter_append, hnone]
  simp

theorem InRules.ne_endDecision (h : InRules compiled policy stop rules instr) :
    instr ≠ .endDecision := by
  rintro rfl
  cases h with
  | plain hplain => exact hplain

theorem InRules.isReserved (h : InRules compiled policy stop rules instr) :
    instr.isReserved = false := by
  cases h with
  | plain hplain => exact hplain.isReserved
  | next | matched | exit => rfl

theorem InRules.operandsFit (hlen : stop < compiled.instructions.length)
    (hmap : ∀ rule ∈ rules, ∃ entry ∈ compiled.ruleMap, entry.ruleId = rule.ruleId)
    (h : InRules compiled policy stop rules instr) : OperandsFit compiled instr := by
  cases h with
  | plain hplain hfits => exact hfits
  | next hle => exact lt_of_le_of_lt hle hlen
  | matched hmem => exact hmap _ hmem
  | exit => exact hlen

theorem checkDangling_of_lt (h : pos + 1 < instrs.length ∨ instrs[pos]? = some .endDecision) :
    checkDangling instrs pos = .ok () := by
  unfold checkDangling
  rcases h with h | h
  · split
    · rfl
    · rfl
    · rfl
    · rfl
    · rw [if_neg (by omega)]
      rfl
  · rw [h]
    rfl

section Layout

variable (hshape : ∀ rule ∈ rules, ∀ p ∈ rule.when.preds, p.WellShaped)
  (hstop : stop = (rulesCode (poolsOf compiled) policy stop 0 rules).length)
  (hinstrs : compiled.instructions = rulesCode (poolsOf compiled) policy stop 0 rules ++
    [.endDecision])

include hstop hinstrs

theorem length_layout : compiled.instructions.length = stop + 1 := by
  rw [hinstrs, List.length_append, ← hstop]
  rfl

theorem codeAt_layout :
    CodeAt compiled.instructions 0 (rulesCode (poolsOf compiled) policy stop 0 rules) ∧
    compiled.instructions[stop]? = some .endDecision := by
  have hat := codeAt_self [] compiled.instructions
  rw [List.nil_append, hinstrs, codeAt_append, codeAt_cons, ← hinstrs] at hat
  rw [List.length_nil, Nat.zero_add, ← hstop] at hat
  exact ⟨hat.1, hat.2.1⟩

include hholds htyped

theorem mem_layout (hmem : instr ∈ compiled.instructions) :
    InRules compiled policy stop rules instr ∨ instr = .endDecision := by
  rw [hinstrs, List.mem_append, List.mem_singleton] at hmem
  exact hmem.imp_left (inRules_rulesCode hholds htyped (by rw [Nat.zero_add]; exact hstop.ge) instr)

include hshape

theorem flowChecked_layout : FlowChecked compiled.instructions stop where
  ending := by
    have hlen := length_layout hstop hinstrs
    refine stop_reachable hholds htyped ?_ (codeAt_layout hstop hinstrs).1
      (by rw [Nat.zero_add]; exact hstop) (by omega)
    exact (computeReachable_spec compiled.instructions).2.2 (by omega)
  dangling := by
    intro pos hpos
    have hlt := (computeReachable_spec compiled.instructions).2.1 pos hpos
    have hlen := length_layout hstop hinstrs
    apply checkDangling_of_lt
    by_cases heq : pos = stop
    · exact Or.inr (heq ▸ (codeAt_layout hstop hinstrs).2)
    · exact Or.inl (by omega)
  heights := by
    have hzero : (compiled.instructions.take stop).foldl raise 0 = 0 := by
      rw [hinstrs, List.take_append_of_le_length hstop.le, List.take_of_length_le hstop.ge]
      exact foldl_rulesCode _ _ hshape _ _
    have hframed := framed_rulesCode hshape (show compiled.instructions =
      [] ++ (rulesCode (poolsOf compiled) policy stop [].length rules ++ [.endDecision]) from hinstrs)
      rfl hzero
    have hall := framed_append hframed (show Framed _ [.endDecision] 0 0 by
      simp [Framed, stackDelta, raise, target])
    rw [List.length_nil, ← hinstrs] at hall
    exact exists_heights rfl hall.fitted _

omit hshape in
theorem policy_of_br_mem (hmem : .br t ∈ compiled.instructions) : policy = .first := by
  rcases mem_layout hholds htyped hstop hinstrs hmem with h | h
  · cases h with
    | plain hplain => exact hplain.elim
    | exit hpolicy => exact hpolicy
  · simp at h

omit hshape in
theorem shape_layout (hpolicy : compiled.hitPolicy = policy) :
    verifyHitPolicyShape compiled = .ok () := by
  unfold verifyHitPolicyShape
  rw [hpolicy]
  cases policy with
  | first =>
    have hfollows : Follows compiled.instructions := by
      rw [hinstrs]
      exact (follows_rulesCode hholds htyped 0 stop).append (follows_of_forall (by simp))
    suffices hcheck : Each compiled.instructions (checkFirstShape compiled.instructions) from
      forM_zipIdx_eq_ok.mpr hcheck
    intro pos instr hinstr
    cases instr with
    | ruleMatched rule =>
      obtain ⟨t, ht⟩ := hfollows pos rule hinstr
      rw [checkFirstShape, ht]
      rfl
    | _ => rfl
  | unique =>
    suffices hcheck : Each compiled.instructions (checkUniqueShape compiled.instructions) from
      forM_zipIdx_eq_ok.mpr hcheck
    intro pos instr hinstr
    cases instr with
    | ruleMatched rule =>
      rw [checkUniqueShape]
      split
      case h_1 t ht =>
        simpa using policy_of_br_mem hholds htyped hstop hinstrs (List.mem_of_getElem? ht)
      case h_2 => rfl
    | _ => rfl

end Layout

/-- The verifier accepts what the emitter makes of a well-typed decision. -/
theorem Emitted.checked (hemitted : Emitted typed compiled Q)
    (htyped : typed.WellTyped catalogue)
    (hshape : ∀ rule ∈ typed.rules, ∀ p ∈ rule.when.preds, p.WellShaped) : Checked compiled := by
  obtain ⟨rfl, hholds, hspans, hmap, ⟨stop, hstop, hinstrs⟩, hpolicy, hinputs, houtputs⟩ := hemitted
  have hrules := htyped.rules
  rw [← hinputs, ← houtputs] at hrules
  have hlen := length_layout hstop hinstrs
  have hmem := fun pc instr (h : compiled.instructions[pc]? = some instr) =>
    mem_layout hholds hrules hstop hinstrs (List.mem_of_getElem? h)
  refine ⟨hspans, by omega, fun pc instr hinstr => ?_, fun pc instr hinstr => ?_, ⟨stop, ?_,
    flowChecked_layout hholds hrules hshape hstop hinstrs⟩,
    shape_layout hholds hrules hstop hinstrs hpolicy⟩
  · have hreserved : instr.isReserved = false := by
      rcases hmem pc instr hinstr with h | rfl
      · exact h.isReserved
      · rfl
    simp [checkReserved, hreserved]
  · rw [checkOperands_eq_ok_iff]
    rcases hmem pc instr hinstr with h | rfl
    · refine h.operandsFit (by omega) fun rule hrule => ?_
      rw [hmap]
      exact mem_ruleEntries hrule 0
    · trivial
  · rw [hinstrs, endPositions_append, ← hstop]
    intro i hi
    refine (inRules_rulesCode hholds hrules ?_ i hi).ne_endDecision
    rw [Nat.zero_add]
    exact hstop.ge

end Accepted

end BpmnLite.Dmn.Emit
