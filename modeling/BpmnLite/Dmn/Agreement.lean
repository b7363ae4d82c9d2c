import BpmnLite.Dmn.Simulation

/-!
# The machine and the reference evaluator agree

For a decision that is typed and emitted, the run of the machine ends in what the reference
evaluator returns: the same winner and outputs or the same error, and the same flag for every rule
the machine entered.
-/

namespace BpmnLite.Dmn

open Emit Reference Vm

section Layout

variable {catalogue : Catalogue} {typed : TypedDecision} {compiled : CompiledDecision}
  {input : TypedInputContext} {source : String} {policy : HitPolicy} {stop : ℕ}

theorem rulesAt_of_layout {pre : List RuleMapEntry} {rules : List TypedRule} {start : ℕ}
    (hmap : compiled.ruleMap = pre ++ ruleEntries (poolsOf compiled) policy start rules)
    (hpre : ∀ entry ∈ pre, entry.entryAddr < start)
    (hcode : CodeAt compiled.instructions start
      (rulesCode (poolsOf compiled) policy stop start rules))
    (hstop : start + (rulesCode (poolsOf compiled) policy stop start rules).length = stop) :
    RulesAt compiled policy stop start pre.length rules := by
  induction rules generalizing start pre with
  | nil => exact hstop
  | cons rule rules ih =>
    have hpos := ruleSize_pos (poolsOf compiled) policy rule
    rw [rulesCode, List.length_append, length_ruleCode] at hstop
    rw [rulesCode, codeAt_append, length_ruleCode] at hcode
    rw [ruleEntries] at hmap
    generalize hentry : RuleMapEntry.mk rule.ruleId rule.ruleName start rule.sourceSpan = entry
      at hmap
    have haddr : entry.entryAddr = start := by rw [← hentry]
    have hrest := @ih (pre ++ [entry]) (start + ruleSize (poolsOf compiled) policy rule)
      (by rw [hmap]; simp) (by
        intro e he
        rcases List.mem_append.mp he with he | he
        · have := hpre e he
          omega
        · obtain rfl := List.mem_singleton.mp he
          omega) hcode.2 (by omega)
    rw [List.length_append, List.length_singleton] at hrest
    refine ⟨⟨hcode.1, ?_, ⟨entry, ?_, by rw [← hentry]⟩, fun q hlo hhi e he => ?_, by omega⟩, hrest⟩
    · have hnone : pre.findIdx? (fun e => e.entryAddr = start) = none := by
        rw [List.findIdx?_eq_none_iff]
        intro e he
        have := hpre e he
        simp only [decide_eq_false_iff_not]
        omega
      rw [hmap, List.findIdx?_append, hnone, List.findIdx?_cons, if_pos (by simp [haddr])]
      simp
    · rw [hmap]
      simp
    · rw [hmap] at he
      rcases List.mem_append.mp he with he | he
      · have := hpre e he
        omega
      · rcases List.mem_cons.mp he with rfl | he
        · omega
        · have := ruleEntries_ge he
          omega

theorem ruleSound_of_typed {rule : TypedRule} (hholds : RuleHolds (poolsOf compiled) rule)
    (htyped : rule.WellTyped catalogue compiled.inputSchema compiled.outputSchema)
    (hshape : ∀ p ∈ rule.when.preds, p.WellShaped) : RuleSound compiled input source rule where
  leaves := fun p hp => leaves_codeOf (hholds.preds p hp) (htyped.preds p hp) (hshape p hp)
  plain := by
    intro p hp
    refine ⟨fun i hi => (codeOf_plain (hholds.preds p hp) (htyped.preds p hp) i hi).1, fun hnil => ?_⟩
    -- code that leaves a value is not empty
    have hframed : Framed (fun _ => True) (codeOf (poolsOf compiled) p) 0 1 :=
      framed_codeOf _ (hshape p hp) 0
    rw [hnil] at hframed
    simp [Framed] at hframed
  values := hholds.values
  fields := fun a ha => by
    obtain ⟨entry, hentry, -⟩ := htyped.values a ha
    exact (List.getElem?_eq_some_iff.mp hentry).1

end Layout

section Outputs

variable {input : TypedInputContext} {policy : HitPolicy}

theorem filter_considered (policy : HitPolicy) (input : TypedInputContext) (rules : List TypedRule) :
    (considered policy input rules).filter (matchesRule input) =
      match policy with
      | .unique => rules.filter (matchesRule input)
      | .first => (rules.filter (matchesRule input)).take 1 := by
  induction rules with
  | nil => cases policy <;> rfl
  | cons rule rules ih =>
    rw [considered, List.filter_cons, List.filter_cons]
    cases hm : matchesRule input rule <;> cases policy <;> simp_all

theorem considered_initial (policy : HitPolicy) (input : TypedInputContext) (rules : List TypedRule) :
    considered policy input rules <+: rules := by
  induction rules with
  | nil => exact List.prefix_rfl
  | cons rule rules ih =>
    rw [considered]
    split
    · exact (List.cons_prefix_cons).mpr ⟨rfl, List.nil_prefix⟩
    · exact (List.cons_prefix_cons).mpr ⟨rfl, ih⟩

theorem decideOutcome_considered (decision : TypedDecision) (input : TypedInputContext) :
    match winner decision input with
    | .ok rule => (considered decision.hitPolicy input decision.rules).filter (matchesRule input) =
        [rule] ∧ rule ∈ decision.rules
    | .error e => decideOutcome decision.hitPolicy (((considered decision.hitPolicy input
        decision.rules).filter (matchesRule input)).map (·.ruleId)) = .error e ∧
        (e = .noMatch ∨ ∃ rules, e = .multipleMatches rules) := by
  rw [filter_considered, winner]
  have hmem : ∀ rule ∈ decision.rules.filter (matchesRule input), rule ∈ decision.rules :=
    fun rule hrule => List.mem_of_mem_filter hrule
  generalize decision.rules.filter (matchesRule input) = matched at hmem ⊢
  cases decision.hitPolicy with
  | unique =>
    match matched with
    | [] => exact ⟨rfl, Or.inl rfl⟩
    | [rule] => exact ⟨rfl, hmem rule (by simp)⟩
    | _ :: _ :: _ => exact ⟨rfl, Or.inr ⟨_, rfl⟩⟩
  | first =>
    match matched with
    | [] => exact ⟨rfl, Or.inl rfl⟩
    | rule :: _ => exact ⟨rfl, hmem rule (by simp)⟩

theorem map_stored (output : List (Option TypedValue)) (assigns : List TypedAssignment)
    (hfields : ∀ a ∈ assigns, a.outputField < output.length) :
    assigns.foldlM assign (output.map (·.getD .null)) =
      some ((stored output assigns).map (·.getD .null)) := by
  induction assigns generalizing output with
  | nil => rfl
  | cons a assigns ih =>
    obtain ⟨hfield, hfields⟩ := List.forall_mem_cons.mp hfields
    have hassign : assign (output.map (·.getD .null)) a =
        some ((output.set a.outputField (some a.value)).map (·.getD .null)) := by
      rw [assign, if_pos (by simpa using hfield), List.map_set]
      rfl
    rw [List.foldlM_cons, hassign]
    exact ih _ (by simpa using hfields)

end Outputs

section Traces

variable {compiled : CompiledDecision} {input : TypedInputContext} {rules entered : List TypedRule}

theorem padTraces_eq {state : VmState} (hinitial : entered <+: rules)
    (hids : rules.map (·.ruleId) = List.range rules.length)
    (hmap : compiled.ruleMap.map (·.ruleId) = rules.map (·.ruleId))
    (htraces : state.ruleTraces.map (·.ruleId) = entered.map (·.ruleId)) :
    ∃ stubs, padTraces compiled state = state.ruleTraces ++ stubs := by
  have hentered : state.ruleTraces.map (·.ruleId) = List.range entered.length := by
    have htake : entered = rules.take entered.length := List.prefix_iff_eq_take.mp hinitial
    rw [htraces, htake, List.map_take, hids, List.take_range, List.length_take]
  unfold padTraces
  generalize hmissing : compiled.ruleMap.filter (fun entry =>
    !state.ruleTraces.any (·.ruleId = entry.ruleId)) = missing
  refine ⟨missing.map stubTrace, List.Pairwise.insertionSort_eq ?_⟩
  -- compare by ids: first all below the number of rules entered, then the rest
  have hstubs : (missing.map stubTrace).map (·.ruleId) = missing.map (·.ruleId) := by
    simp [stubTrace]
  have hlater : ∀ id ∈ missing.map (·.ruleId), entered.length ≤ id := by
    intro id hid
    obtain ⟨entry, hentry, rfl⟩ := List.mem_map.mp hid
    rw [← hmissing, List.mem_filter] at hentry
    by_contra hlt
    have hmem : entry.ruleId ∈ state.ruleTraces.map (·.ruleId) := by
      rw [hentered]
      simpa using hlt
    obtain ⟨t, ht, heq⟩ := List.mem_map.mp hmem
    have hany : state.ruleTraces.any (·.ruleId = entry.ruleId) = true :=
      List.any_eq_true.mpr ⟨t, ht, by simpa using heq⟩
    simp [hany] at hentry
  have hsorted : ((state.ruleTraces ++ missing.map stubTrace).map (·.ruleId)).Pairwise (· ≤ ·) := by
    rw [List.map_append, hentered, hstubs, List.pairwise_append]
    refine ⟨List.pairwise_le_range, ?_, fun a ha b hb => ?_⟩
    · have hall : (compiled.ruleMap.map (·.ruleId)).Pairwise (· ≤ ·) := by
        rw [hmap, hids]
        exact List.pairwise_le_range
      rw [← hmissing]
      exact hall.sublist (List.Sublist.map _ List.filter_sublist)
    · exact (List.mem_range.mp ha).le.trans (hlater b hb)
  exact List.pairwise_map.mp hsorted

theorem flags_agree {policy : HitPolicy} {source : String} {state : VmState}
    (hids : rules.map (·.ruleId) = List.range rules.length)
    (hmap : compiled.ruleMap.map (·.ruleId) = rules.map (·.ruleId))
    (htraces : state.ruleTraces.map (fun t => (t.ruleId, t.matched)) =
      (considered policy input rules).map fun rule => (rule.ruleId, matchesRule input rule))
    {k : ℕ} (hk : k < (considered policy input rules).length) {entry : RuleMapEntry}
    (hentry : compiled.ruleMap[k]? = some entry) :
    ∃ t t', (padTraces compiled state)[k]? = some t ∧
      (rules.map (ruleTrace input source))[k]? = some t' ∧ t.ruleId = entry.ruleId ∧
      t'.ruleId = entry.ruleId ∧ t.matched = t'.matched := by
  have hrecorded : state.ruleTraces.map (·.ruleId) =
      (considered policy input rules).map (·.ruleId) := by
    have hfst := congrArg (List.map Prod.fst) htraces
    rwa [List.map_map, List.map_map] at hfst
  obtain ⟨stubs, hpad⟩ := padTraces_eq (considered_initial policy input rules) hids hmap hrecorded
  obtain ⟨rest, hrest⟩ := considered_initial policy input rules
  obtain ⟨rule, hrule⟩ : ∃ rule, (considered policy input rules)[k]? = some rule :=
    ⟨_, List.getElem?_eq_getElem hk⟩
  have hrules : rules[k]? = some rule := by
    rw [← hrest, List.getElem?_append_left hk, hrule]
  have htrace := congrArg (·[k]?) htraces
  simp only [List.getElem?_map, hrule, Option.map_some, Option.map_eq_some_iff] at htrace
  obtain ⟨t, ht, heq⟩ := htrace
  have hid : entry.ruleId = rule.ruleId := by
    have hsame := congrArg (·[k]?) hmap
    simpa [List.getElem?_map, hentry, hrules] using hsame
  refine ⟨t, ruleTrace input source rule, ?_, by simp [hrules], ?_, hid.symm, ?_⟩
  · rw [hpad, List.getElem?_append_left (List.getElem?_eq_some_iff.mp ht).1, ht]
  · rw [hid]
    exact congrArg Prod.fst heq
  · rw [ruleTrace, evalRule_fst]
    exact congrArg Prod.snd heq

end Traces

section Agreement

variable {compiled : CompiledDecision} {input : TypedInputContext} {source : String}

def Visits (compiled : CompiledDecision) (input : TypedInputContext) (source : String) (pc : ℕ) :
    Prop :=
  ∃ u, Relation.ReflTransGen (Moves compiled input source) (VmState.new compiled) u ∧ u.pc = pc

/-- The same winner and outputs, and the same flag for every rule the machine entered; or the same
error, which is one of the hit policy. -/
def Agree (compiled : CompiledDecision) (input : TypedInputContext) (source : String) :
    Except EvalError EvaluationOutput → Except EvalError EvaluationOutput → Prop
  | .ok o, .ok o' => o.output = o'.output ∧ o.trace.outcome = o'.trace.outcome ∧
    ∀ (k : ℕ) (entry : RuleMapEntry), compiled.ruleMap[k]? = some entry →
      Visits compiled input source entry.entryAddr →
      ∃ t t', o.trace.rules[k]? = some t ∧ o'.trace.rules[k]? = some t' ∧
        t.ruleId = entry.ruleId ∧ t'.ruleId = entry.ruleId ∧ t.matched = t'.matched
  | .error e, .error e' => e = e' ∧ (e = .noMatch ∨ ∃ rules, e = .multipleMatches rules)
  | _, _ => False

theorem ruleEntries_ruleIds (Q : Pools) (policy : HitPolicy) (start : ℕ) (rules : List TypedRule) :
    (ruleEntries Q policy start rules).map (·.ruleId) = rules.map (·.ruleId) := by
  induction rules generalizing start with
  | nil => rfl
  | cons rule rules ih => rw [ruleEntries, List.map_cons, List.map_cons, ih]

variable {catalogue : Catalogue} {typed : TypedDecision}

theorem run_emitted {Q : Pools} (hemitted : Emitted typed compiled Q)
    (htyped : typed.WellTyped catalogue)
    (hshape : ∀ rule ∈ typed.rules, ∀ p ∈ rule.when.preds, p.WellShaped)
    (input : TypedInputContext) (source : String) :
    ∃ final enough, (∀ fuel, enough ≤ fuel →
        runLoop compiled input source fuel (VmState.new compiled) = .returned final) ∧
      final.ruleTraces.map (fun t => (t.ruleId, t.matched)) =
        (considered typed.hitPolicy input typed.rules).map
          (fun rule => (rule.ruleId, matchesRule input rule)) ∧
      final.matchedRules = ((considered typed.hitPolicy input typed.rules).filter
        (matchesRule input)).map (·.ruleId) ∧
      final.output = ((considered typed.hitPolicy input typed.rules).filter
        (matchesRule input)).foldl (fun output rule => stored output rule.assigns)
          (List.replicate typed.outputSchema.length none) ∧
      ∀ (k : ℕ) (entry : RuleMapEntry), compiled.ruleMap[k]? = some entry →
        Visits compiled input source entry.entryAddr →
        k < (considered typed.hitPolicy input typed.rules).length := by
  obtain ⟨rfl, hholds, hspans, hmap, ⟨stop, hstop, hinstrs⟩, -, hinputs, houtputs⟩ := hemitted
  change ∀ rule ∈ typed.rules, RuleHolds (poolsOf compiled) rule at hholds
  have hrules := htyped.rules
  rw [← hinputs, ← houtputs] at hrules
  obtain ⟨hcode, hend⟩ := codeAt_layout hstop hinstrs
  have hat := rulesAt_of_layout (show compiled.ruleMap = [] ++ _ from hmap) (by simp) hcode
    (by rw [Nat.zero_add]; exact hstop.symm)
  have hsound : ∀ rule ∈ typed.rules, RuleSound compiled input source rule := fun rule hrule =>
    ruleSound_of_typed (hholds rule hrule) (hrules rule hrule) (hshape rule hrule)
  obtain ⟨s', hgoes, hdone, hvisits⟩ := goes_rules hspans hend (s := VmState.new compiled)
    hsound hat rfl (by simp [VmState.new])
  obtain ⟨final, hmove, hhalted, -, hmatched, houtput, htraces⟩ :=
    @moves_end compiled input source s' stop hspans hend hdone.pc hdone.running
  obtain ⟨k, hk⟩ := hgoes.run
  refine ⟨final, k + 1, fun fuel hfuel => ?_, ?_, ?_, ?_, ?_⟩
  · obtain ⟨extra, rfl⟩ := Nat.exists_eq_add_of_le hfuel
    rw [show k + 1 + extra = (extra + 1) + k by omega, hk, runLoop_of_step hmove.1 hmove.2]
    exact runLoop_of_stopped (Or.inl hhalted) input source extra
  · rw [htraces, hdone.traces]
    rfl
  · rw [hmatched, hdone.matchedRules]
    rfl
  · rw [houtput, hdone.output, ← houtputs]
    rfl
  · rintro k entry hentry ⟨u, hu, hpc⟩
    rw [hmap] at hentry
    exact (hvisits u hu).2 k entry hentry hpc

/-- A value the reference evaluator takes for a field: an integer may stand for a decimal. -/
def Accepts : ResolvedType → TypedValue → Prop
  | .enum domain, .enum d _ => domain = d
  | .bool, .bool _ | .integer, .integer _ | .decimal, .decimal _ | .decimal, .integer _
  | .str, .str _ => True
  | _, _ => False

/-- The values of an input that are not null have the type of their field. -/
def InputTyped (schema : List FieldSchema) (input : TypedInputContext) : Prop :=
  ∀ field ∈ schema, ∀ v, input.get field.fieldId = some v → v ≠ .null → Accepts field.fieldType v

theorem checkInputTypeMatch_of_accepts {field : FieldSchema} {v : TypedValue}
    (h : Accepts field.fieldType v) : checkInputTypeMatch field v = .ok () := by
  unfold checkInputTypeMatch
  cases hty : field.fieldType <;> cases v <;> rw [hty] at h <;>
    first | exact h.elim | rfl | skip
  exact if_neg (not_not.mpr h)

theorem validateInput_ok {R : Runtime} {input : TypedInputContext}
    (hfor : input.IsFor R typed.inputSchema) (hinput : InputTyped typed.inputSchema input) :
    validateInput R typed input = .ok () := by
  have htypes : validateInputTypes typed input = .ok () := by
    refine Maps.forM_eq_ok.mpr fun field hfield => ?_
    cases hpresent : present input field.fieldId with
    | none => rfl
    | some v =>
      obtain ⟨hget, hne⟩ := Option.filter_eq_some_iff.mp hpresent
      exact checkInputTypeMatch_of_accepts (hinput field hfield v hget (by simpa using hne))
  unfold validateInput
  simp [hfor.1, hfor.2, htypes]

/-- The machine and the reference evaluator agree on an emitted decision. -/
theorem agree_of_emitted (R : Runtime) {Q : Pools} (hemitted : Emitted typed compiled Q)
    (htyped : typed.WellTyped catalogue)
    (hshape : ∀ rule ∈ typed.rules, ∀ p ∈ rule.when.preds, p.WellShaped)
    {input : TypedInputContext} (hfor : input.IsFor R typed.inputSchema)
    (hinput : InputTyped typed.inputSchema input) (source : String) :
    ∃ result expected enough,
      (∀ fuel, enough ≤ fuel → runVm R fuel compiled input source = .returned result) ∧
      Reference.evaluate R typed input source = some expected ∧
      Agree compiled input source result expected := by
  obtain ⟨final, enough, hrun, htraces, hmatched, houtput, hvisits⟩ :=
    run_emitted hemitted htyped hshape input source
  have hvm : ∀ fuel, enough ≤ fuel →
      runVm R fuel compiled input source = .returned (finalize R compiled final) := by
    intro fuel hfuel
    rw [runVm, hemitted.inputSchema, if_neg (by simp [hfor.1]), if_neg (by simp [hfor.2]),
      hrun fuel hfuel]
    rfl
  have hvalid := validateInput_ok hfor hinput
  have hwinner := decideOutcome_considered typed input
  cases hwin : winner typed input with
  | error e =>
    rw [hwin] at hwinner
    have hfinal : finalize R compiled final = .error e := by
      rw [finalize, hemitted.hitPolicy, hmatched, hwinner.1]
      rfl
    refine ⟨.error e, .error e, enough, fun fuel hfuel => ?_, ?_, rfl, hwinner.2⟩
    · rw [hvm fuel hfuel, hfinal]
    · rw [Reference.evaluate, hvalid, hwin]
      rfl
  | ok rule =>
    rw [hwin] at hwinner
    obtain ⟨hone, hrule⟩ := hwinner
    rw [hone] at hmatched houtput
    have hdecide : decideOutcome compiled.hitPolicy final.matchedRules = .ok rule.ruleId := by
      rw [hmatched]
      cases compiled.hitPolicy <;> rfl
    have hslots : rule.assigns.foldlM assign (List.replicate typed.outputSchema.length .null) =
        some (final.output.map (·.getD .null)) := by
      have hfields : ∀ a ∈ rule.assigns, a.outputField <
          (List.replicate typed.outputSchema.length (none : Option TypedValue)).length := by
        intro a ha
        obtain ⟨entry, hentry, -⟩ := (htyped.rules rule hrule).values a ha
        simpa using (List.getElem?_eq_some_iff.mp hentry).1
      have hstored := map_stored _ rule.assigns hfields
      rw [List.map_replicate] at hstored
      rw [houtput]
      exact hstored
    have hfinal : finalize R compiled final = .ok {
        output := ⟨final.output.map (·.getD .null), R.computeSchemaHash typed.outputSchema⟩
        trace := ⟨padTraces compiled final, .hit rule.ruleId⟩ } := by
      rw [finalize, hdecide, hemitted.outputSchema]
      rfl
    have hexpected : Reference.evaluate R typed input source = some (.ok {
        output := ⟨final.output.map (·.getD .null), R.computeSchemaHash typed.outputSchema⟩
        trace := ⟨typed.rules.map (ruleTrace input source), .hit rule.ruleId⟩ }) := by
      rw [Reference.evaluate, hvalid, hwin]
      change (buildOutputContext R typed.outputSchema rule.assigns).bind _ = _
      rw [buildOutputContext, hslots]
      rfl
    refine ⟨_, _, enough, fun fuel hfuel => (hvm fuel hfuel).trans (congrArg _ hfinal), hexpected,
      rfl, rfl, fun k entry hentry hvisited => ?_⟩
    refine flags_agree htyped.ids ?_ htraces (hvisits k entry hentry hvisited) hentry
    rw [hemitted.ruleMap, ruleEntries_ruleIds]

end Agreement

end BpmnLite.Dmn
