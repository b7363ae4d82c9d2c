import BpmnLite.Dmn.Agreement
import BpmnLite.Dmn.LowerSpec
import BpmnLite.Dmn.ParserSpec

/-!
# From a source to its result

A source that parses and lowers without errors is emitted, passes the verifier, and the machine then
agrees with the reference evaluator on every input.
-/

namespace BpmnLite.Dmn

open Collect Emit

section Shape

variable {R : Runtime} {catalogue : Catalogue} {schema : List FieldSchema}

theorem PredicateFor.wellShaped {p : PredicateAst} {q : TypedPredicate}
    (h : PredicateFor R catalogue schema p q) (hwell : p.WellFormed) : q.WellShaped := by
  induction p generalizing q with
  | eq | notEq | lt | le | gt | ge | inSet | range | isNull | isNotNull =>
    cases h
    trivial
  | not inner span ih =>
    rw [PredicateAst.WellFormed] at hwell
    cases h with
    | not hinner =>
      have hshape := ih hinner hwell
      exact hshape
  | and items span ih | or items span ih =>
    rw [PredicateAst.WellFormed, PredicateAst.allWellFormed_iff] at hwell
    cases h
    case _ hitems =>
      refine ⟨hwell.1.trans_eq hitems.length_eq, everyAll_of_forall₂ hitems fun p hp q hpq => ?_⟩
      exact ih p hp hpq (hwell.2 p hp)

theorem WhenFor.wellShaped {w : WhenAst} {typed : TypedWhen}
    (h : WhenFor R catalogue schema w typed) (hwell : w.WellFormed) :
    ∀ q ∈ typed.preds, q.WellShaped := by
  intro q hq
  obtain ⟨preds, span, rfl, p, hp, hpq⟩ := h.exists_of_mem hq
  exact hpq.wellShaped (hwell p hp)

theorem DecisionFor.wellShaped {ast : DecisionAst} {typed : TypedDecision}
    (h : DecisionFor R catalogue ast typed) (hwell : ast.WellFormed) :
    ∀ rule ∈ typed.rules, ∀ q ∈ rule.when.preds, q.WellShaped := by
  intro rule hrule
  obtain ⟨ruleAst, hmem, hfor⟩ := exists_of_forall₂_right h.rules hrule
  exact hfor.when.wellShaped (hwell.rules ruleAst hmem)

end Shape

section Compile

variable {R : Runtime} {catalogue : Catalogue}

theorem lowerToIr_spec {fuel : ℕ} {tokens : Parser.Cursor} {source : Source}
    (hparse : parse fuel tokens = .ok source) (hlower : (lowerToIr R catalogue source).errors = []) :
    ∃ typed, (lowerToIr R catalogue source).decision = some typed ∧ typed.WellTyped catalogue ∧
      (typed.inputSchema.map (·.name)).Nodup ∧
      ∀ rule ∈ typed.rules, ∀ q ∈ rule.when.preds, q.WellShaped := by
  obtain ⟨ast, -, hast, hwell, -⟩ := parse_ok hparse
  have hsame : lowerToIr R catalogue source = lower R catalogue ast := by
    rw [lowerToIr, hast]
  rw [hsame] at hlower ⊢
  obtain ⟨typed, notes, hrun, hfor, htyped, hnames⟩ := yields_lowerDecision hlower
  refine ⟨typed, ?_, htyped, hnames, hfor.wellShaped hwell⟩
  rw [lower, hrun]

theorem verify_of_checked {compiled : CompiledDecision} (h : Checked compiled) :
    ∃ verified, verify compiled = .ok verified ∧ verified.asCompiled = compiled := by
  have hchecks := verifyChecks_eq_ok_iff.mpr h
  refine ⟨⟨compiled, hchecks⟩, ?_, rfl⟩
  unfold verify
  split
  case h_1 => rfl
  case h_2 e herror =>
    rw [hchecks] at herror
    cases herror

structure Compiled (catalogue : Catalogue) (typed : TypedDecision) (compiled : CompiledDecision)
    (verified : VerifiedDecision) (Q : Pools) : Prop where
  wellTyped : typed.WellTyped catalogue
  names : (typed.inputSchema.map (·.name)).Nodup
  shape : ∀ rule ∈ typed.rules, ∀ p ∈ rule.when.preds, p.WellShaped
  emits : emit typed = some compiled
  emitted : Emitted typed compiled Q
  verifies : verify compiled = .ok verified
  same : verified.asCompiled = compiled

theorem exists_compiled {fuel : ℕ} {tokens : Parser.Cursor} {source : Source}
    (hparse : parse fuel tokens = .ok source) (hlower : (lowerToIr R catalogue source).errors = []) :
    ∃ typed compiled verified Q, (lowerToIr R catalogue source).decision = some typed ∧
      Compiled catalogue typed compiled verified Q := by
  obtain ⟨typed, hdecision, htyped, hnames, hshape⟩ := lowerToIr_spec hparse hlower
  have hready : ∀ rule ∈ typed.rules, RuleReady rule := fun rule hrule =>
    ruleReady (htyped.rules rule hrule) (hshape rule hrule)
  obtain ⟨compiled, Q, hemit, hemitted⟩ := emit_spec hready
  obtain ⟨verified, hverify, hsame⟩ := verify_of_checked (hemitted.checked htyped hshape)
  exact ⟨typed, compiled, verified, Q, hdecision, htyped, hnames, hshape, hemit, hemitted, hverify,
    hsame⟩

/-- Compiled decisions agree with the reference evaluator. -/
theorem compiled_agrees {fuel : ℕ} {tokens : Parser.Cursor} {source : Source}
    (hparse : parse fuel tokens = .ok source) (hlower : (lowerToIr R catalogue source).errors = []) :
    ∃ typed compiled verified, (lowerToIr R catalogue source).decision = some typed ∧
      Emit.emit typed = some compiled ∧ verify compiled = .ok verified ∧
      ∀ input : TypedInputContext, input.IsFor R typed.inputSchema →
        InputTyped typed.inputSchema input → ∀ text : String,
        ∃ result expected enough,
          (∀ steps, enough ≤ steps → Vm.evaluate R steps verified input text = .returned result) ∧
          Reference.evaluate R typed input text = some expected ∧
          Agree compiled input text result expected := by
  obtain ⟨typed, compiled, verified, Q, hdecision, h⟩ := exists_compiled hparse hlower
  refine ⟨typed, compiled, verified, hdecision, h.emits, h.verifies, fun input hfor hinput text => ?_⟩
  obtain ⟨result, expected, enough, hrun, hagree⟩ :=
    agree_of_emitted R h.emitted h.wellTyped h.shape hfor hinput text
  refine ⟨result, expected, enough, fun steps hsteps => ?_, hagree⟩
  rw [Vm.evaluate, h.same]
  exact hrun steps hsteps

end Compile

namespace Sample

def gradingInputs : List FieldSchema :=
  [⟨0, "grade", .enum 1, default⟩, ⟨1, "score", .integer, default⟩]

/-- Parses and lowers without errors, to a decision over these inputs. -/
def compiles (tokens : Parser.Cursor) (inputs : List FieldSchema) : Bool :=
  match parse 40 tokens with
  | .ok source =>
    let lowered := lowerToIr ⟨fun _ => 0, fun _ => none⟩ grades source
    lowered.errors = [] ∧ lowered.decision.map (·.inputSchema) = some inputs
  | .error _ => false

def gradingInput : TypedInputContext := ⟨[some (.enum 1 10), some (.integer 70)], 0⟩

theorem gradingInput_typed : InputTyped gradingInputs gradingInput := by
  intro field hfield v hv _
  simp only [gradingInputs, List.mem_cons, List.not_mem_nil, or_false] at hfield
  rcases hfield with rfl | rfl <;> cases hv
  · rfl
  · trivial

theorem grading_agrees :
    ∃ source typed compiled verified,
      parse 40 (cursor (Parser.printDecision grading)) = .ok source ∧
      (lowerToIr ⟨fun _ => 0, fun _ => none⟩ grades source).errors = [] ∧
      (lowerToIr ⟨fun _ => 0, fun _ => none⟩ grades source).decision = some typed ∧
      Emit.emit typed = some compiled ∧ verify compiled = .ok verified ∧
      ∃ result expected enough,
        (∀ steps, enough ≤ steps →
          Vm.evaluate ⟨fun _ => 0, fun _ => none⟩ steps verified gradingInput "" =
            .returned result) ∧
        Reference.evaluate ⟨fun _ => 0, fun _ => none⟩ typed gradingInput "" = some expected ∧
        Agree compiled gradingInput "" result expected := by
  have hcompiles : compiles (cursor (Parser.printDecision grading)) gradingInputs = true := by
    decide +kernel
  unfold compiles at hcompiles
  split at hcompiles
  case h_1 source hparse =>
    obtain ⟨hlower, hinputs⟩ := of_decide_eq_true hcompiles
    obtain ⟨typed, compiled, verified, hdecision, hemit, hverify, hagree⟩ :=
      compiled_agrees hparse hlower
    rw [hdecision] at hinputs
    have hschema : typed.inputSchema = gradingInputs := Option.some.inj hinputs
    refine ⟨source, typed, compiled, verified, hparse, hlower, hdecision, hemit, hverify,
      hagree gradingInput ?_ ?_ ""⟩
    · rw [hschema]
      exact ⟨rfl, rfl⟩
    · rw [hschema]
      exact gradingInput_typed
  case h_2 => cases hcompiles

end Sample

end BpmnLite.Dmn
