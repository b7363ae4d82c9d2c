import BpmnLite.Abort
import BpmnLite.Kernel.Tick
import BpmnLite.Dmn.Pipeline

/-!
# The services in front of the machine

The bus server and the in-process bridge build an input context from what a caller sends, run the
machine on it and render the output. The machine looks at the schema hash and the number of slots
only, so the types are what the two conversions make them. Each turns a symbol it does not resolve
into a string, and nothing after it stops that string from meeting rules about an enum field.
-/

namespace BpmnLite.Dmn

open Abort Collect
open Vm (Ending)

variable {value value' : FieldSchema → Option TypedValue} {name : String}
  {verified : VerifiedDecision} {schema : List FieldSchema} {field other : FieldSchema}
  {catalogue : Catalogue} {compiled : CompiledDecision} {Q : Emit.Pools} {ty : ResolvedType}
  {typed : TypedDecision}

section Builder

inductive InputContextError where
  | unknownFieldName (name : String)

def InputContextError.display : InputContextError → String
  | unknownFieldName name => s!"no field named '{name}' in schema"

/-- What the services take from outside: the derived `Debug` texts, the `Display` text of an
evaluation error, the JSON parser, and `as f64` of an integer. -/
structure Formats where
  inputContextErrorDebug : InputContextError → String
  evalErrorDebug : EvalError → String
  evalErrorDisplay : EvalError → String
  fromSlice : List UInt8 → Except String Json
  intAsF64 : ℤ → F64

structure TypedInputContextBuilder where
  slots : List (Option TypedValue)
  schemaHash : SchemaHash
  nameToId : List (String × FieldId)

namespace TypedInputContextBuilder

def new (R : Runtime) (schema : List FieldSchema) : TypedInputContextBuilder where
  slots := List.replicate schema.length none
  schemaHash := R.computeSchemaHash schema
  nameToId := schema.map fun field => (field.name, field.fieldId)

/-- `set_by_name`, which panics on an id outside the slots. -/
def setByName (builder : TypedInputContextBuilder) (name : String) (value : TypedValue) :
    ExceptT InputContextError Option TypedInputContextBuilder :=
  match builder.nameToId.find? (·.1 = name) with
  | none => throw (.unknownFieldName name)
  | some (_, id) =>
    if id < builder.slots.length then
      return { builder with slots := builder.slots.set id (some value) }
    else ExceptT.lift none

def build (builder : TypedInputContextBuilder) : TypedInputContext :=
  ⟨builder.slots, builder.schemaHash⟩

end TypedInputContextBuilder

/-- What both services do with a context they built: refuse the call, or run the machine and answer
with its error or its rendered output. -/
def serve {δ ρ : Type} (R : Runtime) (steps : ℕ) (decision : VerifiedDecision) (text : String)
    (built : ExceptT String Option TypedInputContext) (refused : String → ρ)
    (failed : EvalError → ρ) (render : TypedOutputContext → Option δ)
    (succeeded : EvaluationOutput → δ → ρ) : Ending ρ :=
  match built.run with
  | none => .panicked
  | some (.error message) => .returned (refused message)
  | some (.ok input) =>
    match Vm.evaluate R steps decision input text with
    | .running => .running
    | .panicked => .panicked
    | .returned (.error e) => .returned (failed e)
    | .returned (.ok output) =>
      match render output.output with
      | none => .panicked
      | some rendered => .returned (succeeded output rendered)

end Builder

namespace Server

inductive ProtoTypedValueKind where
  | stringValue (s : String)
  | intValue (n : Int64)
  | doubleValue (d : F64)
  | boolValue (b : Bool)
  | uuidValue (bytes : List UInt8)
  | blobValue (bytes : List UInt8)
  | nullValue (b : Bool)

structure ProtoTypedValue where
  value : Option ProtoTypedValueKind
  typeName : String

structure ResolvedBinding where
  name : String
  value : Option ProtoTypedValue

inductive DecisionEvaluatorError where
  | unknownDecision (id : String)
  | malformed (message : String)
  | internal (message : String)

/-- The outcome of a decision that was evaluated; its kind is always `Committed`. -/
structure DecisionOutcome where
  executionId : Uuid
  detail : String
  bindings : List ResolvedBinding

structure CatalogueEntry where
  sourceText : String
  verified : VerifiedDecision

def protoTypedValueKind (value : ProtoTypedValue) : String :=
  match value.value with
  | some (.stringValue _) => "string"
  | some (.intValue _) => "int"
  | some (.doubleValue _) => "double"
  | some (.boolValue _) => "bool"
  | some (.uuidValue _) => "uuid"
  | some (.blobValue _) => "blob"
  | some (.nullValue _) => "null"
  | none => "<unset>"

/-- The typed value of a binding for a field of a type. A symbol of an enum field stays a string. -/
def typedOf (name : String) (ty : ResolvedType) (message : ProtoTypedValue) :
    Except String TypedValue :=
  match ty, message.value with
  | .bool, some (.boolValue b) => .ok (.bool b)
  | .integer, some (.intValue n) => .ok (.integer n.toInt)
  | .decimal, some (.doubleValue d) => .ok (.decimal d)
  | .str, some (.stringValue s) => .ok (.str s)
  | .enum _, some (.stringValue s) => .ok (.str s)
  | _, some (.nullValue _) => .ok .null
  | expected, some _ => .error (s!"binding '{name}' type mismatch — " ++
      s!"expected {expected.typeName}, got {protoTypedValueKind message}")
  | _, none => .error s!"binding '{name}' has empty value oneof"

section Conversions

variable (R : Runtime) (formats : Formats)

def bindInput (schema : List FieldSchema) (builder : TypedInputContextBuilder)
    (binding : ResolvedBinding) : ExceptT String Option TypedInputContextBuilder := do
  let some message := binding.value | throw s!"binding '{binding.name}' missing value"
  let some field := schema.find? (·.name = binding.name)
    | throw s!"unknown input field '{binding.name}'"
  let typed ← ExceptT.mk (some (typedOf binding.name field.fieldType message))
  ExceptT.adapt formats.inputContextErrorDebug (builder.setByName binding.name typed)

def buildInputContext (schema : List FieldSchema) (inputs : List ResolvedBinding) :
    ExceptT String Option TypedInputContext := do
  let builder ← inputs.foldlM (bindInput formats schema) (.new R schema)
  return builder.build

def typedToProto (value : TypedValue) (fieldType : ResolvedType) : ProtoTypedValue :=
  match value with
  | .bool b => ⟨some (.boolValue b), "bool"⟩
  | .integer n => ⟨some (.intValue (.ofInt n)), "i64"⟩
  | .decimal d => ⟨some (.doubleValue d), "f64"⟩
  | .str s => ⟨some (.stringValue s), "string"⟩
  | .enum _ valueId => ⟨some (.stringValue (uuidText valueId.toNat)), "enum"⟩
  | .null => ⟨some (.nullValue true), fieldType.typeName⟩

/-- Reading an output outside the slots is a panic. -/
def outputToBindings (schema : List FieldSchema) (output : TypedOutputContext) :
    Option (List ResolvedBinding) :=
  schema.mapM fun field => output.slots[field.fieldId]?.map fun value =>
    ⟨field.name, some (typedToProto value field.fieldType)⟩

def evaluateEntry (steps : ℕ) (executionId : Uuid) (entry : CatalogueEntry)
    (inputs : List ResolvedBinding) : Ending (Except DecisionEvaluatorError DecisionOutcome) :=
  let compiled := entry.verified.asCompiled
  serve R steps entry.verified entry.sourceText
    (buildInputContext R formats compiled.inputSchema inputs)
    (fun message => .error (.malformed s!"{compiled.name}: {message}"))
    (fun e => .error (.internal s!"{compiled.name}: {formats.evalErrorDebug e}"))
    (outputToBindings compiled.outputSchema)
    fun _ bindings => .ok {
      executionId
      detail := s!"evaluated decision '{compiled.name}' via dmn-lite stack VM"
      bindings }

def evaluate (steps : ℕ) (executionId : Uuid) (decisions : List (String × CatalogueEntry))
    (localDecisionId : String) (inputs : List ResolvedBinding) :
    Ending (Except DecisionEvaluatorError DecisionOutcome) :=
  match decisions.lookup localDecisionId with
  | none => .returned (.error (.unknownDecision localDecisionId))
  | some entry => evaluateEntry R formats steps executionId entry inputs

end Conversions

end Server

namespace Bridge

abbrev ValueResolver := DomainId → String → Option TypedValue

abbrev TemplateId := Vector UInt8 32

structure DmnLiteOwner where
  decisions : List (TemplateId × VerifiedDecision)
  resolver : Option ValueResolver

structure FfiCall where
  templateId : TemplateId
  inputPayload : List UInt8

/-- The answer to a call, with the documents that are serialised into its payloads. Every incident
here is a contract violation without a retry hint. -/
inductive FfiResult where
  | success (outputPayload : Json) (trace : EvaluationTrace)
  | noMatch
  | incident (message : String)

def typeNameJson : Json → String
  | .null => "null"
  | .bool _ => "bool"
  | .int _ | .float _ => "number"
  | .string _ => "string"
  | .array _ => "array"
  | .object _ => "object"

section Conversions

variable (R : Runtime) (formats : Formats)

def jsonToTypedValue (v : Json) (fieldType : ResolvedType) (resolver : Option ValueResolver) :
    Except String TypedValue :=
  match fieldType with
  | .bool =>
    match v with
    | .bool b => .ok (.bool b)
    | other => .error s!"expected bool, got {typeNameJson other}"
  | .integer =>
    match v with
    | .int n =>
      if -2 ^ 63 ≤ n ∧ n < 2 ^ 63 then .ok (.integer n)
      else .error s!"expected integer, got {typeNameJson v}"
    | other => .error s!"expected integer, got {typeNameJson other}"
  | .decimal =>
    match v with
    | .int n => .ok (.decimal (formats.intAsF64 n))
    | .float x => .ok (.decimal ⟨.ofNat x.bits⟩)
    | other => .error s!"expected number, got {typeNameJson other}"
  | .str =>
    match v with
    | .string s => .ok (.str s)
    | other => .error s!"expected string, got {typeNameJson other}"
  | .enum domain =>
    match v with
    | .string symbol =>
      match resolver.bind (· domain symbol) with
      | some typed => .ok typed
      -- The comment in the source expects the evaluator to refuse the string.
      | none => .ok (.str symbol)
    | other => .error s!"expected string symbol for enum, got {typeNameJson other}"

/-- The body of the loop over the schema: a field that is absent stays missing. -/
def bindField (json : Json) (resolver : Option ValueResolver) (builder : TypedInputContextBuilder)
    (field : FieldSchema) : ExceptT String Option TypedInputContextBuilder := do
  let some v := json.get field.name | return builder
  let typed ← ExceptT.mk (some ((jsonToTypedValue formats v field.fieldType resolver).mapError
    fun e => s!"field '{field.name}': {e}"))
  ExceptT.adapt (fun e => s!"set field '{field.name}': {e.display}")
    (builder.setByName field.name typed)

def buildInputContext (json : Json) (schema : List FieldSchema) (resolver : Option ValueResolver) :
    ExceptT String Option TypedInputContext := do
  let builder ← schema.foldlM (bindField formats json resolver) (.new R schema)
  return builder.build

/-- A number JSON cannot hold becomes null. -/
def typedValueToJson : TypedValue → Json
  | .bool b => .bool b
  | .integer n => .int n
  | .decimal f =>
    let x : BpmnLite.F64 := ⟨f.bits.toNat⟩
    if x.isFinite then .float x else .null
  | .str s => .string s
  | .enum _ valueId => .string (uuidText valueId.toNat)
  | .null => .null

def outputToJson (schema : List FieldSchema) (output : TypedOutputContext) : Option Json := do
  let values ← schema.mapM fun field => output.slots[field.fieldId]?.map fun value =>
    (field.name, typedValueToJson value)
  return .object (values.foldl (fun fields entry => Json.insertField entry.1 entry.2 fields) [])

def hexByte (byte : UInt8) : String := String.ofList (hexDigits 2 byte.toNat)

def evalFailure : EvalError → FfiResult
  | .noMatch => .noMatch
  | e => .incident ("dmn-lite evaluation error: " ++ formats.evalErrorDisplay e)

def invoke (steps : ℕ) (owner : DmnLiteOwner) (call : FfiCall) : Ending (Except String FfiResult) :=
  match owner.decisions.lookup call.templateId with
  | none => .returned (.ok (.incident ("dmn-lite-bridge: template " ++
      hexByte call.templateId[0] ++ hexByte call.templateId[1] ++ "... not registered")))
  | some decision =>
    match formats.fromSlice call.inputPayload with
    | .error e => .returned (.error s!"invalid input_payload JSON: {e}")
    | .ok json =>
      let typedIr := decision.asCompiled.typedIr
      serve R steps decision ""
        (buildInputContext R formats json typedIr.inputSchema owner.resolver)
        (fun e => .ok (.incident s!"input binding error: {e}"))
        (fun e => .ok (evalFailure formats e))
        (outputToJson typedIr.outputSchema)
        fun output payload => .ok (.success payload output.trace)

end Conversions

end Bridge

section Slots

variable {R : Runtime} {builder : TypedInputContextBuilder}

/-- A builder of the schema with these values in its slots. -/
structure Filled (R : Runtime) (schema : List FieldSchema) (value : FieldSchema → Option TypedValue)
    (builder : TypedInputContextBuilder) : Prop where
  isFor : builder.build.IsFor R schema
  names : builder.nameToId = schema.map fun field => (field.name, field.fieldId)
  get : ∀ field ∈ schema, builder.build.get field.fieldId = value field

theorem filled_new : Filled R schema (fun _ => none) (.new R schema) := by
  refine ⟨⟨rfl, List.length_replicate⟩, rfl, fun field _ => ?_⟩
  change ((List.replicate schema.length none)[field.fieldId]?).join = none
  rw [List.getElem?_replicate]
  split <;> rfl

theorem Filled.congr (h : Filled R schema value builder)
    (heq : ∀ field ∈ schema, value field = value' field) : Filled R schema value' builder :=
  ⟨h.isFor, h.names, fun field hfield => (h.get field hfield).trans (heq field hfield)⟩

theorem Dense.lt_length (hdense : Dense schema) (hfield : field ∈ schema) :
    field.fieldId < schema.length := by
  obtain ⟨i, hi⟩ := List.mem_iff_getElem?.mp hfield
  rw [hdense i field hi]
  exact (List.getElem?_eq_some_iff.mp hi).1

theorem Dense.eq_of_fieldId (hdense : Dense schema) (hfield : field ∈ schema)
    (hother : other ∈ schema) (h : field.fieldId = other.fieldId) : field = other := by
  obtain ⟨i, hi⟩ := List.mem_iff_getElem?.mp hfield
  obtain ⟨j, hj⟩ := List.mem_iff_getElem?.mp hother
  rw [hdense i field hi, hdense j other hj] at h
  subst h
  exact Option.mem_unique hi hj

theorem eq_of_name (hnames : (schema.map (·.name)).Nodup) (hfield : field ∈ schema)
    (hother : other ∈ schema) (h : field.name = other.name) : field = other :=
  List.inj_on_of_nodup_map hnames hfield hother h

theorem find?_name (hnames : (schema.map (·.name)).Nodup) (hfield : field ∈ schema) :
    schema.find? (·.name = field.name) = some field := by
  obtain ⟨found, hfound⟩ : ∃ found, schema.find? (·.name = field.name) = some found :=
    Option.isSome_iff_exists.mp (List.find?_isSome.mpr ⟨field, hfield, by simp⟩)
  have hname : found.name = field.name := by simpa using List.find?_some hfound
  rw [hfound, eq_of_name hnames (List.mem_of_find?_eq_some hfound) hfield hname]

theorem Filled.setByName (h : Filled R schema value builder) (hdense : Dense schema)
    (hfind : schema.find? (·.name = name) = some field) (v : TypedValue) :
    ∃ builder', (builder.setByName name v).run = some (.ok builder') ∧
      Filled R schema (fun f => if f = field then some v else value f) builder' := by
  have hmem := List.mem_of_find?_eq_some hfind
  have hid : builder.nameToId.find? (·.1 = name) = some (field.name, field.fieldId) := by
    rw [h.names, List.find?_map]
    exact congrArg (Option.map _) hfind
  have hlt : field.fieldId < builder.slots.length :=
    (hdense.lt_length hmem).trans_eq h.isFor.2.symm
  refine ⟨{ builder with slots := builder.slots.set field.fieldId (some v) }, ?_,
    ⟨h.isFor.1, List.length_set.trans h.isFor.2⟩, h.names, fun other hother => ?_⟩
  · rw [TypedInputContextBuilder.setByName, hid]
    dsimp only
    rw [if_pos hlt]
    rfl
  · have hget := h.get other hother
    change ((builder.slots.set field.fieldId (some v))[other.fieldId]?).join = _
    rw [List.getElem?_set]
    by_cases hsame : other = field
    · rw [if_pos (congrArg FieldSchema.fieldId hsame.symm), if_pos hlt, if_pos hsame]
      rfl
    · rw [if_neg fun heq => hsame (hdense.eq_of_fieldId hmem hother heq).symm, if_neg hsame]
      exact hget

end Slots

section Compiled

variable {R : Runtime} {input : TypedInputContext}

/-- The values placed in a context have the type of their field; null stands for no value. -/
def Placed (catalogue : Catalogue) (schema : List FieldSchema) (input : TypedInputContext) : Prop :=
  ∀ field ∈ schema, ∀ v, input.get field.fieldId = some v → v ≠ .null →
    HasType catalogue v field.fieldType

theorem Placed.inputTyped (h : Placed catalogue schema input) : InputTyped schema input := by
  intro field hfield v hv hnull
  have htype := h field hfield v hv hnull
  revert htype
  cases field.fieldType <;> cases v <;> simp +contextual [HasType, Accepts]

/-- The machine answers, and on typed values with the output of the reference evaluator. -/
theorem Compiled.evaluate (h : Compiled catalogue typed compiled verified Q)
    (hfor : input.IsFor R typed.inputSchema) (text : String) :
    ∃ result enough,
      (∀ steps, enough ≤ steps → Vm.evaluate R steps verified input text = .returned result) ∧
      ∀ out, result = .ok out → out.output.slots.length = typed.outputSchema.length ∧
        (InputTyped typed.inputSchema input → ∃ expected,
          Reference.evaluate R typed input text = some (.ok expected) ∧
          expected.output = out.output) := by
  obtain ⟨final, enough, hrun, -, -, houtput, -⟩ :=
    run_emitted h.emitted h.wellTyped h.shape input text
  have hvm : ∀ steps, enough ≤ steps →
      Vm.evaluate R steps verified input text = .returned (Vm.finalize R compiled final) := by
    intro steps hsteps
    rw [Vm.evaluate, h.same, Vm.runVm, h.emitted.inputSchema, if_neg (by simp [hfor.1]),
      if_neg (by simp [hfor.2]), hrun steps hsteps]
    rfl
  refine ⟨Vm.finalize R compiled final, enough, hvm, fun out hout => ⟨?_, fun htyped => ?_⟩⟩
  · have hslots : out.output.slots = final.output.map (·.getD .null) := by
      obtain ⟨rule, -, hout⟩ := Maps.bind_eq_ok.mp hout
      cases hout
      rfl
    have hlength : ∀ (rules : List TypedRule) (output : List (Option TypedValue)),
        (rules.foldl (fun output rule => Vm.stored output rule.assigns) output).length =
          output.length := by
      intro rules
      induction rules with
      | nil => exact fun _ => rfl
      | cons rule rules ih => exact fun output => (ih _).trans (Vm.length_stored output rule.assigns)
    rw [hslots, List.length_map, houtput, hlength, List.length_replicate]
  · obtain ⟨result, expected, enough', hrun', hexpected, hagree⟩ :=
      agree_of_emitted R h.emitted h.wellTyped h.shape hfor htyped text
    have hboth := (hvm (max enough enough') (le_max_left _ _)).symm
    rw [Vm.evaluate, h.same, hrun' _ (le_max_right _ _), hout] at hboth
    cases hboth
    cases expected with
    | error e => exact hagree.elim
    | ok expected => exact ⟨expected, hexpected, hagree.1.symm⟩

/-- The values placed are typed, and what is reported is the output the reference evaluator has for
them. -/
def Faithful {δ : Type} (R : Runtime) (catalogue : Catalogue) (typed : TypedDecision) (text : String)
    (built : ExceptT String Option TypedInputContext) (render : TypedOutputContext → Option δ)
    (reported : δ) : Prop :=
  ∃ input expected, built.run = some (.ok input) ∧ Placed catalogue typed.inputSchema input ∧
    Reference.evaluate R typed input text = some (.ok expected) ∧
    render expected.output = some reported

/-- A service answers every call, and what it reports is as good as the types of its values. -/
theorem Compiled.serve (h : Compiled catalogue typed compiled verified Q) {δ ρ : Type}
    {built : ExceptT String Option TypedInputContext} {refused : String → ρ}
    {failed : EvalError → ρ} {render : TypedOutputContext → Option δ}
    {succeeded : EvaluationOutput → δ → ρ}
    (hbuilt : Answers built fun input => input.IsFor R typed.inputSchema)
    (hrender : ∀ output : TypedOutputContext, output.slots.length = typed.outputSchema.length →
      ∃ rendered, render output = some rendered) (text : String) :
    ∃ reply enough,
      (∀ steps, enough ≤ steps →
        serve R steps verified text built refused failed render succeeded = .returned reply) ∧
      ((∃ message, reply = refused message) ∨ (∃ e, reply = failed e) ∨
        ∃ input out rendered, built.run = some (.ok input) ∧ reply = succeeded out rendered ∧
          (Faithful R catalogue typed text built render rendered ↔
            Placed catalogue typed.inputSchema input)) := by
  obtain ⟨r, hr, hfor⟩ := hbuilt
  cases r with
  | error message =>
    exact ⟨refused message, 0, fun steps _ => by rw [Dmn.serve, hr], .inl ⟨message, rfl⟩⟩
  | ok input =>
    obtain ⟨result, enough, hrun, hresult⟩ := h.evaluate (hfor input rfl) text
    cases result with
    | error e =>
      refine ⟨failed e, enough, fun steps hsteps => ?_, .inr (.inl ⟨e, rfl⟩)⟩
      simp only [Dmn.serve, hr, hrun steps hsteps]
    | ok out =>
      obtain ⟨hlength, hsame⟩ := hresult out rfl
      obtain ⟨rendered, hrendered⟩ := hrender out.output hlength
      refine ⟨succeeded out rendered, enough, fun steps hsteps => ?_,
        .inr (.inr ⟨input, out, rendered, hr, rfl, ?_, fun hplaced => ?_⟩)⟩
      · simp only [Dmn.serve, hr, hrun steps hsteps, hrendered]
      · rintro ⟨input', -, hinput', hplaced, -⟩
        rw [hr] at hinput'
        cases hinput'
        exact hplaced
      · obtain ⟨expected, hexpected, houtput⟩ := hsame hplaced.inputTyped
        exact ⟨input, expected, hr, hplaced, hexpected, houtput ▸ hrendered⟩

theorem exists_read (hdense : Dense schema) {output : TypedOutputContext}
    (hlength : output.slots.length = schema.length) {ρ : Type}
    (render : FieldSchema → TypedValue → ρ) :
    ∃ rows, (schema.mapM fun field => output.slots[field.fieldId]?.map (render field)) =
      some rows := by
  obtain ⟨rows, hrows, -⟩ : ∃ rows, (schema.mapM fun field =>
      output.slots[field.fieldId]?.map (render field)) = some rows ∧ _ :=
    exists_mapM fun field hfield => ⟨_, congrArg (Option.map (render field))
      (List.getElem?_eq_getElem ((hdense.lt_length hfield).trans_eq hlength.symm))⟩
  exact ⟨rows, hrows⟩

theorem typedIr_of_emit (h : Emit.emit typed = some compiled) : compiled.typedIr = typed := by
  obtain ⟨ctx, -, hctx⟩ := Option.bind_eq_some_iff.mp h
  cases hctx
  rfl

end Compiled

namespace Server

variable {R : Runtime} {formats : Formats} {inputs : List ResolvedBinding}
  {input : TypedInputContext}

/-- What the last binding of a field's name gives the field. -/
def given (inputs : List ResolvedBinding) (field : FieldSchema) : Option TypedValue := do
  let binding ← inputs.reverse.find? (·.name = field.name)
  (typedOf binding.name field.fieldType (← binding.value)).toOption

theorem given_append (inputs : List ResolvedBinding) (binding : ResolvedBinding)
    (field : FieldSchema) : given (inputs ++ [binding]) field =
      if binding.name = field.name then
        binding.value.bind fun message => (typedOf binding.name field.fieldType message).toOption
      else given inputs field := by
  by_cases h : binding.name = field.name <;> simp [given, h]

theorem answers_bindInput (hdense : Dense schema) (hnames : (schema.map (·.name)).Nodup)
    {builder : TypedInputContextBuilder} (h : Filled R schema (given inputs) builder)
    (binding : ResolvedBinding) : Answers (bindInput formats schema builder binding)
      (Filled R schema (given (inputs ++ [binding]))) := by
  unfold bindInput
  cases hvalue : binding.value with
  | none => exact answers_error rfl
  | some message =>
    cases hfind : schema.find? (·.name = binding.name) with
    | none => exact answers_error rfl
    | some field =>
      cases htyped : typedOf binding.name field.fieldType message with
      | error e =>
        apply answers_bind
        exact answers_error (congrArg some htyped)
      | ok v =>
        apply answers_bind
        refine answers_ok (congrArg some htyped) ?_
        obtain ⟨builder', hset, hfilled⟩ := h.setByName hdense hfind v
        refine answers_ok (a := builder') ?_ (hfilled.congr fun other hother => ?_)
        · change Option.map _ (builder.setByName binding.name v).run = _
          rw [hset]
          rfl
        · have hfield := List.mem_of_find?_eq_some hfind
          have hname : field.name = binding.name := by simpa using List.find?_some hfind
          rw [given_append]
          by_cases hsame : other = field
          · subst hsame
            rw [if_pos rfl, if_pos hname.symm, hvalue, Option.bind_some, htyped]
            rfl
          · have hne : binding.name ≠ other.name := fun heq =>
              hsame (eq_of_name hnames hother hfield (hname.trans heq).symm)
            rw [if_neg hsame, if_neg hne]

theorem answers_buildInputContext (hdense : Dense schema) (hnames : (schema.map (·.name)).Nodup) :
    Answers (buildInputContext R formats schema inputs) fun input => input.IsFor R schema ∧
      ∀ field ∈ schema, input.get field.fieldId = given inputs field := by
  apply answers_bind
  obtain ⟨r, hr, hfilled⟩ := answers_foldlM (fun done => Filled R schema (given done))
    (fun _ binding _ _ _ h => answers_bindInput hdense hnames h binding) filled_new
  exact ⟨r, hr, fun builder hb => answers_ok rfl ⟨(hfilled builder hb).isFor, (hfilled builder hb).get⟩⟩

/-- No enum field gets its value as a string. -/
def SymbolFree (schema : List FieldSchema) (inputs : List ResolvedBinding) : Prop :=
  ∀ field ∈ schema, ∀ domain, field.fieldType = .enum domain →
    ∀ binding, inputs.reverse.find? (·.name = field.name) = some binding →
    ∀ message, binding.value = some message → ∀ s, message.value ≠ some (.stringValue s)

theorem typedOf_ok (catalogue : Catalogue) {message : ProtoTypedValue} {v : TypedValue}
    (h : typedOf name ty message = .ok v) : v = .null ∨ HasType catalogue v ty ∨
      ∃ domain s, ty = .enum domain ∧ message.value = some (.stringValue s) := by
  unfold typedOf at h
  split at h <;> cases h
  case h_1 | h_3 | h_4 => exact .inr (.inl trivial)
  case h_2 n _ => exact .inr (.inl ⟨n.le_toInt, n.toInt_lt⟩)
  case h_5 domain s heq => exact .inr (.inr ⟨domain, s, rfl, heq⟩)
  case h_6 => exact .inl rfl

theorem placed_iff (hget : ∀ field ∈ schema, input.get field.fieldId = given inputs field) :
    Placed catalogue schema input ↔ SymbolFree schema inputs := by
  constructor
  · intro h field hfield domain hty binding hfind message hvalue s hs
    have hgiven : given inputs field = some (.str s) := by
      simp [given, hfind, hvalue, typedOf, hty, hs, Except.toOption]
    have htype := h field hfield _ ((hget field hfield).trans hgiven) (by simp)
    rw [hty] at htype
    exact htype
  · intro h field hfield v hv hnull
    rw [hget field hfield, given] at hv
    obtain ⟨binding, hfind, hv⟩ := Option.bind_eq_some_iff.mp hv
    obtain ⟨message, hvalue, hv⟩ := Option.bind_eq_some_iff.mp hv
    cases htyped : typedOf binding.name field.fieldType message with
    | error e => simp [htyped, Except.toOption] at hv
    | ok w =>
      obtain rfl : w = v := by simpa [htyped, Except.toOption] using hv
      rcases typedOf_ok catalogue htyped with hw | hw | ⟨domain, s, hty, hs⟩
      · exact absurd hw hnull
      · exact hw
      · exact absurd hs (h field hfield domain hty binding hfind message hvalue s)

theorem evaluate_spec (h : Compiled catalogue typed compiled verified Q)
    {decisions : List (String × CatalogueEntry)} {id text : String}
    (hentry : decisions.lookup id = some ⟨text, verified⟩) (executionId : Uuid)
    (inputs : List ResolvedBinding) :
    ∃ reply enough,
      (∀ steps, enough ≤ steps →
        evaluate R formats steps executionId decisions id inputs = .returned reply) ∧
      ∀ outcome, reply = .ok outcome →
        (Faithful R catalogue typed text (buildInputContext R formats typed.inputSchema inputs)
            (outputToBindings typed.outputSchema) outcome.bindings ↔
          SymbolFree typed.inputSchema inputs) := by
  have hbuilt : Answers (buildInputContext R formats typed.inputSchema inputs) _ :=
    answers_buildInputContext h.wellTyped.inputs h.names
  have hrender : ∀ output : TypedOutputContext, output.slots.length = typed.outputSchema.length →
      ∃ bindings, outputToBindings typed.outputSchema output = some bindings :=
    fun _ hlength => exists_read h.wellTyped.outputs hlength _
  obtain ⟨reply, enough, hcall, hreply⟩ :=
    h.serve (hbuilt.mono fun _ hinput => hinput.1) hrender text
  refine ⟨reply, enough, fun steps hsteps => ?_, ?_⟩
  · rw [evaluate, hentry]
    simp only [evaluateEntry, h.same, h.emitted.inputSchema, h.emitted.outputSchema]
    exact hcall steps hsteps
  · rintro outcome rfl
    obtain ⟨_, ⟨⟩⟩ | ⟨_, ⟨⟩⟩ | ⟨input, out, bindings, hinput, ⟨⟩, hfaithful⟩ := hreply
    exact hfaithful.trans (placed_iff (hbuilt.of_run hinput).2)

end Server

namespace Bridge

variable {R : Runtime} {formats : Formats} {json : Json} {resolver : Option ValueResolver}
  {input : TypedInputContext}

/-- What a document gives a field. -/
def given (formats : Formats) (json : Json) (resolver : Option ValueResolver)
    (field : FieldSchema) : Option TypedValue := do
  (jsonToTypedValue formats (← json.get field.name) field.fieldType resolver).toOption

/-- Every symbol for an enum field is resolved, to null or to a value of the field's domain. -/
def Resolves (catalogue : Catalogue) (resolver : Option ValueResolver) (schema : List FieldSchema)
    (json : Json) : Prop :=
  ∀ field ∈ schema, ∀ domain, field.fieldType = .enum domain →
    ∀ symbol, json.get field.name = some (.string symbol) →
    ∃ v, resolver.bind (· domain symbol) = some v ∧
      (v = .null ∨ HasType catalogue v (.enum domain))

theorem answers_bindField (hdense : Dense schema) (hnames : (schema.map (·.name)).Nodup)
    {done rest : List FieldSchema} (hschema : schema = done ++ field :: rest)
    {builder : TypedInputContextBuilder}
    (h : Filled R schema (fun f => if f ∈ done then given formats json resolver f else none)
      builder) :
    Answers (bindField formats json resolver builder field) (Filled R schema
      (fun f => if f ∈ done ++ [field] then given formats json resolver f else none)) := by
  have hmem : field ∈ schema := by simp [hschema]
  have hnew : field ∉ done := by
    intro hold
    rw [hschema, List.map_append, List.map_cons, List.nodup_append] at hnames
    exact hnames.2.2 _ (List.mem_map_of_mem hold) _ List.mem_cons_self rfl
  unfold bindField
  cases hget : json.get field.name with
  | none =>
    refine answers_ok rfl (h.congr fun other _ => ?_)
    by_cases hsame : other = field
    · subst hsame
      simp [hnew, given, hget]
    · simp [hsame]
  | some v =>
    cases htyped : jsonToTypedValue formats v field.fieldType resolver with
    | error e =>
      apply answers_bind
      apply answers_error
      rw [ExceptT.run_mk, htyped]
      rfl
    | ok w =>
      apply answers_bind
      refine answers_ok (a := w) (by rw [ExceptT.run_mk, htyped]; rfl) ?_
      obtain ⟨builder', hset, hfilled⟩ := h.setByName hdense (find?_name hnames hmem) w
      refine answers_ok (a := builder') ?_ (hfilled.congr fun other _ => ?_)
      · change Option.map _ (builder.setByName field.name w).run = _
        rw [hset]
        rfl
      · by_cases hsame : other = field
        · subst hsame
          simp [given, hget, htyped, Except.toOption]
        · simp [hsame]

theorem answers_buildInputContext (hdense : Dense schema) (hnames : (schema.map (·.name)).Nodup) :
    Answers (buildInputContext R formats json schema resolver) fun input => input.IsFor R schema ∧
      ∀ field ∈ schema, input.get field.fieldId = given formats json resolver field := by
  apply answers_bind
  obtain ⟨r, hr, hfilled⟩ := answers_foldlM (fun done => Filled R schema
      fun f => if f ∈ done then given formats json resolver f else none)
    (fun _ _ _ _ hschema h => answers_bindField hdense hnames hschema h)
    (filled_new.congr fun _ _ => rfl)
  refine ⟨r, hr, fun builder hb => answers_ok rfl ⟨(hfilled builder hb).isFor, ?_⟩⟩
  intro field hfield
  rw [(hfilled builder hb).get field hfield, if_pos hfield]

theorem jsonToTypedValue_symbol (domain : DomainId) (symbol : String) :
    jsonToTypedValue formats (.string symbol) (.enum domain) resolver =
      .ok ((resolver.bind (· domain symbol)).getD (.str symbol)) := by
  simp only [jsonToTypedValue]
  cases resolver.bind (· domain symbol) <;> rfl

theorem jsonToTypedValue_ok (catalogue : Catalogue) {v : Json} {w : TypedValue}
    (h : jsonToTypedValue formats v ty resolver = .ok w) : HasType catalogue w ty ∨
      ∃ domain symbol, ty = .enum domain ∧ v = .string symbol ∧
        (resolver.bind (· domain symbol)).getD (.str symbol) = w := by
  cases ty with
  | enum domain =>
    cases v with
    | string symbol =>
      rw [jsonToTypedValue_symbol] at h
      exact .inr ⟨domain, symbol, rfl, rfl, Except.ok.inj h⟩
    | null | bool | int | float | array | object => cases h
  | integer =>
    cases v with
    | int n =>
      simp only [jsonToTypedValue] at h
      split at h <;> cases h
      exact .inl ‹_›
    | null | bool | float | string | array | object => cases h
  | bool | decimal | str => cases v <;> cases h <;> exact .inl trivial

theorem placed_iff
    (hget : ∀ field ∈ schema, input.get field.fieldId = given formats json resolver field) :
    Placed catalogue schema input ↔ Resolves catalogue resolver schema json := by
  constructor
  · intro h field hfield domain hty symbol hsymbol
    have hgiven : given formats json resolver field =
        some ((resolver.bind (· domain symbol)).getD (.str symbol)) := by
      rw [given, hsymbol, hty]
      exact congrArg Except.toOption (jsonToTypedValue_symbol domain symbol)
    have htype := h field hfield _ ((hget field hfield).trans hgiven)
    rw [hty] at htype
    cases hresolved : resolver.bind (· domain symbol) with
    | none =>
      rw [hresolved] at htype
      exact (htype (by simp)).elim
    | some v =>
      rw [hresolved] at htype
      exact ⟨v, rfl, or_iff_not_imp_left.mpr htype⟩
  · intro h field hfield v hv hnull
    rw [hget field hfield, given] at hv
    obtain ⟨found, hfound, hv⟩ := Option.bind_eq_some_iff.mp hv
    cases htyped : jsonToTypedValue formats found field.fieldType resolver with
    | error e => simp [htyped, Except.toOption] at hv
    | ok w =>
      obtain rfl : w = v := by simpa [htyped, Except.toOption] using hv
      rcases jsonToTypedValue_ok catalogue htyped with hw | ⟨domain, symbol, hty, rfl, hw⟩
      · exact hw
      · obtain ⟨u, hu, hkind⟩ := h field hfield domain hty symbol hfound
        rw [hu] at hw
        obtain rfl : u = w := hw
        rw [hty]
        exact hkind.resolve_left hnull

theorem invoke_spec (h : Compiled catalogue typed compiled verified Q) {owner : DmnLiteOwner}
    {call : FfiCall} (hentry : owner.decisions.lookup call.templateId = some verified)
    (hjson : formats.fromSlice call.inputPayload = .ok json) :
    ∃ reply enough,
      (∀ steps, enough ≤ steps → invoke R formats steps owner call = .returned reply) ∧
      ∀ payload trace, reply = .ok (.success payload trace) →
        (Faithful R catalogue typed ""
            (buildInputContext R formats json typed.inputSchema owner.resolver)
            (outputToJson typed.outputSchema) payload ↔
          Resolves catalogue owner.resolver typed.inputSchema json) := by
  have hbuilt : Answers (buildInputContext R formats json typed.inputSchema owner.resolver) _ :=
    answers_buildInputContext h.wellTyped.inputs h.names
  have hrender : ∀ output : TypedOutputContext, output.slots.length = typed.outputSchema.length →
      ∃ payload, outputToJson typed.outputSchema output = some payload := by
    intro output hlength
    obtain ⟨rows, hrows⟩ := exists_read h.wellTyped.outputs hlength
      fun field value => (field.name, typedValueToJson value)
    exact ⟨_, by rw [outputToJson, hrows]; rfl⟩
  obtain ⟨reply, enough, hcall, hreply⟩ :=
    h.serve (hbuilt.mono fun _ hinput => hinput.1) hrender ""
  refine ⟨reply, enough, fun steps hsteps => ?_, ?_⟩
  · rw [invoke, hentry]
    simp only [hjson, h.same, typedIr_of_emit h.emits]
    exact hcall steps hsteps
  · rintro payload trace rfl
    obtain ⟨_, ⟨⟩⟩ | ⟨e, he⟩ | ⟨input, out, payload, hinput, ⟨⟩, hfaithful⟩ := hreply
    · cases e <;> cases he
    · exact hfaithful.trans (placed_iff (hbuilt.of_run hinput).2)

end Bridge

section Calls

variable {R : Runtime}

/-- A call that succeeds has placed typed values and reports the output of the reference evaluator
exactly when no symbol was left unresolved: for the server, when no enum field was given a string;
for the bridge, when its resolver has a value of the domain for every symbol. -/
theorem success_faithful_iff {fuel : ℕ} {tokens : Parser.Cursor} {source : Source}
    (hparse : parse fuel tokens = .ok source) (hlower : (lowerToIr R catalogue source).errors = []) :
    ∃ typed compiled verified, (lowerToIr R catalogue source).decision = some typed ∧
      Emit.emit typed = some compiled ∧ verify compiled = .ok verified ∧
      ∀ formats : Formats,
        (∀ (decisions : List (String × Server.CatalogueEntry)) (id text : String),
          decisions.lookup id = some ⟨text, verified⟩ →
          ∀ (executionId : Uuid) (inputs : List Server.ResolvedBinding), ∃ reply enough,
            (∀ steps, enough ≤ steps →
              Server.evaluate R formats steps executionId decisions id inputs = .returned reply) ∧
            ∀ outcome, reply = .ok outcome →
              (Faithful R catalogue typed text
                  (Server.buildInputContext R formats typed.inputSchema inputs)
                  (Server.outputToBindings typed.outputSchema) outcome.bindings ↔
                Server.SymbolFree typed.inputSchema inputs)) ∧
        ∀ (owner : Bridge.DmnLiteOwner) (call : Bridge.FfiCall) (json : Json),
          owner.decisions.lookup call.templateId = some verified →
          formats.fromSlice call.inputPayload = .ok json → ∃ reply enough,
            (∀ steps, enough ≤ steps →
              Bridge.invoke R formats steps owner call = .returned reply) ∧
            ∀ payload trace, reply = .ok (.success payload trace) →
              (Faithful R catalogue typed ""
                  (Bridge.buildInputContext R formats json typed.inputSchema owner.resolver)
                  (Bridge.outputToJson typed.outputSchema) payload ↔
                Bridge.Resolves catalogue owner.resolver typed.inputSchema json) := by
  obtain ⟨typed, compiled, verified, Q, hdecision, h⟩ := exists_compiled hparse hlower
  refine ⟨typed, compiled, verified, hdecision, h.emits, h.verifies, fun formats => ⟨?_, ?_⟩⟩
  · intro decisions id text hentry executionId inputs
    exact Server.evaluate_spec h hentry executionId inputs
  · intro owner call json hentry hjson
    exact Bridge.invoke_spec h hentry hjson

end Calls

namespace Sample

def runtime : Runtime := ⟨fun _ => 0, fun _ => none⟩

/-- A grade that is none of the domain's. -/
def purple : Json := .object [("grade", .string "purple"), ("score", .int 70)]

def document : List UInt8 :=
  "\x7b\"grade\":\"purple\",\"score\":70\x7d".toUTF8.data.toList

def formats : Formats where
  inputContextErrorDebug _ := ""
  evalErrorDebug _ := ""
  evalErrorDisplay _ := ""
  fromSlice bytes := if bytes = document then .ok purple else .error "syntax"
  intAsF64 _ := ⟨0⟩

def scoreBindings : List Server.ResolvedBinding := [⟨"score", some ⟨some (.intValue 70), "i64"⟩⟩]

def purpleBindings : List Server.ResolvedBinding :=
  ⟨"grade", some ⟨some (.stringValue "purple"), "string"⟩⟩ :: scoreBindings

def call : Bridge.FfiCall := ⟨Vector.replicate 32 0, document⟩

/-- The calls with a grade no one resolves, and calls that meet the condition: without a grade, and
with a resolver that reads every grade as null. -/
theorem grading_served :
    ∃ source typed compiled verified,
      parse 40 (cursor (Parser.printDecision grading)) = .ok source ∧
      (lowerToIr runtime grades source).errors = [] ∧
      (lowerToIr runtime grades source).decision = some typed ∧
      Emit.emit typed = some compiled ∧ verify compiled = .ok verified ∧
      Server.SymbolFree typed.inputSchema scoreBindings ∧
      Bridge.Resolves grades (some fun _ _ => some .null) typed.inputSchema purple ∧
      (∀ inputs ∈ [purpleBindings, scoreBindings], ∃ reply enough,
        (∀ steps, enough ≤ steps → Server.evaluate runtime formats steps 7
          [("grading", ⟨"", verified⟩)] "grading" inputs = .returned reply) ∧
        ∀ outcome, reply = .ok outcome → (Faithful runtime grades typed ""
            (Server.buildInputContext runtime formats typed.inputSchema inputs)
            (Server.outputToBindings typed.outputSchema) outcome.bindings ↔
          Server.SymbolFree typed.inputSchema inputs)) ∧
      ∀ resolver ∈ [none, some fun _ _ => some .null], ∃ reply enough,
        (∀ steps, enough ≤ steps → Bridge.invoke runtime formats steps
          ⟨[(call.templateId, verified)], resolver⟩ call = .returned reply) ∧
        ∀ payload trace, reply = .ok (.success payload trace) → (Faithful runtime grades typed ""
            (Bridge.buildInputContext runtime formats purple typed.inputSchema resolver)
            (Bridge.outputToJson typed.outputSchema) payload ↔
          Bridge.Resolves grades resolver typed.inputSchema purple) := by
  have hcompiles : compiles (cursor (Parser.printDecision grading)) gradingInputs = true := by
    decide +kernel
  unfold compiles at hcompiles
  split at hcompiles
  case h_1 source hparse =>
    obtain ⟨hlower, -⟩ := of_decide_eq_true hcompiles
    obtain ⟨typed, compiled, verified, hdecision, hemit, hverify, hserved⟩ :=
      success_faithful_iff hparse hlower
    obtain ⟨hserver, hbridge⟩ := hserved formats
    refine ⟨source, typed, compiled, verified, hparse, hlower, hdecision, hemit, hverify, ?_,
      fun _ _ _ _ _ _ => ⟨.null, rfl, .inl rfl⟩,
      fun inputs _ => hserver _ _ _ (List.lookup_cons_self) 7 inputs,
      fun resolver _ => hbridge ⟨[(call.templateId, verified)], resolver⟩ call purple
        List.lookup_cons_self (by simp [formats, call])⟩
    rintro field - domain - binding hbinding message hmessage s
    obtain rfl := List.mem_singleton.mp (List.mem_reverse.mp (List.mem_of_find?_eq_some hbinding))
    obtain rfl := Option.some.inj hmessage
    simp
  case h_2 => cases hcompiles

/-- Whether each service reports success, beside what the reference evaluator says about the context
the service built. -/
def answersFor (typed : TypedDecision) (verified : VerifiedDecision) :
    List (Bool × Option (Except EvalError EvaluationOutput)) :=
  let reference (built : ExceptT String Option TypedInputContext) := do
    Reference.evaluate runtime typed (← (← built.run).toOption) ""
  [(match Server.evaluate runtime formats 100 7 [("grading", ⟨"", verified⟩)] "grading"
        purpleBindings with
      | .returned (.ok _) => true
      | _ => false,
    reference (Server.buildInputContext runtime formats typed.inputSchema purpleBindings)),
   (match Bridge.invoke runtime formats 100 ⟨[(call.templateId, verified)], none⟩ call with
      | .returned (.ok (.success ..)) => true
      | _ => false,
    reference (Bridge.buildInputContext runtime formats purple typed.inputSchema none))]

/-- Both services report success where the reference evaluator refuses the string. -/
theorem unresolved_symbol_succeeds :
    (do
      let source ← (parse 40 (cursor (Parser.printDecision grading))).toOption
      let typed ← (lowerToIr runtime grades source).decision
      let verified ← (verify (← Emit.emit typed)).toOption
      return ((lowerToIr runtime grades source).errors.isEmpty, answersFor typed verified)) =
      some (true, [(true, some (.error (.inputTypeMismatch "grade" 0 "enum" "string"))),
        (true, some (.error (.inputTypeMismatch "grade" 0 "enum" "string")))]) := by
  decide +kernel

end Sample

end BpmnLite.Dmn
