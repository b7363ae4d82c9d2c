import BpmnLite.State

/-!
# FFI bindings and correlation keys

How an instruction reads process data for an FFI call or a correlation key, and how an FFI result
is written back into the flags and the domain payload.
-/

namespace BpmnLite

inductive Literal where
  | bool (b : Bool)
  | i64 (n : ℤ)
  | f64 (x : F64)
  | string (s : String)
  deriving DecidableEq

inductive BindingSource where
  | literal (value : Literal)
  | flagRef (key : FlagKey)
  | domainPayloadRef (path : List String)
  deriving DecidableEq

inductive BindingTarget where
  | flagWrite (key : FlagKey)
  | domainPayloadWrite (path : List String)
  deriving DecidableEq

structure CompiledFfiInputBinding where
  targetField : String
  source : BindingSource
  deriving DecidableEq

structure CompiledFfiOutputBinding where
  sourceField : String
  target : BindingTarget
  deriving DecidableEq

structure FfiTaskDecl where
  templateId : Digest
  inputs : List CompiledFfiInputBinding
  outputs : List CompiledFfiOutputBinding
  deriving DecidableEq

inductive FfiBindingError where
  | invalidDomainPayload (error : String)
  | invalidOutput (error : String)
  | missingValue (label : String)
  | wrongType (label : String)
  deriving DecidableEq

def readJsonPath (root : Json) : List String → Option Json
  | [] => some root
  | segment :: path => (root.get segment).bind (readJsonPath · path)

/-- Writes `value` at the end of the path; every parent must already be an object. -/
def writeJsonPath (value : Json) : Json → List String → Except FfiBindingError Json
  | _, [] => .error (.missingValue "empty output path")
  | root, [last] =>
    match root.asObject with
    | some fields => .ok (.object (Json.insertField last value fields))
    | none => .error (.wrongType last)
  | root, segment :: next :: path =>
    match root.asObject with
    | none => .error (.missingValue segment)
    | some fields =>
      match fields.lookup segment with
      | none => .error (.missingValue segment)
      | some child => do
        let child ← writeJsonPath value child (next :: path)
        return .object (Json.insertField segment child fields)

variable (H : Host) (inst : ProcessInstance)

def resolveBindingScalarWithDomain (source : BindingSource) (domain : Json) (label : String) :
    Except FfiBindingError Json :=
  match source with
  | .literal (.bool value) => .ok (.bool value)
  | .literal (.i64 value) => .ok (.int value)
  | .literal (.f64 value) => if value.isFinite then .ok (.float value) else .error (.wrongType label)
  | .literal (.string value) => .ok (.string value)
  | .flagRef key =>
    match inst.flags[key]? with
    | some (.bool value) => .ok (.bool value)
    | some (.i64 value) => .ok (.int value)
    | some (.str value) => .ok (.int value)
    | some (.ref value) => .ok (.int value)
    | some (.array _) => .error (.wrongType label)
    | none => .error (.missingValue label)
  | .domainPayloadRef path =>
    match readJsonPath domain path with
    | some value => .ok value
    | none => .error (.missingValue label)

def resolveBindingScalar (source : BindingSource) (label : String) :
    Except FfiBindingError Json := do
  let domain ← match source with
    | .domainPayloadRef _ => (H.jsonOfText inst.domainPayload).mapError .invalidDomainPayload
    | .literal _ | .flagRef _ => .ok .null
  resolveBindingScalarWithDomain inst source domain label

def correlationKeyString : Json → Except FfiBindingError String
  | .bool value => .ok (if value then "true" else "false")
  | .string value => .ok value
  | .int value => .ok (toString value)
  | .float _ =>
    .error (.wrongType "correlation key must be an integer or string, not a float")
  | .null | .array _ | .object _ =>
    .error (.wrongType "correlation key must be a scalar (bool, integer, or string)")

def resolveCorrelationKey (source : BindingSource) : Except FfiBindingError String := do
  correlationKeyString (← resolveBindingScalar H inst source "correlation key")

def encodeFfiInputs (declaration : FfiTaskDecl) : Except FfiBindingError Bytes := do
  let domain ← (H.jsonOfText inst.domainPayload).mapError .invalidDomainPayload
  let object ← declaration.inputs.foldlM (fun object binding => do
    let value ← resolveBindingScalarWithDomain inst binding.source domain binding.targetField
    return Json.insertField binding.targetField value object) []
  return H.jsonToBytes (.object object)

/-- One output binding: the flags and the domain document are threaded through. -/
def applyFfiOutput (output : Json) (state : BTreeMap FlagKey Value × Json)
    (binding : CompiledFfiOutputBinding) :
    Except FfiBindingError (BTreeMap FlagKey Value × Json) :=
  match output.get binding.sourceField with
  | none => .error (.missingValue binding.sourceField)
  | some value =>
    match binding.target with
    | .flagWrite key =>
      match value with
      | .bool b => .ok (state.1.insert key (.bool b), state.2)
      | .int n => if -2 ^ 63 ≤ n ∧ n < 2 ^ 63 then .ok (state.1.insert key (.i64 n), state.2)
          else .error (.wrongType binding.sourceField)
      | _ => .error (.wrongType binding.sourceField)
    | .domainPayloadWrite path => do
      let domain ← writeJsonPath value state.2 path
      return (state.1, domain)

def applyFfiOutputs (declaration : FfiTaskDecl) (bytes : Bytes) :
    Except FfiBindingError ProcessInstance := do
  let output ← (H.jsonOfBytes bytes).mapError .invalidOutput
  let domain ← (H.jsonOfText inst.domainPayload).mapError .invalidDomainPayload
  let (flags, domain) ← declaration.outputs.foldlM (applyFfiOutput output) (inst.flags, domain)
  let canonical := H.jsonToText domain
  return { inst with
    flags, domainPayload := canonical, domainPayloadHash := H.contentHash canonical }

end BpmnLite
