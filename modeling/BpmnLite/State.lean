import BpmnLite.Isa

/-!
# Fibres, records and instances

The runtime state a command transforms: fibres with their operand and control stacks, the
activation records of open scopes, and the process instance. `Host` gathers the third-party
functions the source calls (the hash, the JSON codec); ids are derived by hashing a tagged
seed, so `IdSeed` lists the seeds and `Host.uuidOfSeed` stands for the truncated digest.
-/

namespace BpmnLite

structure F64 where
  bits : ℕ
  deriving DecidableEq

def F64.isFinite (x : F64) : Bool := x.bits / 2 ^ 52 % 2 ^ 11 ≠ 2047

/-- A JSON document. Objects are kept in the order of their keys. -/
inductive Json where
  | null
  | bool (b : Bool)
  | int (n : ℤ)
  | float (x : F64)
  | string (s : String)
  | array (items : List Json)
  | object (fields : List (String × Json))

namespace Json

/-- Replaces the value at `key`, or inserts it at its place in the key order. -/
def insertField (key : String) (value : Json) : List (String × Json) → List (String × Json)
  | [] => [(key, value)]
  | (k, v) :: rest =>
    match compare key k with
    | .lt => (key, value) :: (k, v) :: rest
    | .eq => (key, value) :: rest
    | .gt => (k, v) :: insertField key value rest

def asObject : Json → Option (List (String × Json))
  | .object fields => some fields
  | _ => none

def get (json : Json) (key : String) : Option Json :=
  json.asObject.bind (List.lookup key)

end Json

/-- A job key: the activation a service task derives, or a text that came with a command. The
source's key text `instance:task:pc:epoch` is injective in its four parts. -/
inductive JobKey where
  | activation (instanceId : Uuid) (serviceTaskId : String) (pc : Addr) (loopEpoch : ℕ)
  | text (s : String)
  deriving DecidableEq

def JobKey.isEmpty : JobKey → Bool
  | .text s => s = ""
  | .activation .. => false

structure SessionScopeState where
  clientGroupId : Uuid
  clientGroupName : Option String
  deriving DecidableEq

inductive SessionWorkspaceKind where
  | productMaintenance | catalogue | deal | cbu | kyc | instrumentMatrix | onBoarding
  | semOsMaintenance | lifecycleResources | bookingPrincipal | bpmn
  deriving DecidableEq

structure SessionStackState where
  sessionId : Uuid := 0
  scope : Option SessionScopeState := none
  activeWorkspace : Option SessionWorkspaceKind := none
  workspaceStack : List Json := []
  traceSequence : ℕ := 0

/-- What a derived id is hashed from. -/
inductive IdSeed where
  | instruction (instanceId fiberId : Uuid) (pc : Addr) (ordinal : ℕ)
  | transition (instanceId : Uuid) (revision ordinal : ℕ)
  | timerFire (timerId : EffectId) (fireCount : ℕ)
  | command (commandId : Uuid) (revision ordinal : ℕ)
  | runnable (instanceId : Uuid) (revision : ℕ)
  deriving DecidableEq

/-- The third-party functions the source rests on. -/
structure Host where
  uuidOfSeed : IdSeed → Uuid
  contentHash : String → Digest
  jsonOfText : String → Except String Json
  jsonToText : Json → String
  jsonOfBytes : Bytes → Except String Json
  jsonToBytes : Json → Bytes
  toRollbackSnapshot : SessionStackState → String
  fromRollbackSnapshot : String → Except String SessionStackState

namespace Host

variable (H : Host)

def forInstructionOrdinal (instanceId fiberId : Uuid) (pc : Addr) (ordinal : ℕ) : EffectId :=
  H.uuidOfSeed (.instruction instanceId fiberId pc ordinal)

def forInstruction (instanceId fiberId : Uuid) (pc : Addr) : EffectId :=
  H.forInstructionOrdinal instanceId fiberId pc 0

def forTransition (instanceId : Uuid) (revision ordinal : ℕ) : EffectId :=
  H.uuidOfSeed (.transition instanceId revision ordinal)

def forCommand (commandId : Uuid) (revision ordinal : ℕ) : EffectId :=
  H.uuidOfSeed (.command commandId revision ordinal)

end Host

inductive V2RaceArm where
  | timer (target : Addr)
  | msg (target : Addr) (name : ℕ) (corrKey : String)
  | effect (target : Addr) (effectId : EffectId) (templateId : Digest)
  deriving DecidableEq

inductive WaitState where
  | running
  | timer (deadlineMs : ℕ)
  | msg (waitId : WaitId) (name : ℕ) (corrKey : String)
  | job (jobKey : JobKey)
  | effect (effectId : EffectId)
  | join (joinId : JoinId)
  | incident (incidentId : Uuid)
  | v2Barrier (recordId : RecordId)
  | v2Race (recordId : RecordId) (arms : List V2RaceArm)
  deriving DecidableEq

structure Fiber where
  fiberId : Uuid
  pc : Addr
  stack : List Value := []
  wait : WaitState := .running
  loopEpoch : ℕ := 0
  controlStack : List Handle := []
  deriving DecidableEq

def Fiber.new (fiberId : Uuid) (pc : Addr) : Fiber := { fiberId, pc }

inductive ProcessState where
  | running
  | completed (atTime : Timestamp)
  | cancelled (reason : String) (atTime : Timestamp)
  | terminated (atTime : Timestamp)
  | failed (incidentId : Uuid)
  | incidented (incidentId : Uuid)
  | waitingOnSubmission (calloutId : Uuid) (nodeId : String)
  | waitingOnInvocation (executionId : Uuid) (nodeId : String)
  deriving DecidableEq

def ProcessState.isTerminal : ProcessState → Bool
  | .completed _ | .cancelled _ _ | .terminated _ | .failed _ => true
  | .running | .incidented _ | .waitingOnSubmission _ _ | .waitingOnInvocation _ _ => false

structure ProcessInstance where
  instanceId : Uuid
  tenantId : String
  processKey : String
  bytecodeVersion : Digest
  domainPayload : String
  domainPayloadHash : Digest
  sessionStack : SessionStackState
  flags : BTreeMap FlagKey Value
  counters : BTreeMap ℕ ℕ
  joinExpected : BTreeMap JoinId ℕ
  state : ProcessState
  correlationId : String
  entryId : Uuid
  runbookId : Uuid
  createdAt : Timestamp
  integrityHash : Option Digest
  quarantineState : Option String
  planHash : Option Digest
  currentNodeId : Option String
  placeholderValues : Option Json

namespace ProcessInstance

/-- `trim_start_matches('@')`. -/
def trimAt (s : String) : String := String.ofList (s.toList.dropWhile (· = '@'))

/-- `replace('-', "_")`. -/
def dashToUnderscore (s : String) : String :=
  String.ofList (s.toList.map (fun c => if c = '-' then '_' else c))

def bindPlaceholderFromPayload (H : Host) (inst : ProcessInstance) (placeholder : String) :
    Except String ProcessInstance := do
  let payload ← (H.jsonOfText inst.domainPayload).mapError (fun _ => "domain payload is not JSON")
  let some object := payload.asObject | .error "domain payload is not a JSON object"
  let plain := trimAt placeholder
  let snake := dashToUnderscore plain
  let some value := ((object.lookup placeholder).or (object.lookup plain)).or (object.lookup snake)
    | .error "declared DSL output is absent from domain payload"
  let some placeholders := (inst.placeholderValues.getD (.object [])).asObject
    | .error "placeholder state is not a JSON object"
  return { inst with
    placeholderValues := some (.object (Json.insertField placeholder value placeholders)) }

def canonicalJsonScalar : Json → Option String
  | .string s => some s
  | .bool true => some "true"
  | .bool false => some "false"
  | _ => none

def placeholderMatches (inst : ProcessInstance) (placeholder expected : String) : Bool :=
  match inst.placeholderValues.bind (·.get placeholder) with
  | some value => canonicalJsonScalar value = some expected
  | none => false

end ProcessInstance

end BpmnLite
