import BpmnLite.Canonical.Encode
import BpmnLite.Snapshot

/-!
# What the state hash is taken of

The canonical form of JSON, which may be refused, the bytes of an instance, of a persisted state and
of a snapshot envelope. The concurrency table, the pending effects, the revision and the artifact hash
enter the hash of the envelope after the bytes of the state.
-/

namespace BpmnLite

open Canonical

inductive CanonicalJsonError where
  | nonFiniteFloat
  | invalidJson (message : String)
  | lengthOverflow (kind : String) (len : ℕ)
  deriving DecidableEq

def CanonicalJsonError.message : CanonicalJsonError → String
  | .nonFiniteFloat =>
    "canonical encoding rejects a non-finite float (NaN or Infinity) in a JSON payload"
  | .invalidJson message => s!"canonical encoding: payload is not valid JSON: {message}"
  | .lengthOverflow kind len => s!"canonical encoding: {kind} length {len} exceeds u32::MAX"

namespace Canonical

def checkedLenU32 (len : ℕ) (kind : String) : Except CanonicalJsonError ℕ :=
  if len < 2 ^ 32 then .ok len else .error (.lengthOverflow kind len)

mutual

/-- A JSON document. A number is an `i64`, a `u64` or a double; other integers do not occur. -/
def encodeCanonicalJson : Json → Except CanonicalJsonError Bytes
  | .null => .ok (writeU8 0x00)
  | .bool b => .ok (writeU8 0x01 ++ writeBool b)
  | .int n =>
    if -2 ^ 63 ≤ n ∧ n < 2 ^ 63 then .ok (writeU8 0x02 ++ writeU64 (asU64 n))
    else if 0 ≤ n ∧ n < 2 ^ 64 then .ok (writeU8 0x03 ++ writeU64 n.toNat)
    else .error .nonFiniteFloat
  | .float x =>
    if x.isFinite then .ok (writeU8 0x04 ++ writeU64 x.bits) else .error .nonFiniteFloat
  | .string s => do
    let _ ← checkedLenU32 s.toUTF8.data.toList.length "JSON string"
    return writeU8 0x05 ++ writeStr s
  | .array items => do
    let len ← checkedLenU32 items.length "JSON array"
    let bytes ← encodeJsonItems items
    return writeU8 0x06 ++ (writeU32 len ++ bytes)
  | .object fields => do
    let len ← checkedLenU32 fields.length "JSON object"
    let bytes ← encodeJsonFields fields
    return writeU8 0x07 ++ (writeU32 len ++ bytes)

def encodeJsonItems : List Json → Except CanonicalJsonError Bytes
  | [] => .ok []
  | item :: items => do
    let bytes ← encodeCanonicalJson item
    let rest ← encodeJsonItems items
    return bytes ++ rest

def encodeJsonFields : List (String × Json) → Except CanonicalJsonError Bytes
  | [] => .ok []
  | (k, v) :: fields => do
    let _ ← checkedLenU32 k.toUTF8.data.toList.length "JSON object key"
    let bytes ← encodeCanonicalJson v
    let rest ← encodeJsonFields fields
    return writeStr k ++ (bytes ++ rest)

end

def encodeSessionStack (state : SessionStackState) : Except CanonicalJsonError Bytes := do
  let len ← checkedLenU32 state.workspaceStack.length "workspace_stack"
  let frames ← encodeJsonItems state.workspaceStack
  return uuid.canonicalEncode state.sessionId ++
    (writeOption state.scope sessionScopeState.canonicalEncode ++
    (writeOption state.activeWorkspace sessionWorkspaceKind.canonicalEncode ++
    (writeU32 len ++ (frames ++ writeU64 state.traceSequence))))

/-- The presence tag of an option whose content may be refused. -/
def encodeJsonOption : Option Json → Except CanonicalJsonError Bytes
  | none => .ok (writeU8 0x00)
  | some v => do
    let bytes ← encodeCanonicalJson v
    return writeU8 0x01 ++ bytes

end Canonical

def ProcessInstance.tryCanonicalHashBytes (H : Host) (inst : ProcessInstance) :
    Except CanonicalJsonError Bytes := do
  let domainPayloadValue ← (H.jsonOfText inst.domainPayload).mapError .invalidJson
  let payload ← encodeCanonicalJson domainPayloadValue
  let sessionStack ← encodeSessionStack inst.sessionStack
  let placeholders ← encodeJsonOption inst.placeholderValues
  return uuid.canonicalEncode inst.instanceId ++
    (writeStr inst.tenantId ++
    (writeStr inst.processKey ++
    (writeBytesFixed 32 inst.bytecodeVersion ++
    (payload ++
    (writeBytesFixed 32 inst.domainPayloadHash ++
    (sessionStack ++
    (writeSeq inst.flags.toList (fun entry => writeU32 entry.1 ++ value.canonicalEncode entry.2) ++
    (writeSeq inst.counters.toList (fun entry => writeU32 entry.1 ++ writeU32 entry.2) ++
    (writeSeq inst.joinExpected.toList (fun entry => writeU32 entry.1 ++ writeU16 entry.2) ++
    (processState.canonicalEncode inst.state ++
    (writeStr inst.correlationId ++
    (uuid.canonicalEncode inst.entryId ++
    (uuid.canonicalEncode inst.runbookId ++
    (writeU64 (asU64 inst.createdAt) ++
    (writeOption inst.quarantineState writeStr ++
    (writeOption inst.planHash (writeBytesFixed 32) ++
    (writeOption inst.currentNodeId writeStr ++
    placeholders)))))))))))))))))

/-- The error is passed on as its text. -/
def PersistedSnapshotState.tryCanonicalHashBytes (H : Host) (state : PersistedSnapshotState) :
    Except String Bytes := do
  let instanceBytes ← (state.inst.tryCanonicalHashBytes H).mapError CanonicalJsonError.message
  return writeBytes instanceBytes ++
    (writeSeq state.joinCounts.toList (fun entry => writeU32 entry.1 ++ writeU16 entry.2) ++
    (writeSeq state.incidents.toList (fun entry =>
      uuid.canonicalEncode entry.1 ++ incident.canonicalEncode entry.2) ++
    writeSeq state.fibers.toList (fun entry =>
      uuid.canonicalEncode entry.1 ++ fiber.canonicalEncode entry.2)))

/-- All that the hash of an envelope is taken of. -/
def SnapshotEnvelope.hashInput (H : Host) (envelope : SnapshotEnvelope) : Except String Bytes := do
  let state ← envelope.state.tryCanonicalHashBytes H
  return state ++
    (concurrencyTable.toCanonicalBytes envelope.state.concurrencyTable ++
    (effectIds.toCanonicalBytes envelope.state.pendingEffects ++
    (writeU64 envelope.revision ++ writeBytesFixed 32 envelope.artifactHash)))

def SnapshotEnvelope.stateHash (H : Host) (blake3 : Bytes → Digest) (envelope : SnapshotEnvelope) :
    Except String Digest := do
  return blake3 (← envelope.hashInput H)

end BpmnLite
