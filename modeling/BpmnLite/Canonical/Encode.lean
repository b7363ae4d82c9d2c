import BpmnLite.Codec
import BpmnLite.Kernel.Tick

/-!
# The canonical binary encoding

The tagged, length-prefixed format of the hash domain: a writer, which is the list of bytes it has
written, and a reader over a cursor, which stops at the first thing that cannot be read. Uuids and
digests are written with their highest byte first, so that the order of uuids as numbers is that of
their bytes; all other numbers are little-endian and lengths are cast to `u32`. A reader keeps the
number of arrays it may still open instead of the number it has opened: nothing is read after an
error, and on success the source's `array_depth` is as it was.
-/

namespace BpmnLite

open Codec

inductive CanonicalDecodeError where
  | unexpectedEof (offset : ℕ)
  | invalidUtf8
  | unknownTag (tag : ℕ) (typeName : String)
  | trailingBytes (count : ℕ)
  | valueArrayTooDeep (max : ℕ)
  | valueArrayTooLong (actual max : ℕ)
  deriving DecidableEq

namespace Canonical

section Writer

def writeU8 (v : ℕ) : Bytes := le 1 v
def writeU16 (v : ℕ) : Bytes := le 2 v
def writeU32 (v : ℕ) : Bytes := le 4 v
def writeU64 (v : ℕ) : Bytes := le 8 v

/-- `v as u64` for an `i64`. -/
def asU64 (v : ℤ) : ℕ := (v % 2 ^ 64).toNat

def writeBool (v : Bool) : Bytes := writeU8 (if v then 0x01 else 0x00)

/-- A number as `width` bytes, the highest first. -/
def writeBytesFixed (width v : ℕ) : Bytes := (le width v).reverse

def writeBytes (v : Bytes) : Bytes := writeU32 v.length ++ v

def writeStr (v : String) : Bytes := writeBytes v.toUTF8.data.toList

variable {α : Type}

def writeOption (v : Option α) (encodeSome : α → Bytes) : Bytes :=
  match v with
  | none => writeU8 0x00
  | some inner => writeU8 0x01 ++ encodeSome inner

def writeSeq (items : List α) (encodeItem : α → Bytes) : Bytes :=
  writeU32 items.length ++ items.flatMap encodeItem

end Writer

abbrev CanonicalReader := EStateM CanonicalDecodeError Cursor

section Reader

def take (n : ℕ) : CanonicalReader Bytes := fun c =>
  if c.rest.length < n then .error (.unexpectedEof c.pos) c
  else .ok (c.rest.take n) ⟨c.rest.drop n, c.pos + n⟩

def readU8 : CanonicalReader ℕ := do return leValue (← take 1)
def readU16 : CanonicalReader ℕ := do return leValue (← take 2)
def readU32 : CanonicalReader ℕ := do return leValue (← take 4)
def readU64 : CanonicalReader ℕ := do return leValue (← take 8)

/-- `v as i64` for a `u64`. -/
def asI64 (v : ℕ) : ℤ := if v < 2 ^ 63 then v else v - 2 ^ 64

def readBool : CanonicalReader Bool := do
  match ← readU8 with
  | 0x00 => return false
  | 0x01 => return true
  | tag => throw (.unknownTag tag "bool")

def readBytesFixed (width : ℕ) : CanonicalReader ℕ := do return leValue (← take width).reverse

def readBytes : CanonicalReader Bytes := do
  let len ← readU32
  take len

/-- `String::from_utf8(bytes).map_err(|_| InvalidUtf8)`. -/
def fromUtf8 (bytes : Bytes) : CanonicalReader String :=
  match String.fromUTF8? ⟨bytes.toArray⟩ with
  | some s => pure s
  | none => throw .invalidUtf8

def readStr : CanonicalReader String := do fromUtf8 (← readBytes)

variable {α : Type}

def readOption (decodeSome : CanonicalReader α) : CanonicalReader (Option α) := do
  match ← readU8 with
  | 0x00 => return none
  | 0x01 => return some (← decodeSome)
  | tag => throw (.unknownTag tag "Option presence tag")

def readSeq (decodeItem : CanonicalReader α) : CanonicalReader (List α) := do
  let len ← readU32
  items len decodeItem

end Reader

structure CanonicalEncode (α : Type) where
  canonicalEncode : α → Bytes
  canonicalDecode : CanonicalReader α

namespace CanonicalEncode

variable {α : Type} (C : CanonicalEncode α)

def toCanonicalBytes (x : α) : Bytes := C.canonicalEncode x

/-- The whole of the bytes has to be consumed. -/
def fromCanonicalBytes (bytes : Bytes) : Except CanonicalDecodeError α :=
  match C.canonicalDecode ⟨bytes, 0⟩ with
  | .ok x c => if c.rest = [] then .ok x else .error (.trailingBytes c.rest.length)
  | .error e _ => .error e

end CanonicalEncode

def uuid : CanonicalEncode Uuid where
  canonicalEncode id := writeBytesFixed 16 id
  canonicalDecode := readBytesFixed 16

def addr : CanonicalEncode Addr where
  canonicalEncode a := writeU32 a
  canonicalDecode := readU32

def recordId : CanonicalEncode RecordId where
  canonicalEncode id := uuid.canonicalEncode id
  canonicalDecode := uuid.canonicalDecode

def effectId : CanonicalEncode EffectId where
  canonicalEncode id := uuid.canonicalEncode id
  canonicalDecode := uuid.canonicalDecode

def recordKind : CanonicalEncode RecordKind where
  canonicalEncode
    | .guard interrupting => writeU8 0x00 ++ writeBool interrupting
    | .race => writeU8 0x01
    | .barrier => writeU8 0x02
    | .compensation => writeU8 0x03
  canonicalDecode := do
    match ← readU8 with
    | 0x00 => return .guard (← readBool)
    | 0x01 => return .race
    | 0x02 => return .barrier
    | 0x03 => return .compensation
    | tag => throw (.unknownTag tag "RecordKind")

def recordState : CanonicalEncode RecordState where
  canonicalEncode
    | .armed => writeU8 0x00
    | .retired => writeU8 0x01
  canonicalDecode := do
    match ← readU8 with
    | 0x00 => return .armed
    | 0x01 => return .retired
    | tag => throw (.unknownTag tag "RecordState")

def recordCounters : CanonicalEncode RecordCounters where
  canonicalEncode counters := writeU32 counters.arity ++ writeU32 counters.count
  canonicalDecode := do
    let arity ← readU32
    let count ← readU32
    return { arity, count }

section Value

mutual

def encodeValue : Value → Bytes
  | .bool b => writeU8 0x00 ++ writeBool b
  | .i64 v => writeU8 0x01 ++ writeU64 (asU64 v)
  | .str id => writeU8 0x02 ++ writeU32 id
  | .ref id => writeU8 0x03 ++ writeU32 id
  | .array items => writeU8 0x04 ++ (writeU32 items.length ++ encodeValues items)

def encodeValues : List Value → Bytes
  | [] => []
  | item :: items => encodeValue item ++ encodeValues items

end

def decodeTagged (array : CanonicalReader Value) : CanonicalReader Value := do
  match ← readU8 with
  | 0x00 => return .bool (← readBool)
  | 0x01 => return .i64 (asI64 (← readU64))
  | 0x02 => return .str (← readU32)
  | 0x03 => return .ref (← readU32)
  | 0x04 => array
  | tag => throw (.unknownTag tag "Value")

/-- A value that may open `left` arrays inside one another. -/
def decodeValue : (left : ℕ) → CanonicalReader Value
  | 0 => decodeTagged (throw (.valueArrayTooDeep maxValueArrayDepth))
  | left + 1 => decodeTagged do
    let len ← readU32
    if maxValueArrayLen < len then throw (.valueArrayTooLong len maxValueArrayLen)
    let items ← items len (decodeValue left)
    return .array items

def value : CanonicalEncode Value where
  canonicalEncode := encodeValue
  canonicalDecode := decodeValue maxValueArrayDepth

end Value

def collectSet (ids : List Uuid) : BTreeSet Uuid := ids.foldl (fun set id => set.insert id) ∅

/-- `into_iter().collect()` into a map: a later entry replaces an earlier one under its key. -/
def collectMap {ν : Type} (entries : List (ℕ × ν)) : BTreeMap ℕ ν :=
  entries.foldl (fun map entry => map.insert entry.1 entry.2) ∅

/-- A record as it is written: sets and maps are the sequences of their entries. -/
structure WireRecord where
  id : RecordId
  kind : RecordKind
  members : List Uuid
  handler : Option Addr
  state : RecordState
  counters : RecordCounters
  rollbackDomainPayload : Option String
  rollbackDomainPayloadHash : Option Digest
  rollbackFlags : Option (List (FlagKey × Value))
  rollbackJoinExpected : Option (List (JoinId × ℕ))
  rollbackSessionStack : Option String
  openedAt : Option Addr
  errorRoutes : List (Option String × Addr)

def wireRecord : CanonicalEncode WireRecord where
  canonicalEncode record :=
    recordId.canonicalEncode record.id ++
    (recordKind.canonicalEncode record.kind ++
    (writeSeq record.members uuid.canonicalEncode ++
    (writeOption record.handler addr.canonicalEncode ++
    (recordState.canonicalEncode record.state ++
    (recordCounters.canonicalEncode record.counters ++
    (writeOption record.rollbackDomainPayload writeStr ++
    (writeOption record.rollbackDomainPayloadHash (writeBytesFixed 32) ++
    (writeOption record.rollbackFlags (writeSeq · fun entry =>
      writeU32 entry.1 ++ value.canonicalEncode entry.2) ++
    (writeOption record.rollbackJoinExpected (writeSeq · fun entry =>
      writeU32 entry.1 ++ writeU16 entry.2) ++
    (writeOption record.rollbackSessionStack writeStr ++
    (writeOption record.openedAt addr.canonicalEncode ++
    writeSeq record.errorRoutes fun route =>
      writeOption route.1 writeStr ++ addr.canonicalEncode route.2)))))))))))
  canonicalDecode := do
    let id ← recordId.canonicalDecode
    let kind ← recordKind.canonicalDecode
    let members ← readSeq uuid.canonicalDecode
    let handler ← readOption addr.canonicalDecode
    let state ← recordState.canonicalDecode
    let counters ← recordCounters.canonicalDecode
    let rollbackDomainPayload ← readOption readStr
    let rollbackDomainPayloadHash ← readOption (readBytesFixed 32)
    let rollbackFlags ← readOption (readSeq do
      let k ← readU32
      let v ← value.canonicalDecode
      return (k, v))
    let rollbackJoinExpected ← readOption (readSeq do
      let k ← readU32
      let v ← readU16
      return (k, v))
    let rollbackSessionStack ← readOption readStr
    let openedAt ← readOption addr.canonicalDecode
    let errorRoutes ← readSeq do
      let code ← readOption readStr
      let a ← addr.canonicalDecode
      return (code, a)
    return {
      id, kind, members, handler, state, counters, rollbackDomainPayload, rollbackDomainPayloadHash,
      rollbackFlags, rollbackJoinExpected, rollbackSessionStack, openedAt, errorRoutes }

def WireRecord.collect (record : WireRecord) : ConcurrencyRecord where
  id := record.id
  kind := record.kind
  members := collectSet record.members
  handler := record.handler
  state := record.state
  counters := record.counters
  rollbackDomainPayload := record.rollbackDomainPayload
  rollbackDomainPayloadHash := record.rollbackDomainPayloadHash
  rollbackFlags := record.rollbackFlags.map collectMap
  rollbackJoinExpected := record.rollbackJoinExpected.map collectMap
  rollbackSessionStack := record.rollbackSessionStack
  openedAt := record.openedAt
  errorRoutes := record.errorRoutes

def recordEntries (record : ConcurrencyRecord) : WireRecord where
  id := record.id
  kind := record.kind
  members := record.members.toList
  handler := record.handler
  state := record.state
  counters := record.counters
  rollbackDomainPayload := record.rollbackDomainPayload
  rollbackDomainPayloadHash := record.rollbackDomainPayloadHash
  rollbackFlags := record.rollbackFlags.map (·.toList)
  rollbackJoinExpected := record.rollbackJoinExpected.map (·.toList)
  rollbackSessionStack := record.rollbackSessionStack
  openedAt := record.openedAt
  errorRoutes := record.errorRoutes

def concurrencyRecord : CanonicalEncode ConcurrencyRecord where
  canonicalEncode record := wireRecord.canonicalEncode (recordEntries record)
  canonicalDecode := do
    let record ← wireRecord.canonicalDecode
    return record.collect

def concurrencyTable : CanonicalEncode ConcurrencyTable where
  canonicalEncode table := writeSeq table.values concurrencyRecord.canonicalEncode
  canonicalDecode := do
    let records ← readSeq concurrencyRecord.canonicalDecode
    return records.foldl (fun table record => table.insert record.id record) ∅

def effectIds : CanonicalEncode (BTreeSet EffectId) where
  canonicalEncode ids := writeSeq ids.toList effectId.canonicalEncode
  canonicalDecode := do
    let ids ← readSeq effectId.canonicalDecode
    return collectSet ids

def v2RaceArm : CanonicalEncode V2RaceArm where
  canonicalEncode
    | .timer target => writeU8 0x00 ++ addr.canonicalEncode target
    | .msg target name corrKey =>
      writeU8 0x01 ++ (addr.canonicalEncode target ++ (writeU32 name ++ writeStr corrKey))
    | .effect target id templateId =>
      writeU8 0x02 ++ (addr.canonicalEncode target ++
        (effectId.canonicalEncode id ++ writeBytesFixed 32 templateId))
  canonicalDecode := do
    match ← readU8 with
    | 0x00 => return .timer (← addr.canonicalDecode)
    | 0x01 =>
      let target ← addr.canonicalDecode
      let name ← readU32
      let corrKey ← readStr
      return .msg target name corrKey
    | 0x02 =>
      let target ← addr.canonicalDecode
      let id ← effectId.canonicalDecode
      let templateId ← readBytesFixed 32
      return .effect target id templateId
    | tag => throw (.unknownTag tag "V2RaceArm")

def waitState : CanonicalEncode WaitState where
  canonicalEncode
    | .running => writeU8 0x00
    | .timer deadlineMs => writeU8 0x01 ++ writeU64 deadlineMs
    | .msg waitId name corrKey =>
      writeU8 0x02 ++ (writeU32 waitId ++ (writeU32 name ++ writeStr corrKey))
    | .job jobKey => writeU8 0x03 ++ writeStr jobKey.toText
    | .effect id => writeU8 0x04 ++ effectId.canonicalEncode id
    | .join joinId => writeU8 0x05 ++ writeU32 joinId
    | .incident incidentId => writeU8 0x07 ++ uuid.canonicalEncode incidentId
    | .v2Barrier id => writeU8 0x08 ++ recordId.canonicalEncode id
    | .v2Race id arms =>
      writeU8 0x09 ++ (recordId.canonicalEncode id ++ writeSeq arms v2RaceArm.canonicalEncode)
  canonicalDecode := do
    match ← readU8 with
    | 0x00 => return .running
    | 0x01 => return .timer (← readU64)
    | 0x02 =>
      let waitId ← readU32
      let name ← readU32
      let corrKey ← readStr
      return .msg waitId name corrKey
    | 0x03 => return .job (.text (← readStr))
    | 0x04 => return .effect (← effectId.canonicalDecode)
    | 0x05 => return .join (← readU32)
    | 0x07 => return .incident (← uuid.canonicalDecode)
    | 0x08 => return .v2Barrier (← recordId.canonicalDecode)
    | 0x09 =>
      let id ← recordId.canonicalDecode
      let arms ← readSeq v2RaceArm.canonicalDecode
      return .v2Race id arms
    | tag => throw (.unknownTag tag "WaitState")

def processState : CanonicalEncode ProcessState where
  canonicalEncode
    | .running => writeU8 0x00
    | .completed atTime => writeU8 0x01 ++ writeU64 (asU64 atTime)
    | .cancelled reason atTime => writeU8 0x02 ++ (writeStr reason ++ writeU64 (asU64 atTime))
    | .terminated atTime => writeU8 0x03 ++ writeU64 (asU64 atTime)
    | .failed incidentId => writeU8 0x04 ++ uuid.canonicalEncode incidentId
    | .incidented incidentId => writeU8 0x07 ++ uuid.canonicalEncode incidentId
    | .waitingOnSubmission calloutId nodeId =>
      writeU8 0x05 ++ (uuid.canonicalEncode calloutId ++ writeStr nodeId)
    | .waitingOnInvocation executionId nodeId =>
      writeU8 0x06 ++ (uuid.canonicalEncode executionId ++ writeStr nodeId)
  canonicalDecode := do
    match ← readU8 with
    | 0x00 => return .running
    | 0x01 => return .completed (asI64 (← readU64))
    | 0x02 =>
      let reason ← readStr
      let atTime ← readU64
      return .cancelled reason (asI64 atTime)
    | 0x03 => return .terminated (asI64 (← readU64))
    | 0x04 => return .failed (← uuid.canonicalDecode)
    | 0x07 => return .incidented (← uuid.canonicalDecode)
    | 0x05 =>
      let calloutId ← uuid.canonicalDecode
      let nodeId ← readStr
      return .waitingOnSubmission calloutId nodeId
    | 0x06 =>
      let executionId ← uuid.canonicalDecode
      let nodeId ← readStr
      return .waitingOnInvocation executionId nodeId
    | tag => throw (.unknownTag tag "ProcessState")

def errorClass : CanonicalEncode ErrorClass where
  canonicalEncode
    | .transient => writeU8 0x00
    | .contractViolation => writeU8 0x01
    | .businessRejection rejectionCode => writeU8 0x02 ++ writeStr rejectionCode
  canonicalDecode := do
    match ← readU8 with
    | 0x00 => return .transient
    | 0x01 => return .contractViolation
    | 0x02 => return .businessRejection (← readStr)
    | tag => throw (.unknownTag tag "ErrorClass")

def incident : CanonicalEncode Incident where
  canonicalEncode i :=
    uuid.canonicalEncode i.incidentId ++
    (uuid.canonicalEncode i.processInstanceId ++
    (uuid.canonicalEncode i.fiberId ++
    (writeStr i.serviceTaskId ++
    (addr.canonicalEncode i.bytecodeAddr ++
    (errorClass.canonicalEncode i.errorClass ++
    (writeStr i.message ++
    (writeU32 i.retryCount ++
    (writeU64 (asU64 i.createdAt) ++
    (writeOption i.resolvedAt (fun v => writeU64 (asU64 v)) ++
    writeOption i.resolution writeStr)))))))))
  canonicalDecode := do
    let incidentId ← uuid.canonicalDecode
    let processInstanceId ← uuid.canonicalDecode
    let fiberId ← uuid.canonicalDecode
    let serviceTaskId ← readStr
    let bytecodeAddr ← addr.canonicalDecode
    let errorClass ← errorClass.canonicalDecode
    let message ← readStr
    let retryCount ← readU32
    let createdAt ← readU64
    let resolvedAt ← readOption do return asI64 (← readU64)
    let resolution ← readOption readStr
    return {
      incidentId, processInstanceId, fiberId, serviceTaskId, bytecodeAddr, errorClass, message,
      retryCount, resolvedAt, resolution
      createdAt := asI64 createdAt }

def fiber : CanonicalEncode Fiber where
  canonicalEncode f :=
    uuid.canonicalEncode f.fiberId ++
    (addr.canonicalEncode f.pc ++
    (writeSeq f.stack value.canonicalEncode ++
    (waitState.canonicalEncode f.wait ++
    (writeU32 f.loopEpoch ++
    writeSeq f.controlStack recordId.canonicalEncode))))
  canonicalDecode := do
    let fiberId ← uuid.canonicalDecode
    let pc ← addr.canonicalDecode
    let stack ← readSeq value.canonicalDecode
    let wait ← waitState.canonicalDecode
    let loopEpoch ← readU32
    let controlStack ← readSeq recordId.canonicalDecode
    return { fiberId, pc, stack, wait, loopEpoch, controlStack }

def sessionWorkspaceKind : CanonicalEncode SessionWorkspaceKind where
  canonicalEncode
    | .productMaintenance => writeU8 0x00
    | .catalogue => writeU8 0x01
    | .deal => writeU8 0x02
    | .cbu => writeU8 0x03
    | .kyc => writeU8 0x04
    | .instrumentMatrix => writeU8 0x05
    | .onBoarding => writeU8 0x06
    | .semOsMaintenance => writeU8 0x07
    | .lifecycleResources => writeU8 0x08
    | .bookingPrincipal => writeU8 0x09
    | .bpmn => writeU8 0x0A
  canonicalDecode := do
    match ← readU8 with
    | 0x00 => return .productMaintenance
    | 0x01 => return .catalogue
    | 0x02 => return .deal
    | 0x03 => return .cbu
    | 0x04 => return .kyc
    | 0x05 => return .instrumentMatrix
    | 0x06 => return .onBoarding
    | 0x07 => return .semOsMaintenance
    | 0x08 => return .lifecycleResources
    | 0x09 => return .bookingPrincipal
    | 0x0A => return .bpmn
    | tag => throw (.unknownTag tag "SessionWorkspaceKind")

def sessionScopeState : CanonicalEncode SessionScopeState where
  canonicalEncode scope :=
    uuid.canonicalEncode scope.clientGroupId ++ writeOption scope.clientGroupName writeStr
  canonicalDecode := do
    let clientGroupId ← uuid.canonicalDecode
    let clientGroupName ← readOption readStr
    return { clientGroupId, clientGroupName }

end Canonical

end BpmnLite
