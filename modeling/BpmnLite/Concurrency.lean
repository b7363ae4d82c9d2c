import BpmnLite.State

/-!
# Activation records and the concurrency table

A record is the activation of one opened scope: a guard, a race or a fork barrier. The table maps
record ids to records; a transition carries a list of mutations of it.
-/

namespace BpmnLite

inductive RecordKind where
  | guard (interrupting : Bool)
  | race
  | barrier
  | compensation
  deriving DecidableEq

inductive RecordState where
  | armed
  | retired
  deriving DecidableEq

structure RecordCounters where
  arity : ℕ := 0
  count : ℕ := 0
  deriving DecidableEq

structure ConcurrencyRecord where
  id : RecordId
  kind : RecordKind
  members : BTreeSet Uuid := ∅
  handler : Option Addr := none
  state : RecordState := .armed
  counters : RecordCounters := {}
  rollbackDomainPayload : Option String := none
  rollbackDomainPayloadHash : Option Digest := none
  rollbackFlags : Option (BTreeMap FlagKey Value) := none
  rollbackJoinExpected : Option (BTreeMap JoinId ℕ) := none
  rollbackSessionStack : Option String := none
  openedAt : Option Addr := none
  errorRoutes : List (Option String × Addr) := []
  deriving DecidableEq

def ConcurrencyRecord.new (id : RecordId) (kind : RecordKind) : ConcurrencyRecord := { id, kind }

inductive ConcurrencyValidationError where
  | countersOutOfBounds (id : RecordId) (kind : RecordKind) (count arity : ℕ)
  | unexpectedCounters (id : RecordId) (kind : RecordKind) (arity count : ℕ)
  | unexpectedOpenedAt (id : RecordId) (kind : RecordKind)
  | rollbackFieldsOnNonGuard (id : RecordId) (kind : RecordKind)
  | partialRollbackSnapshot (id : RecordId)
  | rollbackFieldsOnGuardN (id : RecordId)
  | guardMissingOpenedAt (id : RecordId)
  | compensationUninhabited (id : RecordId)
  | retireMissing (id : RecordId)
  | removeMissing (id : RecordId)
  deriving DecidableEq

def ConcurrencyRecord.rollbackFieldsPresent (record : ConcurrencyRecord) : List Bool :=
  [record.rollbackDomainPayload.isSome, record.rollbackDomainPayloadHash.isSome,
    record.rollbackFlags.isSome, record.rollbackJoinExpected.isSome,
    record.rollbackSessionStack.isSome]

def validateConcurrencyRecordShape (record : ConcurrencyRecord) :
    Except ConcurrencyValidationError Unit :=
  let anyRollbackSet := record.rollbackFieldsPresent.any id
  let allRollbackSet := record.rollbackFieldsPresent.all id
  match record.kind with
  | .compensation => .error (.compensationUninhabited record.id)
  | .barrier | .race =>
    if record.counters.count > record.counters.arity then
      .error (.countersOutOfBounds record.id record.kind record.counters.count
        record.counters.arity)
    else if record.openedAt.isSome then .error (.unexpectedOpenedAt record.id record.kind)
    else if anyRollbackSet then .error (.rollbackFieldsOnNonGuard record.id record.kind)
    else .ok ()
  | .guard interrupting =>
    if record.counters ≠ {} then
      .error (.unexpectedCounters record.id record.kind record.counters.arity
        record.counters.count)
    else if record.openedAt.isNone then .error (.guardMissingOpenedAt record.id)
    else if anyRollbackSet && !allRollbackSet then .error (.partialRollbackSnapshot record.id)
    else if !interrupting && anyRollbackSet then .error (.rollbackFieldsOnGuardN record.id)
    else .ok ()

abbrev ConcurrencyTable := BTreeMap RecordId ConcurrencyRecord

inductive ConcurrencyMutation where
  | insert (record : ConcurrencyRecord)
  | retire (id : RecordId)
  | remove (id : RecordId)
  deriving DecidableEq

inductive ControlStackDelta where
  | push (fiberId : Uuid) (handle : Handle)
  | pop (fiberId : Uuid) (handle : Handle)
  deriving DecidableEq

namespace ConcurrencyTable

/-- `get_mut(id)` followed by an assignment to the state: absent ids are left alone. -/
def retire (table : ConcurrencyTable) (id : RecordId) : ConcurrencyTable :=
  match table[id]? with
  | some record => table.insert id { record with state := .retired }
  | none => table

def applyMutation (table : ConcurrencyTable) : ConcurrencyMutation → ConcurrencyTable
  | .insert record => table.insert record.id record
  | .retire id => retire table id
  | .remove id => table.erase id

def applyMutations (table : ConcurrencyTable) (mutations : List ConcurrencyMutation) :
    ConcurrencyTable :=
  mutations.foldl applyMutation table

def validateMutations (scratch : ConcurrencyTable) :
    List ConcurrencyMutation → Except ConcurrencyValidationError Unit
  | [] => .ok ()
  | .insert record :: rest => do
    validateConcurrencyRecordShape record
    validateMutations (scratch.insert record.id record) rest
  | .retire id :: rest =>
    match scratch[id]? with
    | some record => validateMutations (scratch.insert id { record with state := .retired }) rest
    | none => .error (.retireMissing id)
  | .remove id :: rest =>
    if id ∈ scratch then validateMutations (scratch.erase id) rest
    else .error (.removeMissing id)

end ConcurrencyTable

end BpmnLite
