import BpmnLite.Canonical.Laws

/-!
# The types of the canonical encoding

For every type of the format, a value whose fields are in the range of their machine types and whose
lengths fit `u32` is read back from its bytes, and what a reader returns is what was written. A record
is taken here as it stands in the bytes, its sets and maps as the lists of their entries.
-/

namespace BpmnLite.Canonical

open Codec

def UuidFits (id : Uuid) : Prop := id < 2 ^ 128

theorem lawful_uuid : Lawful UuidFits Always uuid.canonicalEncode uuid.canonicalDecode :=
  lawful_bytesFixed 16

def AddrFits (a : Addr) : Prop := a < 2 ^ 32

theorem lawful_addr : Lawful AddrFits Always addr.canonicalEncode addr.canonicalDecode := lawful_u32

theorem lawful_recordId : Lawful UuidFits Always recordId.canonicalEncode recordId.canonicalDecode :=
  lawful_uuid

theorem lawful_effectId : Lawful UuidFits Always effectId.canonicalEncode effectId.canonicalDecode :=
  lawful_uuid

def DigestFits (digest : Digest) : Prop := digest < 2 ^ 256

theorem lawful_digest : Lawful DigestFits Always (writeBytesFixed 32) (readBytesFixed 32) :=
  lawful_bytesFixed 32

def TimestampFits (t : Timestamp) : Prop := -2 ^ 63 ≤ t ∧ t < 2 ^ 63

theorem lawful_recordKind :
    Lawful Always Always recordKind.canonicalEncode recordKind.canonicalDecode := by
  refine ⟨fun kind _ => ?_, Consumes.sound ?_⟩
  · cases kind with
    | guard interrupting =>
      have hflag := (lawful_bool.answers interrupting trivial).pack RecordKind.guard
      exact (answers_tag 0).after hflag
    | race => exact (answers_tag 1).last (decodes_pure _)
    | barrier => exact (answers_tag 2).last (decodes_pure _)
    | compensation => exact (answers_tag 3).last (decodes_pure _)
  · refine lawful_u8.consumes fun tag _ _ => ?_
    split
    · exact lawful_bool.consumes_last fun _ _ _ => ⟨⟨trivial, trivial⟩, rfl⟩
    iterate 3 exact consumes_pure ⟨⟨trivial, trivial⟩, rfl⟩
    exact consumes_throw _

theorem lawful_recordState :
    Lawful Always Always recordState.canonicalEncode recordState.canonicalDecode := by
  refine ⟨fun state _ => ?_, Consumes.sound ?_⟩
  · cases state with
    | armed => exact (answers_tag 0).last (decodes_pure _)
    | retired => exact (answers_tag 1).last (decodes_pure _)
  · refine lawful_u8.consumes fun tag _ _ => ?_
    split
    iterate 2 exact consumes_pure ⟨⟨trivial, trivial⟩, rfl⟩
    exact consumes_throw _

def CountersFit (counters : RecordCounters) : Prop :=
  counters.arity < 2 ^ 32 ∧ counters.count < 2 ^ 32

theorem lawful_recordCounters :
    Lawful CountersFit Always recordCounters.canonicalEncode recordCounters.canonicalDecode := by
  refine ⟨fun counters h => ?_, Consumes.sound ?_⟩
  · refine (lawful_u32.answers _ h.1).after ?_
    exact (lawful_u32.answers _ h.2).pack (RecordCounters.mk counters.arity)
  · refine lawful_u32.consumes fun arity harity _ => ?_
    exact lawful_u32.consumes_last fun count hcount _ => ⟨⟨⟨harity, hcount⟩, trivial⟩, rfl⟩

def ArmFits : V2RaceArm → Prop
  | .timer target => AddrFits target
  | .msg target name corrKey => AddrFits target ∧ name < 2 ^ 32 ∧ StrFits corrKey
  | .effect target id templateId => AddrFits target ∧ UuidFits id ∧ DigestFits templateId

theorem lawful_v2RaceArm :
    Lawful ArmFits Always v2RaceArm.canonicalEncode v2RaceArm.canonicalDecode := by
  refine ⟨fun arm h => ?_, Consumes.sound ?_⟩
  · cases arm with
    | timer target =>
      exact (answers_tag 0).after ((lawful_addr.answers _ h).pack V2RaceArm.timer)
    | msg target name corrKey =>
      refine (answers_tag 1).after ?_
      refine (lawful_addr.answers _ h.1).after ?_
      refine (lawful_u32.answers _ h.2.1).after ?_
      exact (lawful_str.answers _ h.2.2).pack (V2RaceArm.msg target name)
    | effect target id templateId =>
      refine (answers_tag 2).after ?_
      refine (lawful_addr.answers _ h.1).after ?_
      refine (lawful_effectId.answers _ h.2.1).after ?_
      exact (lawful_digest.answers _ h.2.2).pack (V2RaceArm.effect target id)
  · refine lawful_u8.consumes fun tag _ _ => ?_
    split
    · exact lawful_addr.consumes_last fun target htarget _ => ⟨⟨htarget, trivial⟩, rfl⟩
    · refine lawful_addr.consumes fun target htarget _ => ?_
      refine lawful_u32.consumes fun name hname _ => ?_
      exact lawful_str.consumes_last fun key hkey _ => ⟨⟨⟨htarget, hname, hkey⟩, trivial⟩, rfl⟩
    · refine lawful_addr.consumes fun target htarget _ => ?_
      refine lawful_effectId.consumes fun id hid _ => ?_
      exact lawful_digest.consumes_last fun template h _ => ⟨⟨⟨htarget, hid, h⟩, trivial⟩, rfl⟩
    · exact consumes_throw _

/-- A key that was read is a text: the model's activation keys stand for their texts. -/
def KeyFits : JobKey → Prop
  | .text s => StrFits s
  | .activation .. => False

def WaitFits : WaitState → Prop
  | .running => True
  | .timer deadlineMs => deadlineMs < 2 ^ 64
  | .msg waitId name corrKey => waitId < 2 ^ 32 ∧ name < 2 ^ 32 ∧ StrFits corrKey
  | .job jobKey => KeyFits jobKey
  | .effect id | .incident id | .v2Barrier id => UuidFits id
  | .join joinId => joinId < 2 ^ 32
  | .v2Race id arms => UuidFits id ∧ arms.length < 2 ^ 32 ∧ ∀ arm ∈ arms, ArmFits arm

theorem answers_waitState (wait : WaitState) (h : WaitFits wait) :
    Decodes waitState.canonicalDecode (waitState.canonicalEncode wait) wait := by
  cases wait with
  | running => exact (answers_tag 0).last (decodes_pure _)
  | timer deadlineMs =>
    exact (answers_tag 1).after ((lawful_u64.answers _ h).pack WaitState.timer)
  | msg waitId name corrKey =>
    refine (answers_tag 2).after ?_
    refine (lawful_u32.answers _ h.1).after ?_
    refine (lawful_u32.answers _ h.2.1).after ?_
    exact (lawful_str.answers _ h.2.2).pack (WaitState.msg waitId name)
  | job jobKey =>
    cases jobKey with
    | activation instanceId serviceTaskId pc loopEpoch => exact h.elim
    | text s =>
      have hkey := (lawful_str.answers s h).pack fun s => WaitState.job (.text s)
      exact (answers_tag 3).after hkey
  | effect id =>
    exact (answers_tag 4).after ((lawful_effectId.answers _ h).pack WaitState.effect)
  | join joinId =>
    exact (answers_tag 5).after ((lawful_u32.answers _ h).pack WaitState.join)
  | incident id =>
    exact (answers_tag 7).after ((lawful_uuid.answers _ h).pack WaitState.incident)
  | v2Barrier id =>
    have hid := (lawful_recordId.answers _ h).pack WaitState.v2Barrier
    exact (answers_tag 8).after hid
  | v2Race id arms =>
    refine (answers_tag 9).after ?_
    refine (lawful_recordId.answers _ h.1).after ?_
    exact ((lawful_seq lawful_v2RaceArm).reads h.2 (by simp)).pack (WaitState.v2Race id)

theorem sound_waitState :
    Sound (fun wait => WaitFits wait ∧ True) waitState.canonicalEncode waitState.canonicalDecode := by
  refine Consumes.sound (lawful_u8.consumes fun tag _ _ => ?_)
  split
  · exact consumes_pure ⟨⟨trivial, trivial⟩, rfl⟩
  · exact lawful_u64.consumes_last fun _ h _ => ⟨⟨h, trivial⟩, rfl⟩
  · refine lawful_u32.consumes fun waitId hid _ => ?_
    refine lawful_u32.consumes fun name hname _ => ?_
    exact lawful_str.consumes_last fun key hkey _ => ⟨⟨⟨hid, hname, hkey⟩, trivial⟩, rfl⟩
  · exact lawful_str.consumes_last fun _ h _ => ⟨⟨h, trivial⟩, rfl⟩
  · exact lawful_effectId.consumes_last fun _ h _ => ⟨⟨h, trivial⟩, rfl⟩
  · exact lawful_u32.consumes_last fun _ h _ => ⟨⟨h, trivial⟩, rfl⟩
  · exact lawful_uuid.consumes_last fun _ h _ => ⟨⟨h, trivial⟩, rfl⟩
  · exact lawful_recordId.consumes_last fun _ h _ => ⟨⟨h, trivial⟩, rfl⟩
  · refine lawful_recordId.consumes fun id hid _ => ?_
    exact (lawful_seq lawful_v2RaceArm).consumes_last fun _ h _ => ⟨⟨⟨hid, h⟩, trivial⟩, rfl⟩
  · exact consumes_throw _

theorem lawful_waitState :
    Lawful WaitFits Always waitState.canonicalEncode waitState.canonicalDecode :=
  ⟨answers_waitState, sound_waitState⟩

def StateFits : ProcessState → Prop
  | .running => True
  | .completed atTime | .terminated atTime => TimestampFits atTime
  | .cancelled reason atTime => StrFits reason ∧ TimestampFits atTime
  | .failed id | .incidented id => UuidFits id
  | .waitingOnSubmission id nodeId | .waitingOnInvocation id nodeId => UuidFits id ∧ StrFits nodeId

theorem answers_time {α : Type} {t : Timestamp} (h : TimestampFits t) (f : Timestamp → α) :
    Decodes (readU64 >>= fun u => pure (f (asI64 u))) (writeU64 (asU64 t)) (f t) := by
  have hread := (lawful_u64.answers (asU64 t) (asU64_lt t)).pack fun u => f (asI64 u)
  rw [asI64_asU64 h.1 h.2] at hread
  exact hread

theorem answers_processState (state : ProcessState) (h : StateFits state) :
    Decodes processState.canonicalDecode (processState.canonicalEncode state) state := by
  cases state with
  | running => exact (answers_tag 0).last (decodes_pure _)
  | completed atTime =>
    exact (answers_tag 1).after (answers_time h ProcessState.completed)
  | cancelled reason atTime =>
    refine (answers_tag 2).after ?_
    refine (lawful_str.answers _ h.1).after ?_
    exact answers_time h.2 (ProcessState.cancelled reason)
  | terminated atTime =>
    exact (answers_tag 3).after (answers_time h ProcessState.terminated)
  | failed id =>
    exact (answers_tag 4).after ((lawful_uuid.answers _ h).pack ProcessState.failed)
  | incidented id =>
    have hid := (lawful_uuid.answers _ h).pack ProcessState.incidented
    exact (answers_tag 7).after hid
  | waitingOnSubmission id nodeId =>
    refine (answers_tag 5).after ?_
    refine (lawful_uuid.answers _ h.1).after ?_
    exact (lawful_str.answers _ h.2).pack (ProcessState.waitingOnSubmission id)
  | waitingOnInvocation id nodeId =>
    refine (answers_tag 6).after ?_
    refine (lawful_uuid.answers _ h.1).after ?_
    exact (lawful_str.answers _ h.2).pack (ProcessState.waitingOnInvocation id)

theorem sound_processState : Sound (fun state => StateFits state ∧ True)
    processState.canonicalEncode processState.canonicalDecode := by
  refine Consumes.sound (lawful_u8.consumes fun tag _ _ => ?_)
  -- A time is written back as the bits that were read.
  have htime : ∀ u : ℕ, u < 2 ^ 64 → writeU64 u = writeU64 (asU64 (asI64 u)) := fun u hu => by
    rw [(asU64_asI64 hu).1]
  split
  · exact consumes_pure ⟨⟨trivial, trivial⟩, rfl⟩
  · exact lawful_u64.consumes_last fun u hu _ =>
      ⟨⟨(asU64_asI64 hu).2, trivial⟩, congrArg ([1] ++ ·) (htime u hu)⟩
  · refine lawful_str.consumes fun reason hreason _ => ?_
    exact lawful_u64.consumes_last fun u hu _ => ⟨⟨⟨hreason, (asU64_asI64 hu).2⟩, trivial⟩,
      congrArg (fun b => [2] ++ (writeStr reason ++ b)) (htime u hu)⟩
  · exact lawful_u64.consumes_last fun u hu _ =>
      ⟨⟨(asU64_asI64 hu).2, trivial⟩, congrArg ([3] ++ ·) (htime u hu)⟩
  iterate 2 exact lawful_uuid.consumes_last fun _ h _ => ⟨⟨h, trivial⟩, rfl⟩
  iterate 2
    refine lawful_uuid.consumes fun id hid _ => ?_
    exact lawful_str.consumes_last fun _ h _ => ⟨⟨⟨hid, h⟩, trivial⟩, rfl⟩
  exact consumes_throw _

theorem lawful_processState :
    Lawful StateFits Always processState.canonicalEncode processState.canonicalDecode :=
  ⟨answers_processState, sound_processState⟩

def ClassFits : ErrorClass → Prop
  | .transient | .contractViolation => True
  | .businessRejection rejectionCode => StrFits rejectionCode

theorem lawful_errorClass :
    Lawful ClassFits Always errorClass.canonicalEncode errorClass.canonicalDecode := by
  refine ⟨fun kind h => ?_, Consumes.sound ?_⟩
  · cases kind with
    | transient => exact (answers_tag 0).last (decodes_pure _)
    | contractViolation => exact (answers_tag 1).last (decodes_pure _)
    | businessRejection rejectionCode =>
      have hcode := (lawful_str.answers _ h).pack ErrorClass.businessRejection
      exact (answers_tag 2).after hcode
  · refine lawful_u8.consumes fun tag _ _ => ?_
    split
    iterate 2 exact consumes_pure ⟨⟨trivial, trivial⟩, rfl⟩
    · exact lawful_str.consumes_last fun _ h _ => ⟨⟨h, trivial⟩, rfl⟩
    · exact consumes_throw _

structure IncidentFits (i : Incident) : Prop where
  incidentId : UuidFits i.incidentId
  processInstanceId : UuidFits i.processInstanceId
  fiberId : UuidFits i.fiberId
  serviceTaskId : StrFits i.serviceTaskId
  bytecodeAddr : AddrFits i.bytecodeAddr
  errorClass : ClassFits i.errorClass
  message : StrFits i.message
  retryCount : i.retryCount < 2 ^ 32
  createdAt : TimestampFits i.createdAt
  resolvedAt : ∀ t ∈ i.resolvedAt, TimestampFits t
  resolution : ∀ s ∈ i.resolution, StrFits s

theorem lawful_incident :
    Lawful IncidentFits Always incident.canonicalEncode incident.canonicalDecode := by
  refine ⟨fun i h => ?_, Consumes.sound ?_⟩
  · refine (lawful_uuid.answers _ h.incidentId).after ?_
    refine (lawful_uuid.answers _ h.processInstanceId).after ?_
    refine (lawful_uuid.answers _ h.fiberId).after ?_
    refine (lawful_str.answers _ h.serviceTaskId).after ?_
    refine (lawful_addr.answers _ h.bytecodeAddr).after ?_
    refine (lawful_errorClass.answers _ h.errorClass).after ?_
    refine (lawful_str.answers _ h.message).after ?_
    refine (lawful_u32.answers _ h.retryCount).after ?_
    refine (lawful_u64.answers _ (asU64_lt i.createdAt)).after ?_
    refine ((lawful_option lawful_i64).reads h.resolvedAt (by simp)).after ?_
    rw [asI64_asU64 h.createdAt.1 h.createdAt.2]
    exact ((lawful_option lawful_str).reads h.resolution (by simp)).pack fun resolution =>
      { i with resolution := resolution }
  · refine lawful_uuid.consumes fun incidentId h₁ _ => ?_
    refine lawful_uuid.consumes fun processInstanceId h₂ _ => ?_
    refine lawful_uuid.consumes fun fiberId h₃ _ => ?_
    refine lawful_str.consumes fun serviceTaskId h₄ _ => ?_
    refine lawful_addr.consumes fun bytecodeAddr h₅ _ => ?_
    refine lawful_errorClass.consumes fun kind h₆ _ => ?_
    refine lawful_str.consumes fun message h₇ _ => ?_
    refine lawful_u32.consumes fun retryCount h₈ _ => ?_
    refine lawful_u64.consumes fun createdAt h₉ _ => ?_
    refine (lawful_option lawful_i64).consumes fun resolvedAt h₁₀ _ => ?_
    refine (lawful_option lawful_str).consumes_last fun resolution h₁₁ _ => ?_
    obtain ⟨hback, hrange⟩ := asU64_asI64 h₉
    refine ⟨⟨⟨h₁, h₂, h₃, h₄, h₅, h₆, h₇, h₈, hrange, h₁₀, h₁₁⟩, trivial⟩, ?_⟩
    simp only [incident, hback]

structure FiberFits (f : Fiber) : Prop where
  fiberId : UuidFits f.fiberId
  pc : AddrFits f.pc
  stack : f.stack.length < 2 ^ 32 ∧ ∀ v ∈ f.stack, ValueFits v
  wait : WaitFits f.wait
  loopEpoch : f.loopEpoch < 2 ^ 32
  controlStack : f.controlStack.length < 2 ^ 32 ∧ ∀ id ∈ f.controlStack, UuidFits id

theorem lawful_fiber : Lawful FiberFits (fun f => ∀ v ∈ f.stack, v.checkArrayLimits = .ok ())
    fiber.canonicalEncode fiber.canonicalDecode := by
  refine ⟨fun f h => ?_, Consumes.sound ?_⟩
  · refine (lawful_uuid.answers _ h.fiberId).after ?_
    refine (lawful_addr.answers _ h.pc).after ?_
    refine (((lawful_seq lawful_value).answers _ h.stack).bind (q := True) ?_).congr (by simp)
    refine (lawful_waitState.answers _ h.wait).after ?_
    refine (lawful_u32.answers _ h.loopEpoch).after ?_
    exact ((lawful_seq lawful_recordId).reads h.controlStack (by simp)).pack fun controlStack =>
      { f with controlStack := controlStack }
  · refine lawful_uuid.consumes fun fiberId h₁ _ => ?_
    refine lawful_addr.consumes fun pc h₂ _ => ?_
    refine (lawful_seq lawful_value).consumes fun stack h₃ hgood => ?_
    refine lawful_waitState.consumes fun wait h₄ _ => ?_
    refine lawful_u32.consumes fun loopEpoch h₅ _ => ?_
    refine (lawful_seq lawful_recordId).consumes_last fun controlStack h₆ _ => ?_
    exact ⟨⟨⟨h₁, h₂, h₃, h₄, h₅, h₆⟩, hgood⟩, rfl⟩

theorem lawful_sessionWorkspaceKind : Lawful Always Always sessionWorkspaceKind.canonicalEncode
    sessionWorkspaceKind.canonicalDecode := by
  refine ⟨fun kind _ => ?_, Consumes.sound ?_⟩
  · cases kind <;> exact (lawful_u8.answers _ (by decide)).last (decodes_pure _)
  · refine lawful_u8.consumes fun tag _ _ => ?_
    split
    iterate 11 exact consumes_pure ⟨⟨trivial, trivial⟩, rfl⟩
    exact consumes_throw _

structure ScopeFits (scope : SessionScopeState) : Prop where
  clientGroupId : UuidFits scope.clientGroupId
  clientGroupName : ∀ s ∈ scope.clientGroupName, StrFits s

theorem lawful_sessionScopeState : Lawful ScopeFits Always sessionScopeState.canonicalEncode
    sessionScopeState.canonicalDecode := by
  refine ⟨fun scope h => ?_, Consumes.sound ?_⟩
  · refine (lawful_uuid.answers _ h.clientGroupId).after ?_
    exact ((lawful_option lawful_str).reads h.clientGroupName (by simp)).pack
      (SessionScopeState.mk scope.clientGroupId)
  · refine lawful_uuid.consumes fun id hid _ => ?_
    exact (lawful_option lawful_str).consumes_last fun name hname _ => ⟨⟨⟨hid, hname⟩, trivial⟩, rfl⟩

end BpmnLite.Canonical
