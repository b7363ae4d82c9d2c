import BpmnLite.Kernel.Emissions
import BpmnLite.Kernel.Jobs

/-!
# Payloads and their hashes

The kernel keeps a payload and its hash in two fields, and assigns them at every place where a
payload comes in: completions, effect results, messages, buffered messages and rollbacks. What is
written into a rollback record, a job or the message buffer is read back much later, so the
invariant covers all of them: the instance, the records of the table, and what a transition writes.
-/

namespace BpmnLite

open Maps

variable {inst inst' : ProcessInstance} {mutations added : List ConcurrencyMutation}
  {T : ConcurrencyTable} {id r : RecordId} {record : ConcurrencyRecord}
  {restored : RollbackSnapshot} {context : DeterministicContext} {t : Transition}
  {command : Command}

section
variable (H : Host)

def ProcessInstance.Hashed (inst : ProcessInstance) : Prop :=
  inst.domainPayloadHash = H.contentHash inst.domainPayload

/-- A rollback snapshot holds the hash of its payload; a record without one holds neither. -/
def ConcurrencyRecord.Hashed (record : ConcurrencyRecord) : Prop :=
  record.rollbackDomainPayloadHash = record.rollbackDomainPayload.map H.contentHash

def JobActivation.Hashed (job : JobActivation) : Prop :=
  job.domainPayloadHash = H.contentHash job.domainPayload

/-- A hash that is sent along with bytes is the hash of the text they encode. -/
def CarriesHash (payload : Bytes) (payloadHash : Option Digest) : Prop :=
  ∀ hash ∈ payloadHash, ∀ text ∈ String.fromUTF8? ⟨payload.toArray⟩, hash = H.contentHash text

def BufferedMessage.Hashed (message : BufferedMessage) : Prop :=
  CarriesHash H message.payload message.payloadHash

/-- Every record, job and message written carries the hash of its payload. -/
structure HashedWrites (mutations : List ConcurrencyMutation) (jobs : List JobActivation)
    (messages : List BufferedMessageMutation) : Prop where
  records : ∀ record, .insert record ∈ mutations → record.Hashed H
  jobs : ∀ job ∈ jobs, job.Hashed H
  messages : ∀ message, .insert message ∈ messages → message.Hashed H

def Changes.Hashed (changes : Changes) : Prop :=
  HashedWrites H changes.concurrencyMutations changes.jobsEnqueue changes.bufferedMessages

structure Transition.Hashed (t : Transition) : Prop where
  inst : t.nextSnapshot.Hashed H
  writes : HashedWrites H t.concurrencyMutations t.jobsEnqueue t.bufferedMessages

structure TickState.Hashed (ts : TickState) : Prop where
  inst : ts.inst.Hashed H
  changes : ts.changes.Hashed H

def TickOutcome.Hashed : TickOutcome → Prop
  | .next ts => ts.Hashed H
  | .done t => t.Hashed H

def HashedRecords (T : ConcurrencyTable) : Prop :=
  ∀ (id : RecordId) (record : ConcurrencyRecord), T[id]? = some record → record.Hashed H

structure Snapshot.Hashed (snapshot : Snapshot) : Prop where
  inst : snapshot.inst.Hashed H
  records : HashedRecords H snapshot.concurrencyTable
  messages : ∀ buffered ∈ snapshot.bufferedMessages, buffered.message.Hashed H

/-- A delivered message carries the hash of its payload, if any. -/
def Command.Hashed : Command → Prop
  | .messageDelivered _ _ _ payload payloadHash _ => CarriesHash H payload payloadHash
  | _ => True

end

section Writes
variable {H : Host} {snapshot : Snapshot} {changes : Changes} {jobs : List JobActivation}
  {messages : List BufferedMessageMutation}

theorem hashedWrites_nil : HashedWrites H [] [] [] := by
  constructor <;> simp

theorem HashedWrites.mutate (h : HashedWrites H mutations jobs messages)
    (hadded : ∀ record, .insert record ∈ added → record.Hashed H) :
    HashedWrites H (mutations ++ added) jobs messages := by
  refine ⟨fun record hrecord => ?_, h.jobs, h.messages⟩
  rcases List.mem_append.mp hrecord with hold | hnew
  · exact h.records record hold
  · exact hadded record hnew

theorem HashedWrites.retire (h : HashedWrites H mutations jobs messages) (ids : List RecordId) :
    HashedWrites H (mutations ++ ids.map .retire) jobs messages :=
  h.mutate (by simp)

theorem fetchRecord_hashed (hT : HashedRecords H T)
    (hmutations : ∀ record, .insert record ∈ mutations → record.Hashed H)
    (h : fetchRecord T id mutations = some record) : record.Hashed H := by
  induction mutations with
  | nil => exact hT id record h
  | cons mutation earlier ih =>
    have hearlier : ∀ record, .insert record ∈ earlier → record.Hashed H :=
      fun record hmem => hmutations record (List.mem_cons_of_mem _ hmem)
    cases mutation with
    | insert new =>
      simp only [fetchRecord] at h
      split at h
      · obtain rfl := Option.some.inj h
        exact hmutations new List.mem_cons_self
      · exact ih hearlier h
    | retire id' | remove id' =>
      simp only [fetchRecord] at h
      split at h
      · simp at h
      · exact ih hearlier h

theorem Changes.Hashed.fetch (h : changes.Hashed H) (hsnapshot : snapshot.Hashed H)
    (hrecord : fetchRecordInTransition snapshot changes id = some record) : record.Hashed H := by
  apply fetchRecord_hashed hsnapshot.records _ hrecord
  intro record hmem
  exact h.records record (List.mem_reverse.mp hmem)

theorem Changes.Hashed.reconcile (h : changes.Hashed H) (hsnapshot : snapshot.Hashed H)
    (ops : List (RecordId × MembershipOp)) (exclude : List RecordId) :
    (v2ReconcileAncestorMembership snapshot ops exclude changes).Hashed H := by
  apply HashedWrites.mutate h
  intro record hrecord
  simp only [List.mem_map, ConcurrencyMutation.insert.injEq, exists_eq_right] at hrecord
  obtain ⟨id, hid⟩ := mem_values.mp hrecord
  rw [getElem?_touched] at hid
  split at hid
  · obtain ⟨before, hbefore, rfl⟩ := Option.map_eq_some_iff.mp hid
    have hhashed := h.fetch hsnapshot hbefore
    rw [applyOps_eq]
    exact hhashed
  · simp at hid

theorem restored_hashed (hrecord : record.Hashed H) (h : rollbackSnapshotOf H record = .ok restored)
    (inst : ProcessInstance) : (restored.restore inst).Hashed H := by
  unfold rollbackSnapshotOf at h
  split at h
  · rename_i payload hash flags joinExpected session hpayload hhash _ _ _
    split at h
    · obtain rfl := Except.ok.inj h
      unfold ConcurrencyRecord.Hashed at hrecord
      rw [hpayload, hhash] at hrecord
      exact Option.some.inj hrecord
    · simp at h
  · simp at h

theorem Changes.Hashed.rollback (h : changes.Hashed H) (hsnapshot : snapshot.Hashed H)
    {caller : RollbackCaller} {changes' : Changes}
    (hroll : v2RollbackGuardScope H snapshot r caller changes = .ok (restored, changes')) :
    changes'.Hashed H ∧ ∀ inst, (restored.restore inst).Hashed H := by
  unfold v2RollbackGuardScope at hroll
  split at hroll
  · simp at hroll
  · rename_i record hrecord
    obtain ⟨restored', hrestored, hroll⟩ := bind_eq_ok.mp hroll
    simp only [pure_eq_ok, Prod.mk.injEq] at hroll
    obtain ⟨rfl, rfl⟩ := hroll
    refine ⟨?_, restored_hashed (h.fetch hsnapshot hrecord) hrestored⟩
    have hretired : (changes.mutateAll
        ((v2CancelGuardScope snapshot r).1.map .retire)).Hashed H := HashedWrites.retire h _
    exact hretired.reconcile hsnapshot _ _

theorem handlerChanges_hashed {target : Addr} {interrupting : Bool} (hsnapshot : snapshot.Hashed H) :
    (handlerChanges H snapshot context r target interrupting).Hashed H := by
  have hstarted : ∀ (f : Fiber) (event : RuntimeEvent),
      ((({} : Changes).upsert f).event event).Hashed H := fun _ _ => hashedWrites_nil
  cases interrupting with
  | true =>
    refine Changes.Hashed.reconcile ?_ hsnapshot _ _
    refine HashedWrites.retire ?_ _
    exact (hstarted _ _).reconcile hsnapshot _ _
  | false => exact (hstarted _ _).reconcile hsnapshot _ _

theorem Changes.Hashed.repark (h : changes.Hashed H) (hsnapshot : snapshot.Hashed H) (r : RecordId)
    (openedAt : Addr) (f : Fiber) (incident : Incident) (jobKey : Option JobKey) :
    (reparkRolledBack snapshot r openedAt f incident jobKey changes).Hashed H := by
  have hpopped : Changes.Hashed H { changes with
      fibersDelete := changes.fibersDelete.filter (· ≠ f.fiberId)
      controlStackDeltas := changes.controlStackDeltas ++
        (f.controlStack.dropWhile (· ≠ r)).reverse.map (ControlStackDelta.pop f.fiberId) } := h
  exact hpopped.reconcile hsnapshot _ _

theorem Changes.Hashed.along (h : changes.Hashed H) (hinst : inst.Hashed H) {acks : List JobKey}
    {timers : List TimerMutation} {events : List RuntimeEvent} :
    ((changes.along acks timers events).finish inst).Hashed H :=
  ⟨hinst, h⟩

end Writes

section Tick
variable {H : Host} {workflow : ExecutableWorkflow} {snapshot : Snapshot} {ts ts' : TickState}
  {outcome : TickOutcome}

theorem applyCompletion_hashed {completion : JobCompletion}
    (h : applyCompletion H inst completion = .ok inst') : inst'.Hashed H := by
  obtain ⟨flags, -, h⟩ := bind_eq_ok.mp h
  rw [pure_eq_ok] at h
  subst h
  rfl

theorem consumeMessage_hashed {message : BufferedMessage} (hinst : inst.Hashed H)
    (hmessage : message.Hashed H) (h : consumeMessage inst message = .ok inst') :
    inst'.Hashed H := by
  unfold consumeMessage at h
  split at h
  · exact Except.ok.inj h ▸ hinst
  · rename_i hash hhash
    split at h
    · rename_i text htext
      obtain rfl := Except.ok.inj h
      exact hmessage hash hhash text htext
    · simp at h

theorem armErrorRoute_hashed {route : Option String × Addr} {mutations' : List ConcurrencyMutation}
    (h : armErrorRoute r route mutations = .ok mutations')
    (hmutations : ∀ record, .insert record ∈ mutations → record.Hashed H) :
    ∀ record, .insert record ∈ mutations' → record.Hashed H := by
  induction mutations generalizing mutations' with
  | nil => simp [armErrorRoute] at h
  | cons mutation earlier ih =>
    have hearlier : ∀ record, .insert record ∈ earlier → record.Hashed H :=
      fun record hmem => hmutations record (List.mem_cons_of_mem _ hmem)
    -- A mutation that is not the one armed is kept in front of the rest.
    have hkept : ∀ rest, armErrorRoute r route earlier = .ok rest →
        ∀ record, .insert record ∈ mutation :: rest → record.Hashed H := by
      intro rest hrest record hmem
      rcases List.mem_cons.mp hmem with rfl | hmem
      · exact hmutations record List.mem_cons_self
      · exact ih hrest hearlier record hmem
    cases mutation with
    | insert new =>
      simp only [armErrorRoute] at h
      split at h
      · split at h
        · obtain rfl := Except.ok.inj h
          intro record hmem
          rcases List.mem_cons.mp hmem with heq | hmem
          · obtain rfl := ConcurrencyMutation.insert.inj heq
            exact hmutations new List.mem_cons_self
          · exact hearlier record hmem
        · simp at h
      · obtain ⟨rest, hrest, h⟩ := bind_eq_ok.mp h
        rw [pure_eq_ok] at h
        exact h ▸ hkept rest hrest
    | retire id | remove id =>
      obtain ⟨rest, hrest, h⟩ := bind_eq_ok.mp h
      rw [pure_eq_ok] at h
      exact h ▸ hkept rest hrest

theorem ConcurrencyRecord.Saves.hashed (h : record.Saves inst) (hinst : inst.Hashed H) :
    record.Hashed H := by
  unfold ConcurrencyRecord.Hashed
  rcases h with ⟨hpayload, hhash⟩ | ⟨hpayload, hhash⟩
  · rw [hpayload, hhash]
    rfl
  · rw [hpayload, hhash, hinst]
    rfl

theorem execute_hashed {instruction : Instr} (hsnapshot : snapshot.Hashed H) (hts : ts.Hashed H)
    (h : execute H workflow snapshot context ts instruction = .ok outcome) : outcome.Hashed H := by
  cases execute_eq_ok h with
  | moved | failed | awaited | listened | armed | ended | raced | subscribed | timed | waited
  | cycled =>
    exact ⟨hts.inst, hts.changes⟩
  | opened _ hsaves =>
    refine ⟨hts.inst, HashedWrites.mutate hts.changes fun record hmem => ?_⟩
    obtain rfl := ConcurrencyMutation.insert.inj (List.mem_singleton.mp hmem)
    exact hsaves.hashed hts.inst
  | forked _ hforks =>
    obtain rfl := TickOutcome.done.inj hforks
    refine ⟨hts.inst, Changes.Hashed.reconcile ?_ hsnapshot _ _⟩
    refine HashedWrites.mutate hts.changes fun record hmem => ?_
    obtain rfl := ConcurrencyMutation.insert.inj (List.mem_singleton.mp hmem)
    rfl
  | cached _ hcompleted =>
    have hinst := applyCompletion_hashed hcompleted
    exact ⟨hinst, hts.changes⟩
  | enqueued =>
    refine ⟨hts.inst, hts.changes.records, fun job hjob => ?_, hts.changes.messages⟩
    rcases List.mem_append.mp hjob with hold | hnew
    · exact hts.changes.jobs job hold
    · obtain rfl := List.mem_singleton.mp hnew
      exact hts.inst
  | published _ _ hbare =>
    refine ⟨hts.inst, hts.changes.records, hts.changes.jobs, fun message hmem => ?_⟩
    rcases List.mem_append.mp hmem with hold | hnew
    · exact hts.changes.messages message hold
    · -- A published message has no hash.
      obtain rfl := BufferedMessageMutation.insert.inj (List.mem_singleton.mp hnew)
      intro hash hhash
      simp [hbare] at hhash
  | terminated => exact ⟨hts.inst, HashedWrites.retire hts.changes _⟩
  | closed => exact ⟨hts.inst, HashedWrites.retire hts.changes [_]⟩
  | released =>
    refine ⟨hts.inst, HashedWrites.retire (Changes.Hashed.reconcile ?_ hsnapshot _ _) [_]⟩
    exact hts.changes
  | arrived _ hfound =>
    have hhashed := Changes.Hashed.fetch hts.changes hsnapshot hfound
    refine ⟨hts.inst, HashedWrites.mutate hts.changes fun record' hmem => ?_⟩
    obtain rfl := ConcurrencyMutation.insert.inj (List.mem_singleton.mp hmem)
    exact hhashed
  | routed _ harms =>
    have harmed := armErrorRoute_hashed harms
      fun record hmem => hts.changes.records record (List.mem_reverse.mp hmem)
    exact ⟨hts.inst, fun record hmem => harmed record (List.mem_reverse.mp hmem), hts.changes.jobs,
      hts.changes.messages⟩
  | consumed _ _ _ hfound hconsumes =>
    have hmem := List.mem_of_find?_eq_some hfound
    refine ⟨consumeMessage_hashed hts.inst (hsnapshot.messages _ hmem) hconsumes,
      hts.changes.records, hts.changes.jobs, fun message hmessage => ?_⟩
    rcases List.mem_append.mp hmessage with hold | hnew
    · exact hts.changes.messages message hold
    · simp at hnew
  | @cancelled deltas _ _ _ _ _ hrolls =>
    have hpopped : Changes.Hashed H { ts.changes with controlStackDeltas := deltas } := hts.changes
    obtain ⟨hchanges, hrestored⟩ := hpopped.rollback hsnapshot hrolls
    exact ⟨hrestored _, hchanges⟩

theorem runTick_hashed {steps : ℕ} (hsnapshot : snapshot.Hashed H) (hts : ts.Hashed H)
    (h : runTick H workflow snapshot context steps ts = .ok t) : t.Hashed H := by
  exact runTick_invariant (O := TickOutcome.Hashed H)
    (fun hts hexecute => execute_hashed hsnapshot hts hexecute) hts h

end Tick

section Commands
variable {H : Host} {workflow : ExecutableWorkflow} {snapshot : Snapshot}

theorem hashed_of_silent (hsnapshot : snapshot.Hashed H)
    (hpayload : t.nextSnapshot.domainPayload = snapshot.inst.domainPayload)
    (hhash : t.nextSnapshot.domainPayloadHash = snapshot.inst.domainPayloadHash)
    (hrecords : ∀ record, .insert record ∉ t.concurrencyMutations) (hjobs : t.jobsEnqueue = [])
    (hmessages : t.bufferedMessages = []) : t.Hashed H := by
  refine ⟨?_, fun record hmem => absurd hmem (hrecords record), by simp [hjobs],
    by simp [hmessages]⟩
  unfold ProcessInstance.Hashed
  rw [hpayload, hhash]
  exact hsnapshot.inst

theorem Reaction.hashed (hsnapshot : snapshot.Hashed H) (hcommand : command.Hashed H)
    (h : Reaction H workflow snapshot context command t) : t.Hashed H := by
  have hinst : ∀ {flags : BTreeMap FlagKey Value} {payload : String} {hash : Digest},
      hash = H.contentHash payload ∨
        payload = snapshot.inst.domainPayload ∧ hash = snapshot.inst.domainPayloadHash →
      ProcessInstance.Hashed H { snapshot.inst with
        flags, domainPayload := payload, domainPayloadHash := hash } := by
    rintro flags payload hash (rfl | ⟨rfl, rfl⟩)
    · rfl
    · exact hsnapshot.inst
  cases h with
  | stored hs carried kept =>
    refine ⟨hsnapshot.inst, by simp, by simp, fun message hmem => ?_⟩
    rcases kept with rfl | rfl
    · simp at hmem
    · obtain rfl : message = _ := by simpa using hmem
      rw [hs] at hcommand
      rw [BufferedMessage.Hashed, carried.2.1, carried.2.2]
      exact hcommand
  | cleared => exact ⟨hsnapshot.inst, hashedWrites_nil.retire _⟩
  | completed => exact ⟨rfl, hashedWrites_nil⟩
  | answered _ _ _ hashed => exact ⟨hinst hashed, hashedWrites_nil⟩
  | won _ _ _ hashed => exact ⟨hinst hashed, by constructor <;> simp⟩
  | @received race _ _ _ _ _ _ _ _ _ _ _ hs _ _ hashed =>
    have hmessage : ProcessInstance.Hashed H _ := @hinst snapshot.inst.flags _ _
      (hashed.imp_left fun hcarried => (hs ▸ hcommand) _ hcarried.1 _ hcarried.2)
    refine ⟨hmessage, ?_⟩
    cases race <;> constructor <;>
      simp [winRace, Changes.finish, Changes.upsert, Changes.event, Changes.mutate]
  | triggered => exact ⟨hsnapshot.inst, handlerChanges_hashed hsnapshot⟩
  | rolledBack hroll _ lands =>
    have hnone : Changes.Hashed H {} := hashedWrites_nil
    obtain ⟨hrolled, hrestored⟩ := hnone.rollback hsnapshot hroll
    cases lands with
    | swept => exact ⟨hrestored _, hrolled⟩
    | reparked =>
      refine Changes.Hashed.along (Changes.Hashed.repark ?_ hsnapshot _ _ _ _ _) ?_
      · exact hrolled
      · exact hrestored snapshot.inst
  | _ => exact hashed_of_silent hsnapshot rfl rfl (by simp) rfl rfl

theorem handle_hashed (hsnapshot : snapshot.Hashed H) (hcommand : command.Hashed H)
    (h : handle H workflow snapshot context command = .ok t) : t.Hashed H := by
  rcases tick_or_reacts h with ⟨i, rfl⟩ | ⟨-, hreacts⟩
  · obtain ⟨-, f, -, h⟩ := applyTick_runs h
    have hstart : (tickStart snapshot f).Hashed H := ⟨hsnapshot.inst, hashedWrites_nil⟩
    exact runTick_hashed hsnapshot hstart h
  · exact hreacts.hashed hsnapshot hcommand

end Commands

structure Entry where
  world : World
  stimulus : Stimulus
  transition : Transition

/-- A run with the commands it has accepted, each of which meets the condition `G`. -/
inductive World.Ran (H : Host) (workflow : ExecutableWorkflow)
    (G : List Entry → World → Stimulus → Prop) (w₀ : World) : List Entry → World → Prop
  | start : World.Ran H workflow G w₀ [] w₀
  | step {log : List Entry} {w : World} {s : Stimulus} {t : Transition}
      (ran : World.Ran H workflow G w₀ log w) (meets : G log w s)
      (respond : w.respond H workflow s = .ok t) :
      World.Ran H workflow G w₀ (log ++ [⟨w, s, t⟩]) (w.commit H workflow s t)

section Runs
variable {H : Host} {workflow : ExecutableWorkflow} {w w₀ : World} {s : Stimulus} {log : List Entry}

theorem HashedRecords.apply (hT : HashedRecords H T)
    (h : ∀ record, .insert record ∈ mutations → record.Hashed H) :
    HashedRecords H (ConcurrencyTable.applyMutations T mutations) := by
  induction mutations generalizing T with
  | nil => exact hT
  | cons mutation rest ih =>
    refine ih (T := ConcurrencyTable.applyMutation T mutation) ?_ fun record hmem =>
      h record (List.mem_cons_of_mem _ hmem)
    intro id record hrecord
    cases mutation with
    | insert new =>
      rw [getElem?_applyInsert] at hrecord
      split at hrecord
      · obtain rfl := Option.some.inj hrecord
        exact h new List.mem_cons_self
      · exact hT id record hrecord
    | retire id' =>
      rw [getElem?_applyRetire] at hrecord
      split at hrecord
      · obtain ⟨before, hbefore, rfl⟩ := Option.map_eq_some_iff.mp hrecord
        exact hT id before hbefore
      · exact hT id record hrecord
    | remove id' =>
      rw [getElem?_applyRemove] at hrecord
      split at hrecord
      · simp at hrecord
      · exact hT id record hrecord

variable (H) in
/-- A delivered message carries the hash of its payload, if it carries one; a buffered message was
written by an earlier command of the run, or else it too carries the hash of its payload. -/
structure Stimulus.Hashed (log : List Entry) (s : Stimulus) : Prop where
  command : s.command.Hashed H
  buffered : ∀ buffered ∈ s.bufferedMessages,
    (∃ entry ∈ log, .insert buffered.message ∈ entry.transition.bufferedMessages) ∨
      buffered.message.Hashed H

variable (H) in
/-- The instance and the records of a world, and the messages written on the way to it. -/
structure World.Hashed (log : List Entry) (w : World) : Prop where
  inst : w.state.inst.Hashed H
  records : HashedRecords H w.state.concurrencyTable
  transitions : ∀ entry ∈ log, entry.transition.Hashed H

theorem World.Hashed.snapshot (hw : w.Hashed H log) (hs : s.Hashed H log) :
    (w.snapshot s).Hashed H := by
  refine ⟨hw.inst, hw.records, fun buffered hmem => ?_⟩
  rcases hs.buffered buffered hmem with ⟨entry, hentry, hinsert⟩ | hhashed
  · exact (hw.transitions entry hentry).writes.messages _ hinsert
  · exact hhashed

theorem World.Hashed.step (hw : w.Hashed H log) (hs : s.Hashed H log)
    (h : w.respond H workflow s = .ok t) :
    (w.commit H workflow s t).Hashed H (log ++ [⟨w, s, t⟩]) := by
  obtain ⟨t₀, -, hhandle, -, -, rfl⟩ := respond_eq_ok h
  have ht := handle_hashed (hw.snapshot hs) hs.command hhandle
  refine ⟨?_, hw.records.apply ht.writes.records, fun entry hentry => ?_⟩
  · simp only [World.commit, materializeSnapshot, PersistedSnapshotState.new]
    split
    · exact ht.inst
    · exact ht.inst
  · rcases List.mem_append.mp hentry with hold | hnew
    · exact hw.transitions entry hold
    · obtain rfl := List.mem_singleton.mp hnew
      exact ⟨ht.inst, ht.writes⟩

/-- Payload and hash never drift apart, in the instance, in the rollback snapshots of the records
and in the jobs that were enqueued. -/
theorem payloads_hashed {inst : ProcessInstance} {idempotencyKey : Uuid} {revision : ℕ}
    (hinst : inst.Hashed H)
    (h : World.Ran H workflow (fun log _ s => s.Hashed H log)
      (World.genesis H inst idempotencyKey revision) log w) :
    w.state.inst.Hashed H ∧ HashedRecords H w.state.concurrencyTable ∧
    ∀ entry ∈ log, ∀ job ∈ entry.transition.jobsEnqueue, job.Hashed H := by
  have hw : w.Hashed H log := by
    induction h with
    | start =>
      refine ⟨hinst, fun id record hrecord => ?_, by simp⟩
      simp [World.genesis, PersistedSnapshotState.new] at hrecord
    | step _ hmeets hrespond ih => exact ih.step hmeets hrespond
  exact ⟨hw.inst, hw.records, fun entry hentry => (hw.transitions entry hentry).writes.jobs⟩

end Runs

namespace Reference

/-- A task inside a rollback guard. -/
def guardedTask : ExecutableWorkflow :=
  workflow [.v2GuardR, .execNative 0 0 0, .v2GuardREnd, .end] ⟨0, 1, 4, 1, 0, 1⟩ (by decide +kernel)

/-- The record of the guard and the job of the task carry the payload of the instance. -/
theorem guarded_task_hashed : ∃ (log : List Entry) (w : World),
    World.Ran host guardedTask (fun log _ s => s.Hashed host log) start log w ∧
    (∃ entry ∈ log, entry.transition.jobsEnqueue.length = 1 ∧
      entry.transition.concurrencyMutations.length = 1) ∧
    w.state.inst.Hashed host ∧ HashedRecords host w.state.concurrencyTable ∧
    ∀ entry ∈ log, ∀ job ∈ entry.transition.jobsEnqueue, job.Hashed host := by
  obtain ⟨t, ht, hwritten⟩ := ok_of_check (x := start.respond host guardedTask ticked)
    (fun t => t.jobsEnqueue.length = 1 ∧ t.concurrencyMutations.length = 1) (by decide +kernel)
  have hran : World.Ran host guardedTask (fun log _ s => s.Hashed host log) start
      ([] ++ [⟨start, ticked, t⟩]) (start.commit host guardedTask ticked t) :=
    .step .start ⟨trivial, by simp [ticked]⟩ ht
  have hinst : inst.Hashed host := rfl
  exact ⟨_, _, hran, ⟨_, List.mem_singleton_self _, of_decide_eq_true hwritten⟩,
    payloads_hashed hinst hran⟩

end Reference

end BpmnLite
