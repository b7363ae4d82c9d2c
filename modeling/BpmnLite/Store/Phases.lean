import BpmnLite.Abort
import BpmnLite.Maps
import BpmnLite.Store.Commit

/-!
# The phases of a commit

Each phase of a commit is a guarded step: it goes through under a condition on the store and then
has taken a known step. `check_eq_ok` restates the checks as conditions on the store.
-/

namespace BpmnLite.Store

open Abort Maps

section Pending

variable (H : StoreHost) (claim : Claim)

/-- The dates of a pending invocation can be represented. -/
structure ValidDates (write : PendingInvocationWrite) : Prop where
  submittedAt : H.isTimestampMillis write.submittedAt = true
  ackReceivedAt : write.ackReceivedAt.all H.isTimestampMillis = true
  timeoutAt : write.timeoutAt.all H.isTimestampMillis = true

def HasExecution (executionId : Uuid) (s : Store) : Prop :=
  (s.calloutOf claim.tenantId executionId).isSome = true

def dropExecution (executionId : Uuid) (s : Store) : Store :=
  match s.calloutOf claim.tenantId executionId with
  | some calloutId => { s with pendingStore := s.pendingStore.erase calloutId }
  | none => s

theorem lookupPending_takes (executionId : Uuid) :
    Takes (lookupPending claim executionId) (HasExecution claim executionId) id := by
  intro s s'
  simp only [lookupPending, HasExecution]
  cases h : s.calloutOf claim.tenantId executionId with
  | none => simp [bind, EStateM.bind, h, Commit.fail]
  | some calloutId => simp [bind, EStateM.bind, h, eq_comm]

theorem lookupPending_keeps (executionId : Uuid) :
    Abort.Keeps (fun s s' => s' = s) (lookupPending claim executionId) := by
  intro s
  simp only [lookupPending, leaves]
  cases h : s.calloutOf claim.tenantId executionId <;>
    simp [bind, EStateM.bind, h, Commit.fail]

theorem insertPending_takes (write : PendingInvocationWrite) :
    Takes (insertPending H claim write) (fun _ => ValidDates H write)
      (insertPendingRow (pendingRow claim write)) := by
  intro s s'
  constructor
  · intro h
    simp only [insertPending] at h
    by_cases hsubmitted : H.isTimestampMillis write.submittedAt = true
    · by_cases hack : write.ackReceivedAt.all H.isTimestampMillis = true
      · by_cases htimeout : write.timeoutAt.all H.isTimestampMillis = true
        · simp [hsubmitted, hack, htimeout] at h
          exact ⟨⟨hsubmitted, hack, htimeout⟩, h.symm⟩
        · simp [bind, EStateM.bind, hsubmitted, hack, htimeout, Commit.fail] at h
      · simp [bind, EStateM.bind, hsubmitted, hack, Commit.fail] at h
    · simp [bind, EStateM.bind, hsubmitted, Commit.fail] at h
  · rintro ⟨⟨hsubmitted, hack, htimeout⟩, rfl⟩
    simp [insertPending, hsubmitted, hack, htimeout]

theorem takePending_takes (executionId : Uuid) :
    Takes (takePending claim executionId) (HasExecution claim executionId)
      (dropExecution claim executionId) := by
  intro s s'
  simp only [takePending, HasExecution, dropExecution]
  cases h : s.calloutOf claim.tenantId executionId <;>
    simp [bind, EStateM.bind, h, Commit.fail, eq_comm]

end Pending

section Checks

variable (s : Store) (claim : Claim) (t : Transition)

def AdmitsMessage : BufferedMessageMutation → Prop
  | .insert message | .deliver message =>
    message.key ∉ s.messageBuffer ∧ message.key ∉ s.messageBufferConsumed
  | .consume claimed =>
    s.messageBufferClaims[claimed.message.key]?.map Prod.fst = some claimed.claimToken
  | .release _ => True

/-- The timer is armed, belongs to the instance and is held under the token. -/
def HoldsTimer (timerId : EffectId) (claimToken : Uuid) : Prop :=
  ∃ timer, s.timers[timerId]? = some timer ∧ timer.state = .armed ∧
    timer.tenantId = claim.tenantId ∧ timer.instanceId = claim.instanceId ∧
    timer.claim.map (·.token) = some claimToken

def AdmitsTimer : TimerMutation → Prop
  | .consume timerId claimToken | .rearm timerId claimToken _ _ =>
    s.HoldsTimer claim timerId claimToken
  | .cancelRace .. | .v2CancelRace .. => True

/-- The claim is the current one: it starts a new instance, or it has the fence and the revision of
a stored instance of its tenant. -/
def IsCurrent : Prop :=
  s.isStart claim = true ∨ ∃ row, s.instances[claim.instanceId]? = some row ∧
    row.tenantId = claim.tenantId ∧ s.fence claim.instanceId = claim.fence ∧
    s.revision claim.instanceId = claim.expectedRevision

structure StartLineage (start : StartCommand) : Prop where
  tenantId : start.tenantId = claim.tenantId
  instanceId : start.instanceId = claim.instanceId
  artifactHash : start.artifactHash = t.nextSnapshot.bytecodeVersion
  payloadHash : start.initialPayloadHash = t.nextSnapshot.domainPayloadHash

structure Admits : Prop where
  current : s.IsCurrent claim
  tenantId : t.nextSnapshot.tenantId = claim.tenantId
  instanceId : t.nextSnapshot.instanceId = claim.instanceId
  records : (s.concurrencyTables.getD claim.instanceId ∅).validateMutations
    t.concurrencyMutations = .ok ()
  starts : ∀ start, t.startDedupe = some start →
    StartLineage claim t start ∧ (claim.tenantId, start.idempotencyKey) ∉ s.starts
  completions : ∀ write ∈ t.dedupe, write.key ∉ s.dedupe
  messages : ∀ mutation ∈ t.bufferedMessages, s.AdmitsMessage mutation
  timers : ∀ mutation ∈ t.timerMutations, s.AdmitsTimer claim mutation

theorem unless_throw_eq_ok {p : Prop} [Decidable p] {stop : CommitStop} :
    (if p then throw stop else pure () : Except CommitStop Unit) = .ok () ↔ ¬ p := by
  split <;> simp_all

theorem checkClaim_eq_ok : s.checkClaim claim = .ok () ↔
    ∃ row, s.instances[claim.instanceId]? = some row ∧ row.tenantId = claim.tenantId ∧
      s.fence claim.instanceId = claim.fence ∧
      s.revision claim.instanceId = claim.expectedRevision := by
  unfold checkClaim
  cases s.instances[claim.instanceId]? with
  | none => simp
  | some row =>
    dsimp only
    rw [when_eq_ok, when_eq_ok, unless_throw_eq_ok]
    simp

theorem checkStart_eq_ok (start : StartCommand) : s.checkStart claim t start = .ok () ↔
    StartLineage claim t start ∧ (claim.tenantId, start.idempotencyKey) ∉ s.starts := by
  dsimp only [checkStart]
  rw [when_eq_ok, unless_throw_eq_ok]
  refine and_congr_left' ?_
  constructor
  · intro h
    simp only [throw_eq_ok, imp_false] at h
    push Not at h
    exact ⟨h.1, h.2.1, h.2.2.1, h.2.2.2⟩
  · rintro ⟨htenant, hinstance, hartifact, hpayload⟩
    simp [htenant, hinstance, hartifact, hpayload]

theorem checkMessage_eq_ok (mutation : BufferedMessageMutation) :
    s.checkMessage mutation = .ok () ↔ s.AdmitsMessage mutation := by
  cases mutation with
  | insert message => exact unless_throw_eq_ok.trans not_or
  | deliver message => exact unless_throw_eq_ok.trans not_or
  | consume claimed => exact unless_throw_eq_ok.trans not_not
  | release claimed => simp [checkMessage, AdmitsMessage]

theorem checkTimerClaim_eq_ok (timerId : EffectId) (claimToken : Uuid) :
    s.checkTimerClaim claim timerId claimToken = .ok () ↔
      s.HoldsTimer claim timerId claimToken := by
  unfold checkTimerClaim HoldsTimer
  cases h : s.timers[timerId]? with
  | none => simp
  | some timer =>
    refine unless_throw_eq_ok.trans ?_
    simp [not_or]

theorem checkTimer_eq_ok (mutation : TimerMutation) :
    s.checkTimer claim mutation = .ok () ↔ s.AdmitsTimer claim mutation := by
  cases mutation with
  | consume timerId claimToken => exact checkTimerClaim_eq_ok s claim timerId claimToken
  | rearm timerId claimToken dueAt repeatSpec => exact checkTimerClaim_eq_ok s claim timerId claimToken
  | cancelRace fiberId raceId except => simp [checkTimer, AdmitsTimer]
  | v2CancelRace fiberId recordId except => simp [checkTimer, AdmitsTimer]

theorem check_eq_ok : s.check claim t = .ok () ↔ s.Admits claim t := by
  have hstarts : t.startDedupe.forM (s.checkStart claim t) = .ok () ↔ ∀ start,
      t.startDedupe = some start →
        StartLineage claim t start ∧ (claim.tenantId, start.idempotencyKey) ∉ s.starts := by
    cases t.startDedupe with
    | none => simp [Option.forM, pure, Except.pure]
    | some start => simpa [Option.forM] using checkStart_eq_ok s claim t start
  have hcompletions : (t.dedupe.forM fun write =>
      if write.key ∈ s.dedupe then throw CommitStop.idempotentNoOp else pure ()) = Except.ok () ↔
      ∀ write ∈ t.dedupe, write.key ∉ s.dedupe :=
    forM_eq_ok.trans (forall₂_congr fun write _ => unless_throw_eq_ok)
  have hmessages : t.bufferedMessages.forM s.checkMessage = .ok () ↔
      ∀ mutation ∈ t.bufferedMessages, s.AdmitsMessage mutation :=
    forM_eq_ok.trans (forall₂_congr fun mutation _ => s.checkMessage_eq_ok mutation)
  have htimers : t.timerMutations.forM (s.checkTimer claim) = .ok () ↔
      ∀ mutation ∈ t.timerMutations, s.AdmitsTimer claim mutation :=
    forM_eq_ok.trans (forall₂_congr fun mutation _ => s.checkTimer_eq_ok claim mutation)
  dsimp only [check]
  rw [when_eq_ok, when_eq_ok]
  constructor
  · rintro ⟨hcurrent, hidentity, h⟩
    obtain ⟨_, hrecords, h⟩ := Maps.bind_eq_ok.mp h
    obtain ⟨_, hstart, h⟩ := Maps.bind_eq_ok.mp h
    obtain ⟨_, hcompletion, h⟩ := Maps.bind_eq_ok.mp h
    obtain ⟨_, hmessage, htimer⟩ := Maps.bind_eq_ok.mp h
    simp only [throw_eq_ok, imp_false] at hidentity
    push Not at hidentity
    refine ⟨?_, hidentity.1, hidentity.2, mapError_eq_ok.mp hrecords, hstarts.mp hstart,
      hcompletions.mp hcompletion, hmessages.mp hmessage, htimers.mp htimer⟩
    by_cases hisStart : s.isStart claim = true
    · exact .inl hisStart
    · exact .inr ((s.checkClaim_eq_ok claim).mp (hcurrent hisStart))
  · rintro ⟨hcurrent, htenant, hinstance, hrecords, hstart, hcompletion, hmessage, htimer⟩
    refine ⟨fun hisStart => ?_, by simp [htenant, hinstance], ?_⟩
    · exact (s.checkClaim_eq_ok claim).mpr (hcurrent.resolve_left hisStart)
    refine Maps.bind_eq_ok.mpr ⟨(), mapError_eq_ok.mpr hrecords, ?_⟩
    refine Maps.bind_eq_ok.mpr ⟨(), hstarts.mpr hstart, ?_⟩
    refine Maps.bind_eq_ok.mpr ⟨(), hcompletions.mpr hcompletion, ?_⟩
    exact Maps.bind_eq_ok.mpr ⟨(), hmessages.mpr hmessage, htimers.mpr htimer⟩

theorem runCheck_takes :
    Takes (runCheck claim t) (fun s => s.Admits claim t) id := by
  intro s s'
  have hcheck := s.check_eq_ok claim t
  unfold runCheck
  cases h : s.check claim t with
  | ok _ => simp [hcheck.mp h, eq_comm]
  | error stop =>
    have hrefused : ¬ s.Admits claim t := by simpa [h] using hcheck
    simp [hrefused]

theorem runCheck_keeps : Abort.Keeps (fun s s' => s' = s) (runCheck claim t) := by
  intro s
  unfold runCheck leaves
  cases h : s.check claim t <;> simp [h]

end Checks

end BpmnLite.Store

namespace BpmnLite

def JobMutation.jobKey : JobMutation → JobKey
  | .ackClaimed jobKey .. | .retryClaimed jobKey .. | .deadLetterClaimed jobKey ..
  | .cancel jobKey => jobKey

/-- The worker and the token a mutation needs the job to be claimed with. -/
def JobMutation.holder : JobMutation → Option (String × String)
  | .ackClaimed _ workerId claimToken | .retryClaimed _ workerId claimToken _ _ _
  | .deadLetterClaimed _ workerId claimToken _ _ _ => some (workerId, claimToken)
  | .cancel _ => none

end BpmnLite

namespace BpmnLite.Store

open Abort Maps

section Jobs

/-- The job of a claimed mutation is in flight for its holder. -/
def HoldsJob (mutation : JobMutation) (s : Store) : Prop :=
  ∀ holder, mutation.holder = some holder → ∃ job,
    s.inflightJobs[mutation.jobKey]? = some job ∧ (job.workerId, job.claimToken) = holder

def jobWritten : JobMutation → Store → Store
  | .ackClaimed jobKey .., s | .cancel jobKey, s => dropJob s jobKey
  | .retryClaimed jobKey _ _ errorClass _ notBeforeMs, s =>
    { s with
      inflightJobs := s.inflightJobs.erase jobKey
      jobQueue := s.jobQueue ++
        (s.inflightJobs[jobKey]?.map (retriedJob · errorClass notBeforeMs)).toList }
  | .deadLetterClaimed jobKey .., s => { s with inflightJobs := s.inflightJobs.erase jobKey }

@[simp] theorem jobWritten_inflightJobs (mutation : JobMutation) (s : Store) :
    (jobWritten mutation s).inflightJobs = s.inflightJobs.erase mutation.jobKey := by
  cases mutation <;> rfl

theorem takeClaimedJob_eq_ok {jobKey : JobKey} {workerId claimToken : String} {s s' : Store}
    {job : JobActivation} :
    takeClaimedJob jobKey workerId claimToken s = .ok job s' ↔
      s.inflightJobs[jobKey]? = some job ∧ (job.workerId, job.claimToken) = (workerId, claimToken) ∧
        s' = { s with inflightJobs := s.inflightJobs.erase jobKey } := by
  simp only [takeClaimedJob, get_bind]
  cases hjob : s.inflightJobs[jobKey]? with
  | none => simp [Commit.fail]
  | some found =>
    by_cases hheld : found.workerId ≠ workerId ∨ found.claimToken ≠ claimToken
    · simp only [if_pos hheld, set_bind, Commit.fail, throw_apply]
      constructor
      · intro h
        simp at h
      · rintro ⟨hfound, hholder, -⟩
        obtain rfl := Option.some.inj hfound
        simp_all
    · simp only [if_neg hheld, set_bind, pure_apply]
      push Not at hheld
      constructor
      · intro h
        obtain ⟨rfl, rfl⟩ := EStateM.Result.ok.inj h
        exact ⟨rfl, by rw [hheld.1, hheld.2], rfl⟩
      · rintro ⟨hfound, -, rfl⟩
        rw [Option.some.inj hfound]

theorem takeClaimedJob_bind_eq_ok (mutation : JobMutation) {workerId claimToken : String}
    (hholder : mutation.holder = some (workerId, claimToken)) {k : JobActivation → Commit Unit}
    {s s' : Store}
    (hk : ∀ job, s.inflightJobs[mutation.jobKey]? = some job →
      k job { s with inflightJobs := s.inflightJobs.erase mutation.jobKey } =
        .ok () (jobWritten mutation s)) :
    (takeClaimedJob mutation.jobKey workerId claimToken >>= k) s = .ok () s' ↔
      HoldsJob mutation s ∧ s' = jobWritten mutation s := by
  rw [Abort.bind_eq_ok]
  constructor
  · rintro ⟨job, s₁, htaken, hrest⟩
    obtain ⟨hjob, hheld, rfl⟩ := takeClaimedJob_eq_ok.mp htaken
    refine ⟨?_, ?_⟩
    · intro holder h
      rw [hholder] at h
      exact ⟨job, hjob, hheld.trans (Option.some.inj h)⟩
    · rw [hk job hjob] at hrest
      exact (EStateM.Result.ok.inj hrest).2.symm
  · rintro ⟨hheld, rfl⟩
    obtain ⟨job, hjob, hheld⟩ := hheld _ hholder
    exact ⟨job, _, takeClaimedJob_eq_ok.mpr ⟨hjob, hheld, rfl⟩, hk job hjob⟩

theorem writeJobMutation_takes (mutation : JobMutation) :
    Takes (writeJobMutation mutation) (HoldsJob mutation) (jobWritten mutation) := by
  intro s s'
  cases mutation with
  | ackClaimed jobKey workerId claimToken =>
    exact takeClaimedJob_bind_eq_ok (.ackClaimed jobKey workerId claimToken) rfl
      fun job hjob => rfl
  | retryClaimed jobKey workerId claimToken errorClass errorMessage notBeforeMs =>
    refine takeClaimedJob_bind_eq_ok
      (.retryClaimed jobKey workerId claimToken errorClass errorMessage notBeforeMs) rfl ?_
    intro job hjob
    simp only [JobMutation.jobKey] at hjob
    simp [jobWritten, hjob, JobMutation.jobKey]
  | deadLetterClaimed jobKey workerId claimToken errorClass errorMessage incidentId =>
    exact takeClaimedJob_bind_eq_ok
      (.deadLetterClaimed jobKey workerId claimToken errorClass errorMessage incidentId) rfl
      fun job hjob => rfl
  | cancel jobKey =>
    simp [writeJobMutation, jobWritten, HoldsJob, JobMutation.holder, eq_comm]

/-- Claimed mutations go through when each finds its job in flight for its holder and no mutation
before it has taken the same job. -/
theorem passes_jobs_iff (mutations : List JobMutation) (s : Store) :
    Abort.Passes HoldsJob jobWritten mutations s ↔
      (∀ mutation ∈ mutations, HoldsJob mutation s) ∧
        mutations.Pairwise (fun m m' => m'.holder.isSome → m.jobKey ≠ m'.jobKey) := by
  induction mutations generalizing s with
  | nil => simp [Abort.Passes]
  | cons m rest ih =>
    have hstep : ∀ m' : JobMutation, HoldsJob m' (jobWritten m s) ↔
        HoldsJob m' s ∧ (m'.holder.isSome → m.jobKey ≠ m'.jobKey) := by
      intro m'
      unfold HoldsJob
      rw [jobWritten_inflightJobs]
      cases hholder : m'.holder with
      | none => simp
      | some holder =>
        by_cases hkey : m.jobKey = m'.jobKey
        · simp [hkey]
        · simp [getElem?_erase, hkey]
    rw [Abort.Passes, ih, List.pairwise_cons, List.forall_mem_cons]
    simp only [hstep]
    constructor
    · rintro ⟨hm, hrest, hpairs⟩
      exact ⟨⟨hm, fun m' hm' => (hrest m' hm').1⟩, fun m' hm' => (hrest m' hm').2, hpairs⟩
    · rintro ⟨⟨hm, hrest⟩, hfirst, hpairs⟩
      exact ⟨hm, fun m' hm' => ⟨hrest m' hm', hfirst m' hm'⟩, hpairs⟩

end Jobs

end BpmnLite.Store

namespace BpmnLite

/-- Two timers or two invocations under one id are the same one. -/
def DurableEffect.Agrees : DurableEffect → DurableEffect → Prop
  | .scheduleTimer timerId fiberId _ kind _, .scheduleTimer timerId' fiberId' _ kind' _ =>
    timerId = timerId' → fiberId = fiberId' ∧ kind = kind'
  | e@(.invoke effectId ..), e'@(.invoke effectId' ..) => effectId = effectId' → e = e'
  | _, _ => True

end BpmnLite

namespace BpmnLite.Store

open Abort Maps

section Effects

variable (claim : Claim)

/-- A timer or effect stored under the id is the one of the claim's instance. -/
def OwnsEffect : DurableEffect → Store → Prop
  | .scheduleTimer timerId fiberId _ kind _, s => ∀ existing, s.timers[timerId]? = some existing →
      existing.tenantId = claim.tenantId ∧ existing.instanceId = claim.instanceId ∧
        existing.fiberId = fiberId ∧ existing.kind = kind
  | effect@(.invoke effectId ..), s => ∀ existing, s.durableEffects[effectId]? = some existing →
      existing.tenantId = claim.tenantId ∧ existing.instanceId = claim.instanceId ∧
        existing.effect = effect

def effectWritten : DurableEffect → Store → Store
  | .scheduleTimer timerId fiberId dueAt kind repeatSpec, s =>
    { s with
      timers := s.timers.insertIfNew timerId (armedTimer claim fiberId dueAt kind repeatSpec) }
  | effect@(.invoke effectId ..), s =>
    { s with
      durableEffects := s.durableEffects.insertIfNew effectId (pendingEffect claim effect) }

theorem writeEffect_takes (effect : DurableEffect) :
    Takes (writeEffect claim effect) (OwnsEffect claim effect) (effectWritten claim effect) := by
  intro s s'
  cases effect with
  | scheduleTimer timerId fiberId dueAt kind repeatSpec =>
    simp only [writeEffect, get_bind, OwnsEffect, effectWritten]
    cases hrow : s.timers[timerId]? with
    | none => simp [insertIfNew_of_not_mem hrow, eq_comm]
    | some existing =>
      rw [insertIfNew_of_mem hrow]
      refine (takes_unless _ _ s s').trans (and_congr_left' ?_)
      simp
  | invoke effectId fiberId pc operation templateId input idempotencyKey =>
    simp only [writeEffect, get_bind, OwnsEffect, effectWritten]
    cases hrow : s.durableEffects[effectId]? with
    | none => simp [insertIfNew_of_not_mem hrow, eq_comm]
    | some existing =>
      rw [insertIfNew_of_mem hrow]
      refine (takes_unless _ _ s s').trans (and_congr_left' ?_)
      simp

theorem ownsEffect_effectWritten {effect : DurableEffect} {s : Store}
    (h : OwnsEffect claim effect s) (effect' : DurableEffect) :
    OwnsEffect claim effect' (effectWritten claim effect s) ↔
      OwnsEffect claim effect' s ∧ effect.Agrees effect' := by
  cases effect with
  | scheduleTimer timerId fiberId dueAt kind repeatSpec =>
    cases effect' with
    | scheduleTimer timerId' fiberId' dueAt' kind' repeatSpec' =>
      simp only [OwnsEffect, effectWritten, DurableEffect.Agrees, getElem?_insertIfNew] at h ⊢
      by_cases hid : timerId = timerId'
      · subst hid
        cases hrow : s.timers[timerId]? with
        | none => simp [armedTimer]
        | some existing =>
          obtain ⟨-, -, rfl, rfl⟩ := h existing hrow
          simp
      · simp [hid]
    | invoke effectId' fiberId' pc' operation' templateId' input' idempotencyKey' =>
      simp [OwnsEffect, effectWritten, DurableEffect.Agrees]
  | invoke effectId fiberId pc operation templateId input idempotencyKey =>
    cases effect' with
    | scheduleTimer timerId' fiberId' dueAt' kind' repeatSpec' =>
      simp [OwnsEffect, effectWritten, DurableEffect.Agrees]
    | invoke effectId' fiberId' pc' operation' templateId' input' idempotencyKey' =>
      simp only [OwnsEffect, effectWritten, DurableEffect.Agrees, getElem?_insertIfNew] at h ⊢
      by_cases hid : effectId = effectId'
      · subst hid
        cases hrow : s.durableEffects[effectId]? with
        | none => simp [pendingEffect]
        | some existing =>
          obtain ⟨-, -, heffect⟩ := h existing hrow
          simp [heffect]
      · simp [hid]

theorem passes_effects_iff (effects : List DurableEffect) (s : Store) :
    Abort.Passes (OwnsEffect claim) (effectWritten claim) effects s ↔
      (∀ effect ∈ effects, OwnsEffect claim effect s) ∧
        effects.Pairwise DurableEffect.Agrees := by
  induction effects generalizing s with
  | nil => simp [Abort.Passes]
  | cons effect rest ih =>
    rw [Abort.Passes, ih, List.pairwise_cons, List.forall_mem_cons]
    constructor
    · rintro ⟨hown, hrest, hpairs⟩
      have hboth := fun effect' h => (ownsEffect_effectWritten claim hown effect').mp (hrest effect' h)
      exact ⟨⟨hown, fun effect' h => (hboth effect' h).1⟩, fun effect' h => (hboth effect' h).2,
        hpairs⟩
    · rintro ⟨⟨hown, hrest⟩, hfirst, hpairs⟩
      exact ⟨hown, fun effect' h => (ownsEffect_effectWritten claim hown effect').mpr
        ⟨hrest effect' h, hfirst effect' h⟩, hpairs⟩

/-- The effect of the mutation is stored for the claim's instance. -/
def OwnsMutation (mutation : EffectMutation) (s : Store) : Prop :=
  ∃ effect, s.durableEffects[mutation.effectId]? = some effect ∧
    effect.tenantId = claim.tenantId ∧ effect.instanceId = claim.instanceId

def effectSettled (mutation : EffectMutation) (s : Store) : Store :=
  match s.durableEffects[mutation.effectId]? with
  | some effect =>
    { s with durableEffects := s.durableEffects.insert mutation.effectId (settledEffect effect) }
  | none => s

theorem writeEffectMutation_takes (mutation : EffectMutation) :
    Takes (writeEffectMutation claim mutation) (OwnsMutation claim mutation)
      (effectSettled mutation) := by
  intro s s'
  simp only [writeEffectMutation, get_bind, OwnsMutation, effectSettled]
  cases hrow : s.durableEffects[mutation.effectId]? with
  | none => simp [Commit.fail]
  | some effect =>
    by_cases hforeign : effect.tenantId ≠ claim.tenantId ∨ effect.instanceId ≠ claim.instanceId
    · simp only [if_pos hforeign, Commit.fail, throw_apply]
      simp
      grind
    · simp only [if_neg hforeign, set_apply]
      push Not at hforeign
      simp [hforeign, eq_comm]

theorem getElem?_effectSettled (mutation : EffectMutation) (s : Store) (effectId : EffectId) :
    (effectSettled mutation s).durableEffects[effectId]? =
      if mutation.effectId = effectId then s.durableEffects[effectId]?.map settledEffect
      else s.durableEffects[effectId]? := by
  unfold effectSettled
  cases hrow : s.durableEffects[mutation.effectId]? with
  | none =>
    by_cases hid : mutation.effectId = effectId
    · simp [← hid, hrow]
    · simp [hid]
  | some effect =>
    by_cases hid : mutation.effectId = effectId
    · simp [← hid, hrow]
    · simp [getElem?_insert, hid]

theorem getElem?_effectsSettled (mutations : List EffectMutation) (s : Store) (effectId : EffectId) :
    (mutations.foldl (fun s mutation => effectSettled mutation s) s).durableEffects[effectId]? =
      if effectId ∈ mutations.map (·.effectId) then s.durableEffects[effectId]?.map settledEffect
      else s.durableEffects[effectId]? := by
  induction mutations generalizing s with
  | nil => rfl
  | cons mutation mutations ih =>
    have hagain : settledEffect ∘ settledEffect = settledEffect := rfl
    rw [List.foldl_cons, ih, getElem?_effectSettled]
    by_cases hid : mutation.effectId = effectId
    · simp [hid, hagain]
    · simp [hid, Ne.symm hid]

theorem passes_mutations_iff (mutations : List EffectMutation) (s : Store) :
    Abort.Passes (OwnsMutation claim) effectSettled mutations s ↔
      ∀ mutation ∈ mutations, OwnsMutation claim mutation s := by
  refine passes_iff_of_stable (fun m m' s => ?_) mutations s
  unfold OwnsMutation
  rw [getElem?_effectSettled]
  by_cases hid : m.effectId = m'.effectId
  · cases s.durableEffects[m'.effectId]? <;> simp [hid, settledEffect]
  · simp [hid]

end Effects

section Children

variable (H : StoreHost)

def Hashable (envelope : SnapshotEnvelope) : Prop :=
  ∃ digest, H.stateHash envelope = .ok digest

def digestOf (envelope : SnapshotEnvelope) : Digest := (H.stateHash envelope).toOption.getD 0

theorem hashEnvelope_eq_ok {envelope : SnapshotEnvelope} {digest : Digest} {s s' : Store} :
    hashEnvelope H envelope s = .ok digest s' ↔
      Hashable H envelope ∧ digest = digestOf H envelope ∧ s' = s := by
  unfold hashEnvelope Hashable digestOf
  cases H.stateHash envelope with
  | ok found => simp [Except.toOption, eq_comm]
  | error message => simp [Commit.fail]

theorem hashEnvelope_keeps (envelope : SnapshotEnvelope) :
    Abort.Keeps (fun s s' => s' = s) (hashEnvelope H envelope) := by
  intro s
  unfold hashEnvelope leaves
  cases h : H.stateHash envelope <;> simp [Commit.fail]

def childRecord (child : ChildStart) : JournalRecord where
  command := ⟨H.forTransition child.inst.instanceId 0 u32Max, child.inst.createdAt,
    .administrative "child_start"⟩
  priorRevision := -1
  newRevision := 0
  artifactHash := child.inst.bytecodeVersion
  priorStateHash := 0
  stateHash := digestOf H (childEnvelope child)
  events := [child.startEvent]
  effectIds := []

def childWritten (child : ChildStart) (s : Store) : Store :=
  appendJournal child.inst.instanceId (childEnvelope child) (childRecord H child)
    (writeChildRows child s)

theorem writeChild_takes (child : ChildStart) :
    Takes (writeChild H child) (fun _ => Hashable H (childEnvelope child))
      (childWritten H child) := by
  intro s s'
  simp only [writeChild, modify_bind]
  rw [Abort.bind_eq_ok]
  constructor
  · rintro ⟨digest, s₁, hhash, hrest⟩
    obtain ⟨hhashable, rfl, rfl⟩ := (hashEnvelope_eq_ok H).mp hhash
    exact ⟨hhashable, (EStateM.Result.ok.inj hrest).2.symm⟩
  · rintro ⟨hhashable, rfl⟩
    exact ⟨_, _, (hashEnvelope_eq_ok H).mpr ⟨hhashable, rfl, rfl⟩, rfl⟩

end Children

section Finish

variable (H : StoreHost) (now : Timestamp) (activationId : Uuid) (claim : Claim) (t : Transition)

def commitRecord (start : Bool) (snapshot : ProcessInstance) (s : Store) : JournalRecord where
  command := commandEnvelope H claim t snapshot (newRevision claim start)
  priorRevision := if start then -1 else claim.expectedRevision
  newRevision := newRevision claim start
  artifactHash := snapshot.bytecodeVersion
  priorStateHash := s.priorStateHash H claim.instanceId
  stateHash := digestOf H (s.envelope claim snapshot (newRevision claim start))
  events := t.events
  effectIds := t.effects.map DurableEffect.effectId

def finished (start : Bool) (snapshot : ProcessInstance) (s : Store) : Store :=
  let s := writeRevision claim t start s
  settleLease H claim now activationId snapshot (newRevision claim start)
    (appendJournal claim.instanceId (s.envelope claim snapshot (newRevision claim start))
      (commitRecord H claim t start snapshot s) s)

theorem finish_eq_ok {start : Bool} {snapshot : ProcessInstance} {s s' : Store} {revision : ℕ} :
    finish H claim t now activationId start snapshot s = .ok revision s' ↔
      Hashable H ((writeRevision claim t start s).envelope claim snapshot
          (newRevision claim start)) ∧
        (start = true ∨ claim.expectedRevision < 2 ^ 63) ∧ revision = newRevision claim start ∧
        s' = finished H now activationId claim t start snapshot s := by
  simp only [finish, modify_bind, get_bind]
  rw [Abort.bind_eq_ok]
  by_cases hrange : ¬ start = true ∧ 2 ^ 63 ≤ claim.expectedRevision
  · simp only [if_pos hrange, Commit.fail, throw_bind]
    constructor
    · rintro ⟨digest, s₁, -, hrest⟩
      cases hrest
    · rintro ⟨-, hbound | hbound, -, -⟩
      · exact absurd hbound hrange.1
      · omega
  · simp only [if_neg hrange]
    constructor
    · rintro ⟨digest, s₁, hhash, hrest⟩
      obtain ⟨hhashable, rfl, rfl⟩ := (hashEnvelope_eq_ok H).mp hhash
      obtain ⟨rfl, rfl⟩ := EStateM.Result.ok.inj hrest
      refine ⟨hhashable, ?_, rfl, rfl⟩
      by_cases hstart : start = true
      · exact .inl hstart
      · exact .inr (by push Not at hrange; exact hrange hstart)
    · rintro ⟨hhashable, -, rfl, rfl⟩
      exact ⟨_, _, (hashEnvelope_eq_ok H).mpr ⟨hhashable, rfl, rfl⟩, rfl⟩

end Finish

end BpmnLite.Store
