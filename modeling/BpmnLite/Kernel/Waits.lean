import BpmnLite.Kernel.Executed
import BpmnLite.Kernel.Reference
import BpmnLite.Kernel.Reactions
import BpmnLite.Store.State

/-!
# What message waits consume

A tick goes on through message waits as long as it finds a buffered message for them. Every wait it
passes consumes the message first in line for its name and correlation key. The line is that of the
snapshot: what the tick has consumed before is still in it, so that two waits on the same
subscription consume the same message.
-/

namespace BpmnLite

open Maps

/-- The buffered message first in line for a message name and a correlation key. -/
def Snapshot.firstInLine (snapshot : Snapshot) (subscription : String × String) :
    Option ClaimedBufferedMessage :=
  snapshot.bufferedMessages.find? (fun buffered =>
    buffered.message.messageName = subscription.1 &&
      buffered.message.correlationKey = subscription.2)

def consumedMessages (mutations : List BufferedMessageMutation) : List ClaimedBufferedMessage :=
  mutations.filterMap (fun mutation =>
    match mutation with
    | .consume buffered => some buffered
    | _ => none)

section
variable (H : Host) (workflow : ExecutableWorkflow) (snapshot : Snapshot)
  (context : DeterministicContext)

/-- What the message wait at the fibre's address waits for. -/
def TickState.subscription (ts : TickState) : Option (String × String) :=
  match workflow.instructions[ts.fiber.pc]? with
  | some (.v2WaitMsg name) =>
    match resolveCorrelationKeyAt H workflow ts.inst ts.fiber.pc with
    | .ok corrKey =>
      some ((workflow.metadata.messageNameMap[name]?).getD (toString name), corrKey)
    | .error _ => none
  | _ => none

/-- The subscriptions of the message waits a tick executes without parking, in order. -/
def passedWaits : ℕ → TickState → List (String × String)
  | 0, _ => []
  | steps + 1, ts =>
    match tickStep H workflow snapshot context ts with
    | .ok (.next ts') => (ts.subscription H workflow).toList ++ passedWaits steps ts'
    | _ => []

def Command.passedWaits : Command → List (String × String)
  | .tick fiberId =>
    match selectFiber snapshot fiberId with
    | .ok fiber => BpmnLite.passedWaits H workflow snapshot context workflow.limits.maxSteps
        { fiber, inst := snapshot.inst }
    | .error _ => []
  | _ => []

end

section
variable {H : Host} {workflow : ExecutableWorkflow} {snapshot : Snapshot}
  {context : DeterministicContext} {ts ts' : TickState} {instruction : Instr} {t : Transition}

theorem messageNameMatches_iff (names : BTreeMap ℕ String) (requested : String) (waiting : ℕ) :
    messageNameMatches names requested waiting =
      decide (requested = (names[waiting]?).getD (toString waiting)) := by
  unfold messageNameMatches
  cases names[waiting]? with
  | none => rfl
  | some name => simp [eq_comm]

theorem tickStep_consumes {outcome : TickOutcome}
    (h : tickStep H workflow snapshot context ts = .ok outcome) :
    match outcome with
    | .done t => consumedMessages t.bufferedMessages = consumedMessages ts.changes.bufferedMessages
    | .next ts' => ∃ own : List ClaimedBufferedMessage,
        consumedMessages ts'.changes.bufferedMessages =
          consumedMessages ts.changes.bufferedMessages ++ own ∧
        List.Forall₂ (fun subscription buffered => snapshot.firstInLine subscription = some buffered)
          (ts.subscription H workflow).toList own := by
  obtain ⟨instruction, hfetch, h⟩ := tickStep_eq_ok h
  by_cases hwait : ∃ name, instruction = .v2WaitMsg name
  · obtain ⟨name, rfl⟩ := hwait
    obtain ⟨corrKey, hkey, h⟩ := bind_eq_ok.mp h
    split at h
    · rename_i buffered hfound
      obtain ⟨inst, -, h⟩ := bind_eq_ok.mp h
      obtain rfl := pure_eq_ok.mp h
      refine ⟨[buffered], by simp [consumedMessages, TickState.advance, TickState.goto], ?_⟩
      simp only [TickState.subscription, hfetch, hkey, Option.toList_some]
      refine .cons ?_ .nil
      simpa only [messageNameMatches_iff, Snapshot.firstInLine] using hfound
    · obtain rfl := pure_eq_ok.mp h
      rfl
  · have hnone : ts.subscription H workflow = none := by
      unfold TickState.subscription
      split
      · rename_i name hword
        exact absurd ⟨name, Option.mem_unique hfetch hword⟩ hwait
      · rfl
    cases execute_eq_ok h with
    | consumed _ waits => exact absurd ⟨_, waits⟩ hwait
    | published => exact ⟨[], by simp [consumedMessages], by simp [hnone]⟩
    | forked _ forks =>
      obtain rfl := TickOutcome.done.inj forks
      rfl
    | cancelled _ rolls =>
      obtain ⟨record, -, -, rfl⟩ := v2RollbackGuardScope_eq_ok rolls
      exact ⟨[], (List.append_nil _).symm, by simp [hnone]⟩
    | enqueued | failed | awaited | ended | terminated | raced | subscribed | arrived | waited => rfl
    | _ => exact ⟨[], (List.append_nil _).symm, by simp [hnone]⟩

theorem runTick_consumes {steps : ℕ} (h : runTick H workflow snapshot context steps ts = .ok t) :
    ∃ own : List ClaimedBufferedMessage,
      consumedMessages t.bufferedMessages =
        consumedMessages ts.changes.bufferedMessages ++ own ∧
      List.Forall₂ (fun subscription buffered => snapshot.firstInLine subscription = some buffered)
        (passedWaits H workflow snapshot context steps ts) own := by
  induction steps generalizing ts with
  | zero => simp [runTick] at h
  | succ steps ih =>
    obtain ⟨outcome, hstep, h⟩ := bind_eq_ok.mp h
    have hconsumes := tickStep_consumes hstep
    cases outcome with
    | next ts' =>
      obtain ⟨own, hown, hfirst⟩ := hconsumes
      obtain ⟨rest, hrest, hall⟩ := ih h
      refine ⟨own ++ rest, by rw [hrest, hown, List.append_assoc], ?_⟩
      simp only [passedWaits, hstep]
      exact List.rel_append hfirst hall
    | done t' =>
      rw [pure_eq_ok] at h
      subst h
      exact ⟨[], by simpa using hconsumes, by simp [passedWaits, hstep]⟩

theorem Reaction.consumes {command : Command} (h : Reaction H workflow snapshot context command t) :
    consumedMessages t.bufferedMessages = [] := by
  cases h with
  | stored _ _ kept => rcases kept with rfl | rfl <;> rfl
  | @received race => cases race <;> rfl
  | @triggered interrupting => cases interrupting <;> rfl
  | rolledBack hroll _ lands =>
    obtain ⟨record, -, -, rfl⟩ := v2RollbackGuardScope_eq_ok hroll
    cases lands <;> rfl
  | _ => rfl

theorem firstInLine_eq_some {subscription : String × String} {buffered : ClaimedBufferedMessage}
    (h : snapshot.firstInLine subscription = some buffered) :
    (buffered.message.messageName, buffered.message.correlationKey) = subscription := by
  have hmatch := List.find?_some h
  simp only [Bool.and_eq_true, decide_eq_true_eq] at hmatch
  rw [hmatch.1, hmatch.2]

theorem nodup_keys {subscriptions : List (String × String)} {own : List ClaimedBufferedMessage}
    (h : List.Forall₂ (fun subscription buffered => snapshot.firstInLine subscription = some buffered)
      subscriptions own) (hnodup : subscriptions.Nodup) :
    (own.map (fun buffered => buffered.message.key)).Nodup := by
  have hsame : own.map (fun buffered => (buffered.message.messageName,
      buffered.message.correlationKey)) = subscriptions := by
    induction h with
    | nil => rfl
    | cons hfirst _ ih =>
      rw [List.map_cons, ih (List.nodup_cons.mp hnodup).2, firstInLine_eq_some hfirst]
  refine List.Nodup.of_map (fun key : MessageKey => (key.2.1, key.2.2.1)) ?_
  rw [List.map_map]
  exact hsame ▸ hnodup

/-- Each message wait a command passes consumes one buffered message with its name and correlation
key. Where no two of them have the same, each consumes the first in line, and none is consumed
twice. -/
theorem waits_consume_own {command : Command}
    (h : apply H workflow snapshot command context = .ok t) :
    List.Forall₂ (fun subscription buffered => buffered ∈ snapshot.bufferedMessages ∧
        (buffered.message.messageName, buffered.message.correlationKey) = subscription)
      (command.passedWaits H workflow snapshot context) (consumedMessages t.bufferedMessages) ∧
    ((command.passedWaits H workflow snapshot context).Nodup →
      List.Forall₂ (fun subscription buffered => snapshot.firstInLine subscription = some buffered)
        (command.passedWaits H workflow snapshot context) (consumedMessages t.bufferedMessages) ∧
      ((consumedMessages t.bufferedMessages).map (fun buffered => buffered.message.key)).Nodup) := by
  obtain ⟨t₀, -, hhandle, -, -, rfl⟩ := apply_eq_ok h
  have hown : List.Forall₂
      (fun subscription buffered => snapshot.firstInLine subscription = some buffered)
      (command.passedWaits H workflow snapshot context) (consumedMessages t₀.bufferedMessages) := by
    rcases tick_or_reacts hhandle with ⟨i, rfl⟩ | ⟨hother, hreacts⟩
    · obtain ⟨-, f, hf, hrun⟩ := applyTick_runs hhandle
      obtain ⟨own, hown, hfirst⟩ := runTick_consumes hrun
      simp only [Command.passedWaits, hf, hown]
      exact hfirst
    · have hnone := hreacts.consumes
      cases command with
      | tick i => exact absurd rfl (hother i)
      | _ => simp [Command.passedWaits, hnone]
  refine ⟨hown.imp fun _ _ hfirst => ?_, fun hnodup => ⟨hown, nodup_keys hown hnodup⟩⟩
  exact ⟨List.mem_of_find?_eq_some hfirst, firstInLine_eq_some hfirst⟩

end

namespace Reference

/-- Two message waits on the correlation key "order", on the given names. -/
def waitingWords (first second : ℕ) : List Instr := [.v2WaitMsg first, .v2WaitMsg second, .end]

def correlated : ArtifactMetadata where
  v2CorrSources := (∅ : BTreeMap Addr BindingSource).insert 0 (.literal (.string "order")) |>.insert 1
    (.literal (.string "order"))

def waitingBoth : ExecutableWorkflow where
  abiVersion := currentArtifactAbi
  instructions := waitingWords 0 1
  metadata := correlated
  limits := ⟨0, 1, 3, 0, 0, 0⟩
  hash := 0
  verified := by decide +kernel

def waitingTwice : ExecutableWorkflow where
  abiVersion := currentArtifactAbi
  instructions := waitingWords 0 0
  metadata := correlated
  limits := ⟨0, 1, 3, 0, 0, 0⟩
  hash := 0
  verified := by decide +kernel

/-- A message of the given name, buffered for the instance until the given time. -/
def buffered (name : String) (expiresAt : Timestamp) : ClaimedBufferedMessage where
  message := ⟨"", name, "order", "message", [], none, some 0, 0, expiresAt⟩
  claimToken := ""
  claimUntil := expiresAt

def buffering (messages : List ClaimedBufferedMessage) : Snapshot :=
  { start.snapshot ticked with bufferedMessages := messages }

def atFive : DeterministicContext := ⟨5, 0, 1⟩

/-- Two waits on different names consume one message each. -/
theorem waits_consume_both : ∃ t,
    apply host waitingBoth (buffering [buffered "0" 10, buffered "1" 10]) (.tick none) atFive =
      .ok t ∧ ((consumedMessages t.bufferedMessages).map (fun b => b.message.key)).Nodup ∧
      consumedMessages t.bufferedMessages = [buffered "0" 10, buffered "1" 10] := by
  obtain ⟨t, ht, hcheck⟩ := ok_of_check (x := apply host waitingBoth
    (buffering [buffered "0" 10, buffered "1" 10]) (.tick none) atFive) (fun t =>
      consumedMessages t.bufferedMessages = [buffered "0" 10, buffered "1" 10]) (by decide +kernel)
  refine ⟨t, ht, ((waits_consume_own ht).2 (by decide +kernel)).2, of_decide_eq_true hcheck⟩

/-- Two waits on one name consume the same message, and one whose time is over. -/
theorem waits_consume_twice :
    (∃ t, apply host waitingTwice (buffering [buffered "0" 10]) (.tick none) atFive = .ok t ∧
      consumedMessages t.bufferedMessages = [buffered "0" 10, buffered "0" 10]) ∧
    ∃ t, apply host waitingBoth (buffering [buffered "0" 3]) (.tick none) atFive = .ok t ∧
      consumedMessages t.bufferedMessages = [buffered "0" 3] := by
  obtain ⟨t, ht, hcheck⟩ := ok_of_check (x := apply host waitingTwice
    (buffering [buffered "0" 10]) (.tick none) atFive) (fun t =>
      consumedMessages t.bufferedMessages = [buffered "0" 10, buffered "0" 10]) (by decide +kernel)
  obtain ⟨t', ht', hcheck'⟩ := ok_of_check (x := apply host waitingBoth
    (buffering [buffered "0" 3]) (.tick none) atFive) (fun t =>
      consumedMessages t.bufferedMessages = [buffered "0" 3]) (by decide +kernel)
  exact ⟨⟨t, ht, of_decide_eq_true hcheck⟩, t', ht', of_decide_eq_true hcheck'⟩

end Reference

end BpmnLite
