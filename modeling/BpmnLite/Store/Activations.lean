import BpmnLite.Store.Leases

/-!
# The activation queue

A commit that leaves a fibre running queues an activation of the instance. A scheduler claims a batch
of activations, one for an instance at a time, and consumes each when it has nothing more to do for
the instance; otherwise the activation becomes ready again, by a release or when its claim has
expired. The engine neither renews a claim nor dead-letters an activation.
-/

namespace BpmnLite

structure ClaimedActivation where
  tenantId : String
  activationId : Uuid
  instanceId : Uuid
  commandId : Uuid
  commandKind : String
  command : Command
  attemptCount : ℕ
  claimToken : String

namespace MemoryActivation

/-- The order in which activations are handed out. -/
def before (a b : MemoryActivation) : Bool :=
  a.priority < b.priority || a.priority = b.priority &&
    (a.availableAtMs < b.availableAtMs || a.availableAtMs = b.availableAtMs && a.seq ≤ b.seq)

def heldBy (activation : MemoryActivation) (claimToken : String) : Bool :=
  activation.status = .claimed && activation.claim.any (fun claim => claim.token = claimToken)

def isExpired (activation : MemoryActivation) (now : Timestamp) : Bool :=
  activation.status = .claimed && activation.claim.any (fun claim => claim.expiresAt ≤ now)

def claimBy (activation : MemoryActivation) (owner token : String) (expiresAt : Timestamp) :
    MemoryActivation :=
  { activation with
    status := .claimed
    claim := some ⟨owner, token, expiresAt⟩
    attemptCount := (activation.attemptCount + 1) % 2 ^ 32 }

def makeReady (activation : MemoryActivation) (availableAtMs : Timestamp) : MemoryActivation :=
  { activation with status := .ready, claim := none, availableAtMs }

end MemoryActivation

namespace Store

section Claim

variable (s : Store) (tenantId : String)

def claimedInstances : List Uuid :=
  (s.activations.values.filter (fun activation =>
    activation.tenantId = tenantId && activation.status = .claimed)).map (·.instanceId)

/-- The activations that may be handed out, in the order they are handed out in. -/
def candidates (now : Timestamp) : List (Uuid × MemoryActivation) :=
  (s.activations.toList.filter (fun row =>
    row.2.tenantId = tenantId && row.2.status = .ready && row.2.availableAtMs ≤ now &&
      row.2.instanceId ∉ s.claimedInstances tenantId)).mergeSort
    (fun row row' => row.2.before row'.2)

/-- One candidate: handed out unless the batch is full or has its instance already. -/
def claimCandidate (owner : String) (limit : ℕ) (expiresAt : Timestamp) (freshToken : ℕ → String)
    (batch : List ClaimedActivation × Store) (row : Uuid × MemoryActivation) :
    List ClaimedActivation × Store :=
  let (claimed, s) := batch
  if limit ≤ claimed.length ∨ claimed.any (fun other => other.instanceId = row.2.instanceId) then
    (claimed, s)
  else
    let token := freshToken claimed.length
    let activation := row.2.claimBy owner token expiresAt
    (claimed ++ [⟨activation.tenantId, row.1, activation.instanceId, activation.commandId,
        activation.commandKind, activation.command, activation.attemptCount, token⟩],
      { s with activations := s.activations.insert row.1 activation })

/-- `claim_ready_activations`, at the instant `now`; `freshToken` are the tokens it draws. -/
def claimReadyActivations (owner : String) (limit leaseMs : ℕ) (now : Timestamp)
    (freshToken : ℕ → String) : List ClaimedActivation × Store :=
  (s.candidates tenantId now).foldl
    (claimCandidate owner limit (now + asI64 leaseMs) freshToken) ([], s)

end Claim

variable (s : Store)

def releaseActivationToReady (activation : ClaimedActivation) (notBeforeMs : Option ℕ)
    (now : Timestamp) : Store :=
  match s.activations[activation.activationId]? with
  | some row =>
    if row.heldBy activation.claimToken then
      let row := row.makeReady ((notBeforeMs.map asI64).getD now)
      { s with activations := s.activations.insert activation.activationId row }
    else s
  | none => s

def consumeActivation (activation : ClaimedActivation) : Bool × Store :=
  if s.activations[activation.activationId]?.any (·.heldBy activation.claimToken) then
    (true, { s with activations := s.activations.erase activation.activationId })
  else (false, s)

def reclaimExpiredActivations (now : Timestamp) : ℕ × Store :=
  (s.activations.values.countP (·.isExpired now),
    { s with activations := s.activations.map (fun _ row =>
        if row.isExpired now then row.makeReady now else row) })

end Store

end BpmnLite
