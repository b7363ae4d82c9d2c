import BpmnLite.Store.Commit

/-!
# Claiming and releasing an instance

A claim is granted on an instance whose snapshot and journal agree, and only while no other owner
holds an unexpired lease. The fence of a claim is kept in the lease row: the owner of an unexpired
lease gets the same fence and token again, any other grant the next fence and a fresh token. The row
is removed by a release with its token, by a commit that leaves nothing running and by a claim that
finds the instance damaged.
-/

namespace BpmnLite

inductive ClaimError where
  | invalid (message : String)
  | integrity (message : String)
  deriving DecidableEq

namespace Store

section Claim

variable (H : StoreHost) (s : Store) (tenantId : String) (instanceId : Uuid)

/-- The snapshot and the last journal record of an instance against its row. -/
def checkIntegrity (inst : ProcessInstance) : Except String Unit :=
  match s.snapshots[instanceId]?, (s.journals.getD instanceId []).getLast? with
  | none, _ => throw "missing snapshot envelope"
  | some _, none => throw "missing journal head"
  | some snapshot, some journal => do
    if snapshot.revision ≠ s.revision instanceId ∨ snapshot.state.inst.instanceId ≠ instanceId ∨
        snapshot.state.inst.tenantId ≠ tenantId ∨
        snapshot.state.inst.bytecodeVersion ≠ inst.bytecodeVersion ∨
        journal.newRevision ≠ s.revision instanceId ∨
        journal.artifactHash ≠ inst.bytecodeVersion then
      throw "snapshot and journal head diverge"
    let stateHash ← H.stateHash snapshot
    if journal.stateHash ≠ stateHash then throw "snapshot and journal head diverge"

/-- An instance that failed the integrity check. -/
def quarantine (inst : ProcessInstance) : Store :=
  { s with
    instances := s.instances.insert instanceId
      { inst with quarantineState := some "replay_integrity_violation" }
    transitionLeases := s.transitionLeases.erase instanceId }

def holdsLease (owner : String) (now : ℕ) : Bool :=
  s.transitionLeases[instanceId]?.any (fun lease => lease.owner = owner && now < lease.expiresAt)

/-- The lease is held by someone else and has not expired. -/
def leasedToOther (owner : String) (now : ℕ) : Bool :=
  s.transitionLeases[instanceId]?.any (fun lease => lease.owner ≠ owner && now < lease.expiresAt)

def grantedLease (owner freshToken : String) (leaseMs now : ℕ) : TransitionLease :=
  { owner
    expiresAt := now + leaseMs
    fence := if s.holdsLease instanceId owner now then s.fence instanceId
      else s.fence instanceId + 1
    leaseToken := if s.holdsLease instanceId owner now then
        (s.transitionLeases[instanceId]?.map (·.leaseToken)).getD freshToken
      else freshToken }

/-- `claim_instance_for_transition`, at the instant `now` and with the token a new lease gets. -/
def claimInstanceForTransition (owner freshToken : String) (leaseMs now : ℕ) :
    Except ClaimError (Option Claim) × Store :=
  match s.instances[instanceId]? with
  | none => (.ok none, s)
  | some inst =>
    if inst.tenantId ≠ tenantId then (.ok none, s)
    else
      match s.checkIntegrity H tenantId instanceId inst with
      | .error reason => (.error (.integrity reason), s.quarantine instanceId inst)
      | .ok _ =>
        if s.leasedToOther instanceId owner now then (.ok none, s)
        else
          let lease := s.grantedLease instanceId owner freshToken leaseMs now
          if u64Max < lease.fence then (.error (.invalid "transition fence overflow"), s)
          else
            (.ok (some ⟨tenantId, instanceId, s.revision instanceId, lease.fence, lease.leaseToken⟩),
              { s with transitionLeases := s.transitionLeases.insert instanceId lease })

def releaseInstanceTransition (leaseToken : String) : Store :=
  if s.instances[instanceId]?.any (fun inst => inst.tenantId = tenantId) &&
      s.transitionLeases[instanceId]?.any (fun lease => lease.leaseToken = leaseToken) then
    { s with transitionLeases := s.transitionLeases.erase instanceId }
  else s

end Claim

/-- One call on the store by some owner, with the clock and the fresh ids it draws. -/
inductive Operation where
  | claim (tenantId : String) (instanceId : Uuid) (owner freshToken : String) (leaseMs now : ℕ)
  | commit (claim : Claim) (t : Transition) (now : Timestamp) (activationId : Uuid)
  | release (tenantId : String) (instanceId : Uuid) (leaseToken : String)

inductive Reply where
  | granted (claim : Claim)
  | notGranted
  | refused (error : ClaimError)
  | committed (revision : ℕ)
  | stopped (stop : CommitStop)
  | released
  deriving DecidableEq

/-- A call with the store it found and what it returned. -/
structure Turn where
  store : Store
  operation : Operation
  reply : Reply

section Run

variable (H : StoreHost)

def perform (s : Store) : Operation → Reply × Store
  | .claim tenantId instanceId owner freshToken leaseMs now =>
    match s.claimInstanceForTransition H tenantId instanceId owner freshToken leaseMs now with
    | (.ok (some claim), s') => (.granted claim, s')
    | (.ok none, s') => (.notGranted, s')
    | (.error error, s') => (.refused error, s')
  | .commit claim t now activationId =>
    match commitTransition H now activationId claim t s with
    | .ok revision s' => (.committed revision, s')
    | .error stop s' => (.stopped stop, s')
  | .release tenantId instanceId leaseToken =>
    (.released, s.releaseInstanceTransition tenantId instanceId leaseToken)

def after (operations : List Operation) (s : Store) : Store :=
  operations.foldl (fun s operation => (s.perform H operation).2) s

def turns : List Operation → Store → List Turn
  | [], _ => []
  | operation :: rest, s =>
    ⟨s, operation, (s.perform H operation).1⟩ :: turns rest (s.perform H operation).2

end Run

end Store

end BpmnLite
