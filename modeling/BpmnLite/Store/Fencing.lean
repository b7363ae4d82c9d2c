import BpmnLite.Store.Lineage

/-!
# Fences over a run

The fence of an instance lives in its lease row. As long as the row stays, fences do not fall: a
grant repeats the fence only where it renews the unexpired lease of the same owner, and a commit goes
through only under the fence of the row. The row does not outlive a release, a commit that leaves
nothing running or a failed integrity check; the next grant then starts again from fence 1.
-/

namespace BpmnLite

variable {l : TransitionLease} {x activationId : Uuid} {reply : Reply} {c claim : Claim}
  {t : Transition} {operations : List Operation}

/-- A later state of a lease row: the fence has not fallen, and under the same fence the owner and
the token are the same. -/
structure TransitionLease.Precedes (l l' : TransitionLease) : Prop where
  fence : l.fence ≤ l'.fence
  same : l'.fence = l.fence → l'.leaseToken = l.leaseToken ∧ l'.owner = l.owner

namespace TransitionLease.Precedes

variable {l₁ l₂ : TransitionLease}

theorem refl (l : TransitionLease) : l.Precedes l := ⟨le_rfl, fun _ => ⟨rfl, rfl⟩⟩

theorem trans (h₁ : l.Precedes l₁) (h₂ : l₁.Precedes l₂) : l.Precedes l₂ := by
  have h₁fence := h₁.fence
  have h₂fence := h₂.fence
  refine ⟨by omega, fun hfence => ?_⟩
  obtain ⟨htoken₁, howner₁⟩ := h₁.same (by omega)
  obtain ⟨htoken₂, howner₂⟩ := h₂.same (by omega)
  exact ⟨htoken₂.trans htoken₁, howner₂.trans howner₁⟩

end TransitionLease.Precedes

namespace Store

open Maps Abort

section Claims

variable {H : StoreHost} {s s' : Store} {tenantId owner freshToken : String} {leaseMs now : ℕ}
  {operation : Operation}

/-- What a call does to the store, with its reply: a commit apart, it changes nothing, quarantines an
instance, grants a lease or removes one. -/
inductive Calls (H : StoreHost) (s : Store) : Operation → Reply → Store → Prop
  | commit {c : Claim} {t : Transition} {now : Timestamp} {activationId : Uuid} {reply : Reply}
      {s' : Store} (h : s.perform H (.commit c t now activationId) = (reply, s'))
      (hgranted : ∀ c, reply ≠ .granted c) : Calls H s (.commit c t now activationId) reply s'
  | idle {operation : Operation} {reply : Reply} (hgranted : ∀ c, reply ≠ .granted c)
      (hcommitted : ∀ revision, reply ≠ .committed revision) : Calls H s operation reply s
  | quarantined {operation : Operation} {error : ClaimError} {x : Uuid} {inst : ProcessInstance}
      (hinst : s.instances[x]? = some inst) :
      Calls H s operation (.refused error) (s.quarantine x inst)
  | granted {tenantId owner freshToken : String} {x : Uuid} {leaseMs now : ℕ}
      {inst : ProcessInstance} {lease : TransitionLease} (hinst : s.instances[x]? = some inst)
      (hcheck : s.checkIntegrity H tenantId x inst = .ok ())
      (hlease : lease = s.grantedLease x owner freshToken leaseMs now) :
      Calls H s (.claim tenantId x owner freshToken leaseMs now)
        (.granted ⟨tenantId, x, s.revision x, lease.fence, lease.leaseToken⟩)
        { s with transitionLeases := s.transitionLeases.insert x lease }
  | released {operation : Operation} (x : Uuid) : Calls H s operation .released
      { s with transitionLeases := s.transitionLeases.erase x }

variable (H s operation) in
theorem perform_calls : Calls H s operation (s.perform H operation).1 (s.perform H operation).2 := by
  cases operation with
  | commit c t now activationId =>
    refine .commit rfl fun claim => ?_
    simp only [perform]
    split <;> simp
  | release tenantId x leaseToken =>
    simp only [perform, releaseInstanceTransition]
    split
    · exact .released x
    · exact .idle (by simp) (by simp)
  | claim tenantId x owner freshToken leaseMs now =>
    simp only [perform, claimInstanceForTransition]
    cases hinst : s.instances[x]? with
    | none => exact .idle (by simp) (by simp)
    | some inst =>
      dsimp only
      by_cases htenant : inst.tenantId ≠ tenantId
      · rw [if_pos htenant]
        exact .idle (by simp) (by simp)
      rw [if_neg htenant]
      cases hcheck : s.checkIntegrity H tenantId x inst with
      | error reason => exact .quarantined hinst
      | ok _ =>
        dsimp only
        by_cases hother : s.leasedToOther x owner now = true
        · rw [if_pos hother]
          exact .idle (by simp) (by simp)
        rw [if_neg hother]
        by_cases hoverflow : u64Max < (s.grantedLease x owner freshToken leaseMs now).fence
        · rw [if_pos hoverflow]
          exact .idle (by simp) (by simp)
        · rw [if_neg hoverflow]
          exact .granted hinst hcheck rfl

/-- The lease is renewed by the call: its owner asks again before it has expired. -/
def Operation.renews (s : Store) : Operation → Bool
  | .claim _ x owner _ _ now => s.holdsLease x owner now
  | _ => false

/-- What a granted claim says about the store before and after the call. -/
structure Grants (s : Store) (operation : Operation) (c : Claim) (l : TransitionLease) (s' : Store) :
    Prop where
  fence : c.fence = l.fence
  leaseToken : c.leaseToken = l.leaseToken
  expectedRevision : c.expectedRevision = s.revision c.instanceId
  present : c.instanceId ∈ s.instances
  renewed : operation.renews s = true → ∃ before, s.transitionLeases[c.instanceId]? = some before ∧
    before.Precedes l ∧ l.fence = before.fence
  advanced : operation.renews s = false → l.fence = s.fence c.instanceId + 1
  store : s' = { s with transitionLeases := s.transitionLeases.insert c.instanceId l }

theorem holdsLease_eq_true (h : s.holdsLease x owner now = true) :
    ∃ l, s.transitionLeases[x]? = some l ∧ l.owner = owner ∧ now < l.expiresAt := by
  unfold holdsLease at h
  cases hl : s.transitionLeases[x]? with
  | none => simp [hl] at h
  | some l =>
    simp only [hl, Option.any_some, Bool.and_eq_true, decide_eq_true_eq] at h
    exact ⟨l, rfl, h.1, h.2⟩

theorem grantedLease_precedes (hl : s.transitionLeases[x]? = some l) :
    l.Precedes (s.grantedLease x owner freshToken leaseMs now) := by
  have hfence : s.fence x = l.fence := by simp [Store.fence, hl]
  cases hholds : s.holdsLease x owner now with
  | true =>
    obtain ⟨l', hl', howner, -⟩ := holdsLease_eq_true hholds
    obtain rfl : l = l' := Option.mem_unique hl hl'
    refine ⟨by simp [grantedLease, hholds, hfence], fun _ => ⟨?_, howner.symm⟩⟩
    simp [grantedLease, hholds, hl]
  | false =>
    have hnext : (s.grantedLease x owner freshToken leaseMs now).fence = l.fence + 1 := by
      simp [grantedLease, hholds, hfence]
    exact ⟨by omega, fun hsame => by omega⟩

theorem grants_of_perform (h : s.perform H operation = (.granted c, s')) :
    ∃ l, Grants s operation c l s' := by
  have hcalls := perform_calls H s operation
  rw [h] at hcalls
  cases hcalls with
  | commit _ hgranted | idle hgranted => exact absurd rfl (hgranted c)
  | @granted tenantId owner freshToken x leaseMs now inst lease hinst hcheck hlease =>
    subst hlease
    refine ⟨s.grantedLease x owner freshToken leaseMs now, rfl, rfl, rfl, ?_, fun hrenews => ?_,
      fun hrenews => ?_, rfl⟩
    · rw [Std.ExtTreeMap.mem_iff_isSome_getElem?, hinst]
      rfl
    · obtain ⟨l, hl, -, -⟩ := holdsLease_eq_true hrenews
      refine ⟨l, hl, grantedLease_precedes hl, ?_⟩
      have hholds : s.holdsLease x owner now = true := hrenews
      simp [grantedLease, hholds, Store.fence, hl]
    · have hholds : s.holdsLease x owner now = false := hrenews
      simp [grantedLease, hholds]

end Claims

section Steps

theorem perform_commit_store (H : StoreHost) (s : Store) (claim : Claim) (t : Transition)
    (now : Timestamp) (activationId : Uuid) :
    (s.perform H (.commit claim t now activationId)).2 =
      leaves (commitTransition H now activationId claim t) s := by
  unfold leaves
  cases h : commitTransition H now activationId claim t s <;> simp only [perform, h]

theorem perform_touches {H : StoreHost} {s s' : Store} {now : Timestamp}
    (h : s.perform H (.commit claim t now activationId) = (reply, s')) :
    Touches claim (s.isStart claim) s s' := by
  obtain rfl := (congrArg Prod.snd h).symm.trans (perform_commit_store H s claim t now activationId)
  rcases commit_lineage H now activationId claim t s with hsame | ⟨-, htouches, -⟩
  · exact .of_lineage hsame
  · exact htouches

theorem perform_committed {H : StoreHost} {s : Store} {now : Timestamp} {revision : ℕ}
    (h : (s.perform H (.commit claim t now activationId)).1 = .committed revision) :
    ∃ s', commitTransition H now activationId claim t s = .ok revision s' ∧
      (s.perform H (.commit claim t now activationId)).2 = s' := by
  cases hcommit : commitTransition H now activationId claim t s with
  | ok revision' s' =>
    simp only [perform, hcommit, Reply.committed.injEq] at h ⊢
    exact ⟨s', by rw [h], rfl⟩
  | error stop s' => simp [perform, hcommit] at h

variable {H : StoreHost} {s s' : Store} {operation : Operation}

theorem lookup_erase (l : TransitionLease) (hl : s.transitionLeases[x]? = some l) (y : Uuid) :
    (s.transitionLeases.erase y)[x]? = none ∨ (s.transitionLeases.erase y)[x]? = some l := by
  rw [getElem?_erase]
  split
  · exact .inl rfl
  · exact .inr hl

theorem Calls.lease (h : Calls H s operation reply s') (hl : s.transitionLeases[x]? = some l) :
    s'.transitionLeases[x]? = none ∨
      ∃ l', s'.transitionLeases[x]? = some l' ∧ l.Precedes l' := by
  have hkept : s'.transitionLeases[x]? = none ∨ s'.transitionLeases[x]? = some l →
      s'.transitionLeases[x]? = none ∨ ∃ l', s'.transitionLeases[x]? = some l' ∧ l.Precedes l' :=
    Or.imp_right fun hsame => ⟨l, hsame, .refl l⟩
  cases h with
  | commit h => exact hkept ((perform_touches h).leases x |>.symm.imp_right (·.trans hl))
  | idle => exact hkept (.inr hl)
  | quarantined | released => exact hkept (lookup_erase l hl _)
  | @granted tenantId owner freshToken y leaseMs now inst lease hinst hcheck hlease =>
    by_cases hy : y = x
    · subst hy hlease
      exact .inr ⟨_, by rw [getElem?_insert, if_pos rfl], grantedLease_precedes hl⟩
    · exact hkept (.inr (by rw [getElem?_insert, if_neg hy, hl]))

variable (H) in
/-- The lease row of the instance is there before every call and at the end. -/
def HeldThrough (x : Uuid) : List Operation → Store → Prop
  | [], s => x ∈ s.transitionLeases
  | operation :: rest, s => x ∈ s.transitionLeases ∧ HeldThrough x rest (s.perform H operation).2

theorem HeldThrough.now (h : HeldThrough H x operations s) : x ∈ s.transitionLeases := by
  cases operations with
  | nil => exact h
  | cons operation rest => exact h.1

theorem held_lease (hheld : HeldThrough H x operations s) (hl : s.transitionLeases[x]? = some l) :
    ∃ l', (after H operations s).transitionLeases[x]? = some l' ∧ l.Precedes l' := by
  induction operations generalizing s l with
  | nil => exact ⟨l, hl, .refl l⟩
  | cons operation rest ih =>
    rcases (perform_calls H s operation).lease hl with hgone | ⟨l₁, hl₁, hprecedes⟩
    · have hpresent := hheld.2.now
      rw [Std.ExtTreeMap.mem_iff_isSome_getElem?, hgone] at hpresent
      simp at hpresent
    · obtain ⟨l', hl', hrest⟩ := ih hheld.2 hl₁
      exact ⟨l', hl', hprecedes.trans hrest⟩

/-- No lease row has fence 0: that fence stands for no row. -/
def PositiveFences (s : Store) : Prop :=
  ∀ (x : Uuid) (l : TransitionLease), s.transitionLeases[x]? = some l → 1 ≤ l.fence

theorem Calls.positive (h : Calls H s operation reply s') (hs : s.PositiveFences) :
    s'.PositiveFences := by
  intro x l hl
  have herased : ∀ y : Uuid, (s.transitionLeases.erase y)[x]? = some l → 1 ≤ l.fence := by
    intro y hl
    rw [getElem?_erase] at hl
    split at hl
    · simp at hl
    · exact hs x l hl
  cases h with
  | commit h =>
    rcases (perform_touches h).leases x with hkept | hgone
    · exact hs x l (hkept.symm.trans hl)
    · rw [hgone] at hl
      simp at hl
  | idle => exact hs x l hl
  | quarantined | released => exact herased _ hl
  | @granted tenantId owner freshToken y leaseMs now inst lease hinst hcheck hlease =>
    rw [getElem?_insert] at hl
    split at hl
    · obtain rfl := Option.some.inj hl
      rw [hlease]
      cases hholds : s.holdsLease y owner now with
      | true =>
        obtain ⟨before, hbefore, -, -⟩ := holdsLease_eq_true hholds
        exact (hs y before hbefore).trans (grantedLease_precedes hbefore).fence
      | false => simp [grantedLease, hholds]
    · exact hs x l hl

theorem positiveFences_after (operations : List Operation) :
    (after H operations {}).PositiveFences := by
  induction operations using List.reverseRecOn with
  | nil =>
    intro x l hl
    simp [after] at hl
  | append_singleton operations operation ih =>
    have hstep := (perform_calls H _ operation).positive ih
    rwa [after, List.foldl_concat]

end Steps

section Runs

variable {H : StoreHost}

/-- Fences over a run from the empty store, for a claim `c` and a claim `c'` granted later on the
same instance. While the lease row stays, the fence of `c'` is above that of `c`, unless `c'` renewed
an unexpired lease; and `c` commits after `c'` only if `c'` renewed the lease of `c`. -/
theorem later_grant_fence (operations between later : List Operation) {first second : Operation}
    {s₀ s₁ s₂ s₃ s₄ : Store} {c c' : Claim} (hs₀ : s₀ = after H operations {})
    (hc : s₀.perform H first = (.granted c, s₁)) (hs₂ : s₂ = after H between s₁)
    (hc' : s₂.perform H second = (.granted c', s₃)) (hs₄ : s₄ = after H later s₃)
    (hinstance : c'.instanceId = c.instanceId)
    (hbetween : HeldThrough H c.instanceId between s₁) :
    c.fence ≤ c'.fence ∧ (second.renews s₂ = false → c.fence < c'.fence) ∧
      (HeldThrough H c.instanceId later s₃ →
        ∀ t now activationId revision,
          (s₄.perform H (.commit c t now activationId)).1 = .committed revision →
            second.renews s₂ = true ∧ c'.fence = c.fence ∧ c'.leaseToken = c.leaseToken) := by
  obtain ⟨l, hgrant⟩ := grants_of_perform hc
  obtain ⟨l', hgrant'⟩ := grants_of_perform hc'
  have hs₁ : s₁.transitionLeases[c.instanceId]? = some l := by
    rw [hgrant.store, getElem?_insert, if_pos rfl]
  have hs₃ : s₃.transitionLeases[c.instanceId]? = some l' := by
    rw [hgrant'.store, hinstance, getElem?_insert, if_pos rfl]
  obtain ⟨l₂, hl₂, hprecedes⟩ := held_lease hbetween hs₁
  rw [← hs₂] at hl₂
  have hfence₂ : s₂.fence c'.instanceId = l₂.fence := by simp [Store.fence, hinstance, hl₂]
  -- What the second grant made of the row it found.
  have hstep : l.Precedes l' ∧ (second.renews s₂ = false → l.fence < l'.fence) := by
    cases hrenews : second.renews s₂ with
    | true =>
      obtain ⟨before, hbefore, hlater, -⟩ := hgrant'.renewed hrenews
      rw [hinstance, hl₂] at hbefore
      obtain rfl := Option.some.inj hbefore
      exact ⟨hprecedes.trans hlater, by simp⟩
    | false =>
      have hnext := hgrant'.advanced hrenews
      have hfence := hprecedes.fence
      exact ⟨⟨by omega, fun hsame => by omega⟩, fun _ => by omega⟩
  have hcfence := hgrant.fence
  have hcfence' := hgrant'.fence
  refine ⟨?_, fun hnew => ?_, fun hlater t now activationId revision hcommit => ?_⟩
  · have hfence := hstep.1.fence
    omega
  · have hfence := hstep.2 hnew
    omega
  · obtain ⟨l₄, hl₄, hprecedes₄⟩ := held_lease hlater hs₃
    rw [← hs₄] at hl₄
    have hfence₄ : s₄.fence c.instanceId = l₄.fence := by simp [Store.fence, hl₄]
    obtain ⟨s', hok, -⟩ := perform_committed hcommit
    obtain ⟨hcommits, -, -⟩ := (commitTransition_eq_ok H now activationId c t s₄).mp hok
    have hpositive : 1 ≤ l.fence := by
      have hpositive₀ : s₀.PositiveFences := hs₀ ▸ positiveFences_after operations
      have hcalls := perform_calls H s₀ first
      rw [hc] at hcalls
      exact hcalls.positive hpositive₀ c.instanceId l hs₁
    have hcurrent : l₄.fence = c.fence := by
      rcases hcommits.admits.current with hstart | ⟨row, -, -, hfence, -⟩
      · -- A claim that starts an instance has fence 0, and no granted claim has.
        simp only [isStart, Bool.and_eq_true, decide_eq_true_eq] at hstart
        omega
      · rw [← hfence₄, hfence]
    have hfence := hstep.1.fence
    have hfence' := hprecedes₄.fence
    have hsame : l'.fence = l.fence := by omega
    refine ⟨?_, by omega, ?_⟩
    · by_contra hnew
      have hrises := hstep.2 (by simpa using hnew)
      omega
    · rw [hgrant.leaseToken, hgrant'.leaseToken]
      exact (hstep.1.same hsame).1

end Runs

end Store

namespace Reference

open Store

/-- The first commit of an instance, with one fibre that can go on. -/
def started : Operation := .commit ⟨"", 0, 0, 0, ""⟩
  { nextSnapshot := inst, fibersUpsert := [{ fiberId := 1, pc := 0 }] } 0 0

def claimBy (owner : String) (now : ℕ) : Operation := .claim "" 0 owner owner 10 now

/-- A claim on an expired lease gets the next fence, and the expired claim commits nothing more. -/
theorem expired_claim_fenced : ∃ (c c' : Claim) (s₁ s₃ : Store),
    (Store.after storeHost [started] {}).perform storeHost (claimBy "a" 0) = (.granted c, s₁) ∧
    s₁.perform storeHost (claimBy "b" 20) = (.granted c', s₃) ∧ c.fence < c'.fence ∧
    ∀ t now activationId revision,
      (s₃.perform storeHost (.commit c t now activationId)).1 ≠ .committed revision := by
  let s₀ := Store.after storeHost [started] {}
  let s₁ := (s₀.perform storeHost (claimBy "a" 0)).2
  let s₃ := (s₁.perform storeHost (claimBy "b" 20)).2
  have hc : s₀.perform storeHost (claimBy "a" 0) = (.granted ⟨"", 0, 0, 1, "a"⟩, s₁) :=
    Prod.ext (by decide +kernel) rfl
  have hc' : s₁.perform storeHost (claimBy "b" 20) = (.granted ⟨"", 0, 0, 2, "b"⟩, s₃) :=
    Prod.ext (by decide +kernel) rfl
  have hheld : HeldThrough storeHost 0 [] s₁ := by
    unfold HeldThrough
    decide +kernel
  have hheld' : HeldThrough storeHost 0 [] s₃ := by
    unfold HeldThrough
    decide +kernel
  have hnew : (claimBy "b" 20).renews s₁ = false := by decide +kernel
  obtain ⟨-, hrises, hcommits⟩ := later_grant_fence [started] [] [] rfl hc rfl hc' rfl rfl hheld
  refine ⟨_, _, s₁, s₃, hc, hc', hrises hnew, fun t now activationId revision hcommitted => ?_⟩
  have hrenewed := (hcommits hheld' t now activationId revision hcommitted).1
  exact Bool.false_ne_true (hnew.symm.trans hrenewed)

/-- The owner `a` claims under fence 1 and lets the lease expire; `b` claims under fence 2 and
releases; `c` claims under fence 1 again, and the claim of `a` goes through. -/
theorem stale_claim_commits :
    (turns storeHost [started, claimBy "a" 0, claimBy "b" 20, .release "" 0 "b", claimBy "c" 20,
      .commit ⟨"", 0, 0, 1, "a"⟩ { nextSnapshot := inst } 0 0] {}).map Turn.reply =
      [.committed 0, .granted ⟨"", 0, 0, 1, "a"⟩, .granted ⟨"", 0, 0, 2, "b"⟩, .released,
        .granted ⟨"", 0, 0, 1, "c"⟩, .committed 1] := by
  decide +kernel

end Reference

end BpmnLite
