import BpmnLite.ScopeTree

/-!
# The life of a record

A record is inserted once, under an id that was not handed out before. From then on a step may
change its members, add an error route, count an arrival or retire it, and nothing else. As long as
it is armed, the fibres inside its scope are among its members.
-/

namespace BpmnLite

open Function (update update_of_ne)

variable {r' record r : ConcurrencyRecord} {live : Uuid → Prop} {dead : RecordId → Prop}
  {gone added : RecordId → Uuid → Prop} {T T' : RecordId → Option ConcurrencyRecord} {y : RecordId}
  {C : Config → Act → Prop} {fibers fibers' : Uuid → Option Fiber} {i m : Uuid} {f g f' : Fiber}
  {instruction : Instr} {below above : List RecordId}

/-- What may happen to a record once it is in the table: everything but the members, the error
routes, the count and the state stays, the count does not grow, and a retired record stays so. -/
structure ConcurrencyRecord.Evolves (r r' : ConcurrencyRecord) : Prop where
  id : r'.id = r.id
  kind : r'.kind = r.kind
  handler : r'.handler = r.handler
  openedAt : r'.openedAt = r.openedAt
  arity : r'.counters.arity = r.counters.arity
  rollbackDomainPayload : r'.rollbackDomainPayload = r.rollbackDomainPayload
  rollbackDomainPayloadHash : r'.rollbackDomainPayloadHash = r.rollbackDomainPayloadHash
  rollbackFlags : r'.rollbackFlags = r.rollbackFlags
  rollbackJoinExpected : r'.rollbackJoinExpected = r.rollbackJoinExpected
  rollbackSessionStack : r'.rollbackSessionStack = r.rollbackSessionStack
  count : r'.counters.count ≤ r.counters.count
  retired : r.state = .retired → r'.state = .retired

namespace ConcurrencyRecord.Evolves

variable {r₁ r₂ : ConcurrencyRecord}

theorem refl (r : ConcurrencyRecord) : r.Evolves r :=
  ⟨rfl, rfl, rfl, rfl, rfl, rfl, rfl, rfl, rfl, rfl, le_rfl, fun h => h⟩

theorem trans (h₁ : r.Evolves r₁) (h₂ : r₁.Evolves r₂) : r.Evolves r₂ where
  id := h₂.id.trans h₁.id
  kind := h₂.kind.trans h₁.kind
  handler := h₂.handler.trans h₁.handler
  openedAt := h₂.openedAt.trans h₁.openedAt
  arity := h₂.arity.trans h₁.arity
  rollbackDomainPayload := h₂.rollbackDomainPayload.trans h₁.rollbackDomainPayload
  rollbackDomainPayloadHash := h₂.rollbackDomainPayloadHash.trans h₁.rollbackDomainPayloadHash
  rollbackFlags := h₂.rollbackFlags.trans h₁.rollbackFlags
  rollbackJoinExpected := h₂.rollbackJoinExpected.trans h₁.rollbackJoinExpected
  rollbackSessionStack := h₂.rollbackSessionStack.trans h₁.rollbackSessionStack
  count := h₂.count.trans h₁.count
  retired h := h₂.retired (h₁.retired h)

theorem of_sameScope (h : r.SameScope r₁) (hstate : r.state = .retired → r₁.state = .retired) :
    r.Evolves r₁ := by
  rw [ConcurrencyRecord.SameScope] at h
  rw [h] at hstate ⊢
  exact ⟨rfl, rfl, rfl, rfl, rfl, rfl, rfl, rfl, rfl, rfl, le_rfl, hstate⟩

end ConcurrencyRecord.Evolves

section Evolution
theorem Rewrites.evolves (h : Rewrites live dead gone added T T') (hr : T y = some r) :
    ∃ r', T' y = some r' ∧ r.Evolves r' := by
  obtain ⟨r', hr', hscope, hdead, hkeep, -⟩ := h.present y r hr
  refine ⟨r', hr', .of_sameScope hscope fun hretired => ?_⟩
  by_cases hy : dead y
  · exact hdead hy
  · rw [hkeep hy, hretired]

theorem Rewrites.mem_of_mem (h : Rewrites live dead gone added T T') (hr' : T' y = some r')
    (harmed : r'.state = .armed) :
    ∃ r, T y = some r ∧ r.state = .armed ∧
      (∀ m ∈ r.members, live m → ¬ gone y m → m ∈ r'.members) ∧
      ∀ m, added y m → m ∈ r'.members := by
  obtain ⟨r, hr, -, hstate⟩ := h.recordFrom hr'
  obtain ⟨r'', hr'', -, -, -, -, hmembers⟩ := h.present y r hr
  obtain rfl : r'' = r' := Option.mem_unique hr'' hr'
  exact ⟨r, hr, hstate harmed, (hmembers harmed).2⟩

end Evolution

variable {P : List Instr} {own : Uuid → Addr → EffectId} {c c' : Config} {act : Act}

theorem Step.evolves (h : Step P own c act c') (hc : c.Formed) (hr : c.table y = some r) :
    ∃ r', c'.table y = some r' ∧ r.Evolves r' := by
  have hold : y ∈ c.old := hc.records y r hr
  cases h with
  | select | plain | cached | arm | park | raceClose | finish | wake | complete | fail | age =>
    exact ⟨r, hr, .refl r⟩
  | @armError i f f' errorCode handler top record h hf htop hrecord =>
    by_cases hy : y = top
    · subst hy
      obtain rfl : record = r := Option.mem_unique hrecord hr
      refine ⟨{ record with
        errorRoutes := insertErrorRoute (errorCode, handler) record.errorRoutes }, by simp, ?_⟩
      exact ⟨rfl, rfl, rfl, rfl, rfl, rfl, rfl, rfl, rfl, rfl, le_rfl, id⟩
    · exact ⟨r, by simpa [update_of_ne hy] using hr, .refl r⟩
  | @«open» i f instruction record h hopen hnew =>
    have hy : y ≠ record.id := fun he => hnew (he ▸ hold)
    exact ⟨r, by simpa [update_of_ne hy] using hr, .refl r⟩
  | @arrive i f pairing below top record h hstack hrecord hcount =>
    by_cases hy : y = top
    · subst hy
      obtain rfl : record = r := Option.mem_unique hrecord hr
      refine ⟨{ record with
        counters := { record.counters with count := record.counters.count - 1 } }, by simp, ?_⟩
      exact ⟨rfl, rfl, rfl, rfl, rfl, rfl, rfl, rfl, rfl, rfl, Nat.sub_le _ 1, id⟩
    · exact ⟨r, by simpa [update_of_ne hy] using hr, .refl r⟩
  | @fork i f targets pairing top ids record table h hids hnodup hnew hrecord hmembers htable =>
    have hy : y ≠ top := fun he => hnew top List.mem_cons_self (he ▸ hold)
    exact htable.evolves (by rwa [update_of_ne hy])
  | close _ _ _ htable => exact htable.evolves hr
  | release _ _ _ _ htable => exact htable.evolves hr
  | cancel _ _ _ _ _ htable => exact htable.evolves hr
  | win _ _ _ _ htable => exact htable.evolves hr
  | expire _ _ _ htable => exact htable.evolves hr
  | triggerN _ _ _ _ _ _ _ htable => exact htable.evolves hr
  | trigger _ _ _ _ _ _ _ _ htable => exact htable.evolves hr
  | rollback _ _ _ _ _ _ _ _ htable => exact htable.evolves hr
  | repark _ _ _ _ _ _ _ _ _ _ htable => exact htable.evolves hr
  | clear htable => exact htable.evolves hr

theorem Path.evolves (h : Path C P own c c') (hc : c.Formed) (hr : c.table y = some r) :
    ∃ r', c'.table y = some r' ∧ r.Evolves r' := by
  have hinv : c'.Formed ∧ ∃ r', c'.table y = some r' ∧ r.Evolves r' := by
    refine Path.preserves (I := fun c' => c'.Formed ∧ ∃ r', c'.table y = some r' ∧ r.Evolves r')
      ?_ h ⟨hc, r, hr, .refl r⟩
    rintro c₁ c₂ act ⟨hformed, r₁, hr₁, hevolves₁⟩ - hstep
    obtain ⟨r₂, hr₂, hevolves₂⟩ := hstep.evolves hformed hr₁
    exact ⟨hstep.formed hformed, r₂, hr₂, hevolves₁.trans hevolves₂⟩
  exact hinv.2

/-- The fibres inside the scope of an armed record are among its members. -/
def Enrolled (fibers : Uuid → Option Fiber) (table : RecordId → Option ConcurrencyRecord) : Prop :=
  ∀ m f, fibers m = some f → ∀ y ∈ effectiveControlStack f, ∀ r, table y = some r →
    r.state = .armed → m ∈ r.members

section Enrolment
theorem Enrolled.rewrites (h : Enrolled fibers T) (htable : Rewrites live dead gone added T T')
    (hfibers : ∀ m f', fibers' m = some f' → ∀ y ∈ effectiveControlStack f',
      (∃ f, fibers m = some f ∧ y ∈ effectiveControlStack f ∧ live m ∧ ¬ gone y m) ∨ added y m) :
    Enrolled fibers' T' := by
  intro m f' hf' y hy r' hr' harmed
  obtain ⟨r, hr, hstate, hkept, hadded⟩ := htable.mem_of_mem hr' harmed
  rcases hfibers m f' hf' y hy with ⟨f, hf, hyf, hlive, hgone⟩ | hm
  · exact hkept m (h m f hf y hyf r hr hstate) hlive hgone
  · exact hadded m hm

theorem Enrolled.mono (h : Enrolled fibers T)
    (hfibers : ∀ m f', fibers' m = some f' → ∃ f, fibers m = some f ∧
      effectiveControlStack f' ⊆ effectiveControlStack f) : Enrolled fibers' T := by
  intro m f' hf' y hy
  obtain ⟨f, hf, hsub⟩ := hfibers m f' hf'
  exact h m f hf y (hsub hy)

theorem Enrolled.update (h : Enrolled fibers T) (hr : T y = some r)
    (hmembers : r'.members = r.members) (hstate : r'.state = r.state) :
    Enrolled fibers (update T y (some r')) := by
  intro m f hf z hz s hs harmed
  by_cases hzy : z = y
  · subst hzy
    obtain rfl : r' = s := by simpa using hs
    rw [hmembers]
    exact h m f hf z hz r hr (hstate ▸ harmed)
  · rw [update_of_ne hzy] at hs
    exact h m f hf z hz s hs harmed

end Enrolment

theorem subset_of_set (hf : c.fibers i = some f)
    (hsub : effectiveControlStack f' ⊆ effectiveControlStack f) (hg : c.set i f' m = some g) :
    ∃ f, c.fibers m = some f ∧ effectiveControlStack g ⊆ effectiveControlStack f := by
  rcases set_eq_some hg with ⟨rfl, rfl⟩ | ⟨-, hg⟩
  · exact ⟨f, hf, hsub⟩
  · exact ⟨g, hg, fun _ h => h⟩

theorem Instr.Opens.mem_members {pc : Addr} (h : instruction.Opens pc i record) :
    i ∈ record.members := by
  cases instruction with
  | v2Guard | v2GuardN | v2RaceOpen =>
    rw [h]
    simp
  | v2GuardR =>
    obtain ⟨payload, hash, flags, joinExpected, session, h⟩ := h
    rw [h]
    simp
  | _ => exact h.elim

theorem Config.Exec.chain (h : c.Exec P i f instruction) :
    effectiveControlStack f = f.controlStack :=
  effectiveControlStack_of_running h.running

theorem chain_of_wake
    (hwait : (∃ deadlineMs, f.wait = .timer deadlineMs) ∨
      (∃ waitId name corrKey, f.wait = .msg waitId name corrKey) ∨
      ∃ incidentId, f.wait = .incident incidentId) : effectiveControlStack f = f.controlStack := by
  rcases hwait with ⟨_, hw⟩ | ⟨_, _, _, hw⟩ | ⟨_, hw⟩ <;> simp [effectiveControlStack, hw]

theorem Step.enrolled (h : Step P own c act c') (hc : c.Formed)
    (he : Enrolled c.fibers c.table) : Enrolled c'.fibers c'.table := by
  classical
  -- The fibre moves within the scopes it is in.
  have hset : ∀ {i : Uuid} {f f' : Fiber}, c.fibers i = some f →
      effectiveControlStack f' = effectiveControlStack f → Enrolled (c.set i f') c.table :=
    fun hf hchain => he.mono fun m g hg => subset_of_set hf (fun _ hy => hchain ▸ hy) hg
  -- The scope `r` ends and the fibre stays in scopes it was in.
  have hend : ∀ {i : Uuid} {f f' : Fiber} {r : RecordId} {table}, c.fibers i = some f →
      effectiveControlStack f' ⊆ effectiveControlStack f →
      Rewrites c.Live (· = r) (fun _ _ => False) (fun _ _ => False) c.table table →
      Enrolled (c.set i f') table := by
    intro i f f' r table hf hsub htable
    refine he.rewrites htable fun m g hg y hy => Or.inl ?_
    obtain ⟨g', hg', hsub'⟩ := subset_of_set hf hsub hg
    exact ⟨g', hg', hsub' hy, ⟨g', hg'⟩, id⟩
  cases h with
  | select | age => exact he
  | plain h _ _ hf | arm h hf => exact hset h.live (hf.chain.trans h.chain.symm)
  | cached h => exact hset h.live rfl
  | park h hf => exact hset h.live (hf.chain.2.trans h.chain.symm)
  | raceClose h hstack => exact hset h.live (h.chain.trans hstack).symm
  | armError h hf htop hrecord =>
    exact (hset h.live (hf.chain.trans h.chain.symm)).update hrecord rfl rfl
  | arrive h hstack hrecord =>
    exact Enrolled.update (hset h.live (h.chain.trans hstack).symm) hrecord rfl rfl
  | wake _ hlive hwait => exact hset hlive (chain_of_wake hwait).symm
  | complete _ hlive hwait | fail _ hlive hwait => exact hset hlive hwait.chain.symm
  | close h _ hstack htable =>
    exact hend h.live (by simp [effectiveControlStack, h.running, hstack]) htable
  | win _ hlive hwait _ htable | expire _ hlive hwait htable =>
    exact hend hlive (by simp [effectiveControlStack, hwait]) htable
  | @finish i f h =>
    refine he.mono fun m g hg => ⟨g, ?_, fun _ h => h⟩
    simp only at hg
    by_cases hm : m = i
    · subst hm
      simp at hg
    · rwa [update_of_ne hm] at hg
  | clear => exact fun m f hf => by simp at hf
  | @«open» i f instruction record h hopen hnew =>
    intro m g hg y hy r hr harmed
    by_cases hyr : y = record.id
    · subst hyr
      obtain rfl : record = r := by simpa using hr
      rcases set_eq_some hg with ⟨rfl, rfl⟩ | ⟨hm, hg⟩
      · exact hopen.mem_members
      · exact absurd (hc.held m g hg _ hy) hnew
    · simp only [update_of_ne hyr] at hr
      rcases set_eq_some hg with ⟨rfl, rfl⟩ | ⟨hm, hg⟩
      · refine he m f h.live y ?_ r hr harmed
        rw [h.chain]
        simpa [effectiveControlStack, h.running, hyr] using hy
      · exact he m g hg y hy r hr harmed
  | @fork i f targets pairing r ids record table h hids hnodup hnew hrecord hmembers htable =>
    have hfresh : r ∉ c.old := hnew r List.mem_cons_self
    intro m g hg y hy r' hr' harmed
    obtain ⟨r₀, hr₀, hstate, hkept, hadded⟩ := htable.mem_of_mem hr' harmed
    simp only at hg
    split at hg
    · simp at hg
    · rename_i hmi
      split at hg
      · rename_i child hchild
        obtain rfl : child.1 = m := by simpa using List.find?_some hchild
        have hid : child.1 ∈ ids := (List.of_mem_zip (List.mem_of_find?_eq_some hchild)).1
        obtain rfl := Option.some.inj hg
        rcases List.mem_append.mp hy with hy | hy
        · exact hadded _ ⟨hy, hid⟩
        · obtain rfl := List.mem_singleton.mp hy
          obtain rfl : record = r₀ := by simpa using hr₀
          exact hkept _ ((hmembers _).mpr hid) (Or.inr hid) fun hgone => hmi hgone.2
      · have hyr : y ≠ r := fun hyr => hfresh (hyr ▸ hc.held m g hg y hy)
        rw [update_of_ne hyr] at hr₀
        exact hkept m (he m g hg y hy r₀ hr₀ hstate) (Or.inl ⟨g, hg⟩) fun hgone => hmi hgone.2
  | @release i f pairing below r record table h hstack hrecord hcount htable =>
    refine he.rewrites htable fun m g hg y hy => Or.inl ?_
    rcases cut_eq_some hg with ⟨rfl, rfl⟩ | ⟨-, hout, hg⟩
    · refine ⟨f, h.live, ?_, ⟨f, h.live⟩, fun hgone => hgone.2.1 rfl⟩
      rw [h.chain, hstack]
      simp [effectiveControlStack, h.running] at hy
      simp [hy]
    · exact ⟨g, hg, hy, ⟨g, hg⟩, fun hgone => hout hgone.1⟩
  | @cancel i f below r record dead table h hstack hrecord hrollback hdead htable =>
    refine he.rewrites htable fun m g hg y hy => Or.inl ?_
    rcases cut_eq_some (p := fun m => c.Holds m r) hg with ⟨rfl, rfl⟩ | ⟨-, hout, hg⟩
    · refine ⟨f, h.live, ?_, ⟨f, h.live⟩, fun hgone => hgone.1 rfl⟩
      rw [h.chain, hstack]
      simp [effectiveControlStack, h.running] at hy
      simp [hy]
    · exact ⟨g, hg, hy, ⟨g, hg⟩, fun hgone => hout hgone.2.1⟩
  | @triggerN r record target h₀ stack table hfocus hrecord harmed hkind htarget hnew hstack htable =>
    refine he.rewrites htable fun m g hg y hy => ?_
    rcases set_eq_some hg with ⟨rfl, rfl⟩ | ⟨hm, hg⟩
    · exact Or.inr ⟨hy, rfl⟩
    · exact Or.inl ⟨g, hg, hy, ⟨g, hg⟩, id⟩
  | @trigger r record target h₀ stack dead table hfocus hrecord harmed hkind htarget hnew hstack hdead
      htable =>
    refine he.rewrites htable fun m g hg y hy => ?_
    rcases cut_eq_some (p := fun m => c.Holds m r) hg with ⟨rfl, rfl⟩ | ⟨-, hout, hg⟩
    · exact Or.inr ⟨hy, rfl⟩
    · exact Or.inl ⟨g, hg, hy, ⟨g, hg⟩, fun hgone => hout hgone.1⟩
  | rollback _ _ _ _ _ _ _ _ htable =>
    refine he.rewrites htable fun m g hg y hy => Or.inl ?_
    simp only at hg
    split at hg
    · simp at hg
    · rename_i hout
      exact ⟨g, hg, hy, ⟨g, hg⟩, fun hgone => hout hgone.1⟩
  | @repark r i f record below above openedAt incidentId dead table hfocus hrecord harmed hkind
      hrollback hopened hlive hstack hothers hdead htable =>
    refine he.rewrites htable fun m g hg y hy => Or.inr ?_
    rcases set_eq_some (c := { c with fibers := fun _ => none }) hg with ⟨rfl, rfl⟩ | ⟨-, hg⟩
    · exact ⟨hy, rfl⟩
    · simp at hg

def Covered (fibers : Uuid → Option Fiber) (table : RecordId → Option ConcurrencyRecord) : Prop :=
  ∀ y r, table y = some r → r.state = .armed → ∃ m f, fibers m = some f ∧
    y ∈ effectiveControlStack f

/-- No scope is left without a fibre by an act: a released barrier takes no scope opened inside it
along, a triggered guard is on the control stacks of the fibres inside it, and the scopes around one
that is rolled back have fibres outside it, if any fibre survives. -/
def Config.Shelters (P : List Instr) (c : Config) : Act → Prop
  | .exec i => ∀ f pairing below r record, c.Exec P i f (.v2Join pairing) →
      f.controlStack = below ++ [r] → c.table r = some record → record.counters.count ≤ 1 →
      ∀ m ∈ record.members, ∀ g, c.fibers m = some g → effectiveControlStack g ⊆ f.controlStack
  | .trigger r _ => ∀ m g, c.fibers m = some g → r ∈ effectiveControlStack g → r ∈ g.controlStack
  | .rollback r i => ∀ f below above, c.fibers i = some f →
      effectiveControlStack f = below ++ r :: above → ∀ k, c.Live k → ¬ c.Holds k r →
      ∀ y ∈ below, ∃ m g, c.fibers m = some g ∧ y ∈ effectiveControlStack g ∧
        r ∉ effectiveControlStack g
  | _ => True

/-- A fibre that ends is in no armed scope, and one that forks has children. -/
structure Config.Parts (P : List Instr) (c : Config) : Prop where
  finish : ∀ i f, c.Exec P i f .end → ∀ y ∈ f.controlStack, ∀ r, c.table y = some r →
    r.state ≠ .armed
  fork : ∀ i f targets pairing, c.Exec P i f (.v2Fork targets pairing) → targets ≠ []

theorem Rewrites.armed_of_armed (h : Rewrites live dead gone added T T') (hr' : T' y = some r')
    (harmed : r'.state = .armed) : ∃ r, T y = some r ∧ r.state = .armed ∧ ¬ dead y := by
  obtain ⟨r, hr, -, hstate⟩ := h.recordFrom hr'
  refine ⟨r, hr, hstate harmed, fun hdead => ?_⟩
  obtain ⟨r'', hr'', -, hretired, -⟩ := h.present y r hr
  obtain rfl : r'' = r' := Option.mem_unique hr'' hr'
  simp [hretired hdead] at harmed

theorem Covered.rewrites (h : Covered fibers T) (htable : Rewrites live dead gone added T T')
    (hfibers : ∀ m f, fibers m = some f → ∀ y ∈ effectiveControlStack f, ¬ dead y → ∃ m' f', fibers'
      m' = some f' ∧ y ∈ effectiveControlStack f') : Covered fibers' T' := by
  intro y r' hr' harmed
  obtain ⟨r, hr, hstate, hdead⟩ := htable.armed_of_armed hr' harmed
  obtain ⟨m, f, hf, hy⟩ := h y r hr hstate
  exact hfibers m f hf y hy hdead

theorem Covered.update (h : Covered fibers T) (hr : T y = some r) (hstate : r'.state = r.state) :
    Covered fibers (update T y (some r')) := by
  intro z s hs harmed
  by_cases hzy : z = y
  · subst hzy
    obtain rfl : r' = s := by simpa using hs
    exact h z r hr (hstate ▸ harmed)
  · rw [update_of_ne hzy] at hs
    exact h z s hs harmed

theorem covered_of_set (hf : c.fibers i = some f) (hg : c.fibers m = some g)
    (hy : y ∈ effectiveControlStack g)
    (hkeep : y ∈ effectiveControlStack f → y ∈ effectiveControlStack f') :
    ∃ m' g', c.set i f' m' = some g' ∧ y ∈ effectiveControlStack g' := by
  by_cases hm : m = i
  · subst hm
    obtain rfl := Option.mem_unique hf hg
    exact ⟨m, f', by simp [Config.set], hkeep hy⟩
  · exact ⟨m, g, by simpa [Config.set, update_of_ne hm] using hg, hy⟩

theorem Config.Formed.split (hc : c.Formed) {r : RecordId} (hf : c.fibers i = some f)
    (hstack : effectiveControlStack f = below ++ r :: above) (hg : c.fibers m = some g)
    (hr : r ∈ effectiveControlStack g) : ∃ q, effectiveControlStack g = below ++ r :: q := by
  obtain ⟨p, q, hsplit⟩ := List.append_of_mem hr
  obtain rfl : below = p := hc.tree.below_eq ⟨i, f, hf, rfl⟩ ⟨m, g, hg, rfl⟩ hstack hsplit
  exact ⟨q, hsplit⟩

theorem not_holds {r : RecordId} (hg : c.fibers m = some g) (hr : r ∉ effectiveControlStack g) :
    ¬ c.Holds m r := by
  rintro ⟨g', hg', hr'⟩
  obtain rfl := Option.mem_unique hg hg'
  exact hr hr'

theorem Config.Cancels.mem_below {j : Option Uuid} {kept : List RecordId} {r : RecordId}
    (hdead : c.Cancels j kept r dead) (hc : c.Formed) (hf : c.fibers i = some f)
    (hstack : effectiveControlStack f = below ++ r :: above) (hg : c.fibers m = some g)
    (hr : r ∈ effectiveControlStack g) (hm : some m ≠ j) (hy : y ∈ effectiveControlStack g)
    (hne : ¬ dead y) : y ∈ below := by
  obtain ⟨q, hsplit⟩ := hc.split hf hstack hg hr
  rw [hsplit] at hy
  rcases List.mem_append.mp hy with hy | hy
  · exact hy
  · rcases List.mem_cons.mp hy with rfl | hy
    · exact absurd hdead.self hne
    · exact absurd (hdead.above m g y hm hg ⟨below, q, hsplit, hy⟩) hne

theorem mem_forked (fibers : Uuid → Option Fiber) (stack : List RecordId) (r : RecordId) {id : Uuid}
    (ids : List Uuid) (target : Addr) (targets : List Addr) (hid : id ≠ i) (y : RecordId)
    (hy : y ∈ stack ++ [r]) :
    ∃ m g, (if m = i then none
      else match ((id :: ids).zip (target :: targets)).find? (·.1 = m) with
        | some child => some { Fiber.new child.1 child.2 with controlStack := stack ++ [r] }
        | none => fibers m) = some g ∧ y ∈ effectiveControlStack g := by
  refine ⟨id, { Fiber.new id target with controlStack := stack ++ [r] }, ?_, hy⟩
  rw [if_neg hid, List.zip_cons_cons, List.find?_cons_of_pos (by simp)]

theorem Step.covered (h : Step P own c act c') (hc : c.Formed)
    (hact : act.isFree ∨ c.Shelters P act ∧ c.Parts P) (hcov : Covered c.fibers c.table) :
    Covered c'.fibers c'.table := by
  classical
  have hset : ∀ {i : Uuid} {f f' : Fiber}, c.fibers i = some f →
      effectiveControlStack f' = effectiveControlStack f → Covered (c.set i f') c.table := by
    intro i f f' hf hchain y r hr harmed
    obtain ⟨m, g, hg, hy⟩ := hcov y r hr harmed
    exact covered_of_set hf hg hy fun h => hchain ▸ h
  have hend : ∀ {i : Uuid} {f f' : Fiber} {r : RecordId} {table}, c.fibers i = some f →
      (∀ y ∈ effectiveControlStack f, y ≠ r → y ∈ effectiveControlStack f') →
      Rewrites c.Live (· = r) (fun _ _ => False) (fun _ _ => False) c.table table →
      Covered (c.set i f') table := fun hf hsub htable =>
    hcov.rewrites htable fun m g hg y hy hne => covered_of_set hf hg hy fun h => hsub y h hne
  cases h with
  | select | age => exact hcov
  | clear htable => exact hcov.rewrites htable fun m f hf y hy hdead => absurd trivial hdead
  | plain h _ _ hf | arm h hf => exact hset h.live (hf.chain.trans h.chain.symm)
  | cached h => exact hset h.live rfl
  | park h hf => exact hset h.live (hf.chain.2.trans h.chain.symm)
  | raceClose h hstack => exact hset h.live (h.chain.trans hstack).symm
  | armError h hf htop hrecord =>
    exact (hset h.live (hf.chain.trans h.chain.symm)).update hrecord rfl
  | arrive h hstack hrecord =>
    exact Covered.update (hset h.live (h.chain.trans hstack).symm) hrecord rfl
  | wake _ hlive hwait => exact hset hlive (chain_of_wake hwait).symm
  | complete _ hlive hwait | fail _ hlive hwait => exact hset hlive hwait.chain.symm
  | @close i f instruction below r table h hclose hstack htable =>
    refine hend h.live (fun y hy hne => ?_) htable
    rw [h.chain, hstack] at hy
    simpa [effectiveControlStack, h.running, hne] using hy
  | win _ hlive hwait _ htable | expire _ hlive hwait htable =>
    refine hend hlive (fun y hy hne => ?_) htable
    simpa [effectiveControlStack, hwait, hne] using hy
  | @finish i f h =>
    intro y r hr harmed
    obtain ⟨m, g, hg, hy⟩ := hcov y r hr harmed
    have hm : m ≠ i := by
      rintro rfl
      obtain rfl := Option.mem_unique h.live hg
      rw [h.chain] at hy
      exact (hact.resolve_left id).2.finish m f h y hy r hr harmed
    exact ⟨m, g, by simpa [update_of_ne hm] using hg, hy⟩
  | @«open» i f instruction record h hopen hnew =>
    intro y r hr harmed
    by_cases hyr : y = record.id
    · subst hyr
      refine ⟨i, { f with controlStack := f.controlStack ++ [record.id], pc := f.pc + 1 },
        by simp [Config.set], ?_⟩
      simp [effectiveControlStack, h.running]
    · obtain ⟨m, g, hg, hy⟩ := hcov y r (by simpa [update_of_ne hyr] using hr) harmed
      refine covered_of_set h.live hg hy fun hin => ?_
      rw [h.chain] at hin
      simp [effectiveControlStack, h.running, hin]
  | @fork i f targets pairing r ids record table h hids hnodup hnew hrecord hmembers htable =>
    have hlive : i ∈ c.old := hc.live i f h.live
    have hparts : c.Parts P := (hact.resolve_left id).2
    obtain ⟨id, ids, rfl⟩ : ∃ id rest, ids = id :: rest := by
      refine List.exists_cons_of_ne_nil fun hnil => hparts.fork i f targets pairing h ?_
      rw [hnil, List.length_nil] at hids
      exact List.eq_nil_of_length_eq_zero hids.symm
    obtain ⟨target, targets, rfl⟩ : ∃ target rest, targets = target :: rest :=
      List.exists_cons_of_ne_nil (hparts.fork i f targets pairing h)
    have hid : id ≠ i := fun he => hnew id (by simp) (he ▸ hlive)
    intro y r' hr' harmed
    obtain ⟨r₀, hr₀, hstate, -⟩ := htable.armed_of_armed hr' harmed
    have hchild := mem_forked c.fibers f.controlStack r ids target targets hid y
    by_cases hyr : y = r
    · exact hchild (by simp [hyr])
    · rw [update_of_ne hyr] at hr₀
      obtain ⟨m, g, hg, hy⟩ := hcov y r₀ hr₀ hstate
      by_cases hm : m = i
      · subst hm
        obtain rfl := Option.mem_unique h.live hg
        rw [h.chain] at hy
        exact hchild (List.mem_append_left _ hy)
      · refine ⟨m, g, ?_, hy⟩
        have hnone : ((id :: ids).zip (target :: targets)).find? (·.1 = m) = none := by
          refine List.find?_eq_none.mpr fun p hp hpm => ?_
          have hpm : p.1 = m := by simpa using hpm
          exact hnew p.1 (List.mem_cons_of_mem _ (List.of_mem_zip hp).1) (hpm ▸ hc.live m g hg)
        simp only [if_neg hm, hnone, hg]
  | @release i f pairing below r record table h hstack hrecord hcount htable =>
    have hshelters := (hact.resolve_left id).1 f pairing below r record h hstack hrecord hcount
    refine hcov.rewrites htable fun m g hg y hy hne => ?_
    by_cases hm : m ∈ record.members ∨ m = i
    · have hin : y ∈ f.controlStack := by
        rcases hm with hm | rfl
        · exact hshelters m hm g hg hy
        · obtain rfl := Option.mem_unique h.live hg
          rwa [h.chain] at hy
      refine ⟨i, { f with controlStack := below, pc := f.pc + 1 }, by simp, ?_⟩
      simpa [hstack, effectiveControlStack, h.running, hne] using hin
    · push Not at hm
      exact ⟨m, g, by simpa [update_of_ne hm.2, hm.1] using hg, hy⟩
  | @cancel i f below r record dead table h hstack hrecord hrollback hdead htable =>
    have hchain : effectiveControlStack f = below ++ r :: [] := by rw [h.chain, hstack]
    refine hcov.rewrites htable fun m g hg y hy hne => ?_
    have hkeep : y ∈ below → ∃ m' f', update
        (fun m => if c.Holds m r then none else c.fibers m) i
        (some { f with controlStack := below, pc := f.pc + 1 }) m' = some f' ∧
        y ∈ effectiveControlStack f' := fun hin =>
      ⟨i, { f with controlStack := below, pc := f.pc + 1 }, by simp,
        by simpa [effectiveControlStack, h.running] using hin⟩
    by_cases hm : m = i
    · subst hm
      obtain rfl := Option.mem_unique h.live hg
      have hyr : y ≠ r := fun he => hne (he ▸ hdead.self)
      exact hkeep (by simpa [hchain, hyr] using hy)
    by_cases hr : r ∈ effectiveControlStack g
    · exact hkeep (hdead.mem_below hc h.live hchain hg hr (by simpa using hm) hy hne)
    · exact ⟨m, g, by simpa [update_of_ne hm, not_holds hg hr] using hg, hy⟩
  | @triggerN r record target h₀ stack table hfocus hrecord harmed hkind htarget hnew hstack htable =>
    refine hcov.rewrites htable fun m g hg y hy _ => ⟨m, g, ?_, hy⟩
    have hm : m ≠ h₀ := fun he => hnew (he ▸ hc.live m g hg)
    simpa [Config.set, update_of_ne hm] using hg
  | @trigger r record target h₀ stack dead table hfocus hrecord harmed hkind htarget hnew hstack hdead
      htable =>
    have hshelters := (hact.resolve_left id).1
    refine hcov.rewrites htable fun m g hg y hy hne => ?_
    have hm : m ≠ h₀ := fun he => hnew (he ▸ hc.live m g hg)
    by_cases hr : r ∈ effectiveControlStack g
    · rcases hstack with ⟨k, g₀, p, q, hg₀, hsplit, rfl⟩ | ⟨hnone, -⟩
      · obtain ⟨rest, hrest⟩ := controlStack_initial g₀
        have hchain : effectiveControlStack g₀ = p ++ r :: (q ++ rest) := by
          rw [← hrest, hsplit]
          simp
        have hin := hdead.mem_below hc hg₀ hchain hg hr (by simp) hy hne
        exact ⟨h₀, { Fiber.new h₀ target with controlStack := p ++ [] }, by simp,
          by simpa [effectiveControlStack, Fiber.new] using hin⟩
      · exact absurd (hshelters m g hg hr) (hnone m g hg)
    · refine ⟨m, g, ?_, hy⟩
      simpa [update_of_ne hm, not_holds hg hr] using hg
  | @rollback r i record dead table hfocus hrecord harmed hkind hrollback hcaller hothers hdead
      htable =>
    obtain ⟨f, hf, hrf⟩ := hcaller
    obtain ⟨below, above, hchain⟩ := List.append_of_mem hrf
    obtain ⟨k, hlive, hout⟩ := hothers
    have hshelters := (hact.resolve_left id).1 f below above hf hchain k hlive hout
    have hsurvives : ∀ {m : Uuid} {g : Fiber}, c.fibers m = some g → r ∉ effectiveControlStack g →
        (if c.Holds m r then none else c.fibers m) = some g := by
      intro m g hg hr
      rw [if_neg (not_holds hg hr), hg]
    refine hcov.rewrites htable fun m g hg y hy hne => ?_
    by_cases hr : r ∈ effectiveControlStack g
    · obtain ⟨m', g', hg', hy', hr'⟩ :=
        hshelters y (hdead.mem_below hc hf hchain hg hr (by simp) hy hne)
      exact ⟨m', g', hsurvives hg' hr', hy'⟩
    · exact ⟨m, g, hsurvives hg hr, hy⟩
  | @repark r i f record below above openedAt incidentId dead table hfocus hrecord harmed hkind
      hrollback hopened hlive hstack hothers hdead htable =>
    refine hcov.rewrites htable fun m g hg y hy hne => ?_
    obtain ⟨g', hg', hr⟩ := hothers m ⟨g, hg⟩
    obtain rfl := Option.mem_unique hg hg'
    have hin := hdead.mem_below hc hlive hstack hg hr (by simp) hy hne
    exact ⟨i, { f with controlStack := below, pc := openedAt, wait := .incident incidentId },
      by simp, by simpa [effectiveControlStack] using hin⟩

theorem Path.enrolled (h : Path C P own c c') (hc : c.Formed) (he : Enrolled c.fibers c.table) :
    Enrolled c'.fibers c'.table := by
  refine (Path.preserves (I := fun c => c.Formed ∧ Enrolled c.fibers c.table) ?_ h ⟨hc, he⟩).2
  rintro c₁ c₂ act ⟨hformed, henrolled⟩ - hstep
  exact ⟨hstep.formed hformed, hstep.enrolled hformed henrolled⟩

theorem Path.covered (h : Path (fun c act => c.Shelters P act ∧ c.Parts P) P own c c')
    (hc : c.Formed) (hcov : Covered c.fibers c.table) : Covered c'.fibers c'.table := by
  refine (Path.preserves (I := fun c => c.Formed ∧ Covered c.fibers c.table) ?_ h ⟨hc, hcov⟩).2
  rintro c₁ c₂ act ⟨hformed, hcovered⟩ hact hstep
  exact ⟨hstep.formed hformed, hstep.covered hformed hact hcovered⟩

theorem Config.Exec.unique {j : Uuid} {instruction' : Instr} (h : c.Exec P i f instruction)
    (h' : c.Exec P j g instruction') : i = j ∧ f = g ∧ instruction = instruction' := by
  obtain rfl := Option.mem_unique h.focus h'.focus
  obtain rfl := Option.mem_unique h.live h'.live
  exact ⟨rfl, rfl, Option.mem_unique h.fetch h'.fetch⟩

theorem Step.of_age (h : Step P own c .age c') : c'.fibers = c.fibers ∧ c'.table = c.table := by
  cases h with
  | age => exact ⟨rfl, rfl⟩

/-- `End` and `V2Fork` are no other step: the fibre is gone, or the barrier is armed and counts the
targets. -/
theorem Step.of_parting (h : Step P own c (.exec i) c') (hexec : c.Exec P i f instruction) :
    (instruction = .end → c'.table = c.table ∧ c'.fibers i = none) ∧
    ∀ targets pairing, instruction = .v2Fork targets pairing → ∃ y r, c'.table y = some r ∧
      r.state = .armed ∧ r.kind = .barrier ∧ r.counters.count = targets.length := by
  cases h with
  | finish h =>
    obtain ⟨-, -, rfl⟩ := h.unique hexec
    exact ⟨fun _ => ⟨rfl, by simp⟩, by simp⟩
  | @fork i f targets pairing r ids record table h hids hnodup hnew hrecord hmembers htable =>
    obtain ⟨-, -, rfl⟩ := h.unique hexec
    refine ⟨by simp, fun targets' pairing' he => ?_⟩
    obtain ⟨rfl, -⟩ : targets = targets' ∧ _ := by simpa using he
    obtain ⟨r', hr', hscope, -, hstate, -⟩ := htable.present r record (by simp)
    refine ⟨r, r', hr', ?_⟩
    rw [hscope, hstate not_false, hrecord]
    exact ⟨rfl, rfl, rfl⟩
  | plain h hplain =>
    obtain ⟨-, -, rfl⟩ := h.unique hexec
    constructor <;> intros <;> subst_vars <;> simp [Instr.isPlain] at hplain
  | close h hclose =>
    obtain ⟨-, -, rfl⟩ := h.unique hexec
    constructor <;> intros <;> subst_vars <;> simp [Instr.closesGuard] at hclose
  | «open» h hopen =>
    obtain ⟨-, -, rfl⟩ := h.unique hexec
    constructor <;> intros <;> subst_vars <;> exact hopen.elim
  | arm h _ harm =>
    obtain ⟨-, -, rfl⟩ := h.unique hexec
    constructor <;> intros <;> subst_vars <;> cases harm
  | park h hf =>
    obtain ⟨-, -, rfl⟩ := h.unique hexec
    cases hf with
    | timer h => rcases h with rfl | rfl <;> simp
    | incident _ h => constructor <;> intros <;> subst_vars <;> simp [Instr.isPlain] at h
    | _ => simp
  | armError h | release h | arrive h | cancel h | raceClose h =>
    obtain ⟨-, -, rfl⟩ := h.unique hexec
    simp

end BpmnLite
