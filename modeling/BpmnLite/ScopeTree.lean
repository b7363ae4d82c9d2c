import BpmnLite.Steps
import BpmnLite.Forest

/-!
# The scopes of a configuration form a tree

Ids are handed out once, and a fibre enters a scope only by opening it, by being forked inside it or
by handling a guard in it. So no scope occurs twice on a chain, and what lies below a scope is the
same on every chain that has it.
-/

namespace BpmnLite

open Forest

variable {f f' : Fiber} {instruction : Instr} {own : Uuid → Addr → EffectId} {P : List Instr}
  {old' old : Set Uuid} {T T' : RecordId → Option ConcurrencyRecord} {record : ConcurrencyRecord}

theorem controlStack_initial (f : Fiber) : f.controlStack <+: effectiveControlStack f := by
  unfold effectiveControlStack
  split
  · exact List.prefix_append _ _
  · exact List.prefix_append _ _
  · exact List.prefix_rfl

@[simp] theorem effectiveControlStack_of_running (h : f.wait = .running) :
    effectiveControlStack f = f.controlStack := by
  simp [effectiveControlStack, h]

theorem Fiber.Moves.chain (h : f.Moves instruction f') :
    effectiveControlStack f' = f.controlStack := by
  rw [effectiveControlStack_of_running h.wait, h.controlStack]

theorem Fiber.Parks.chain (h : f.Parks own instruction f') :
    f'.fiberId = f.fiberId ∧ effectiveControlStack f' = f.controlStack := by
  cases h <;> exact ⟨rfl, rfl⟩

theorem Fiber.Awaits.chain (h : f.Awaits) : effectiveControlStack f = f.controlStack := by
  rcases h with ⟨jobKey, h⟩ | ⟨effectId, h⟩ <;> simp [effectiveControlStack, h]

theorem handlerChain_initial (p q : List RecordId) (r : RecordId) (interrupting : Bool) :
    p ++ (if interrupting then [] else [r]) <+: p ++ r :: q := by
  cases interrupting
  · exact ⟨q, by simp⟩
  · exact ⟨r :: q, by simp⟩

namespace Config

structure Formed (c : Config) : Prop where
  keyed : ∀ m f, c.fibers m = some f → f.fiberId = m
  tree : IsTree (chains c.fibers)
  live : ∀ m f, c.fibers m = some f → m ∈ c.old
  held : ∀ m f, c.fibers m = some f → ∀ y ∈ effectiveControlStack f, y ∈ c.old
  records : ∀ y r, c.table y = some r → y ∈ c.old
  ids : ∀ y r, c.table y = some r → r.id = y
  members : ∀ y r, c.table y = some r → ∀ m ∈ r.members, m ∈ c.old

variable {c c' : Config} {act : Act}

theorem Formed.becomes (hc : c.Formed) (hold : c.old ⊆ old') {m : Uuid}
    (h : Becomes P own c old' act m f') :
    f'.fiberId = m ∧ m ∈ old' ∧ (effectiveControlStack f' = [] ∨
      (∃ k f, c.fibers k = some f ∧ effectiveControlStack f' <+: effectiveControlStack f) ∨
      ∃ i f x, c.focus = some i ∧ c.fibers i = some f ∧
        effectiveControlStack f' = f.controlStack ++ [x] ∧ x ∉ c.old ∧ x ∈ old') := by
  have hlive : ∀ {i f}, c.fibers i = some f → f.fiberId = i ∧ i ∈ old' := fun hf =>
    ⟨hc.keyed _ _ hf, hold (hc.live _ _ hf)⟩
  -- A fibre that only leaves scopes keeps an initial part of its chain.
  have hkeep : ∀ {i : Uuid} {f : Fiber} {chain : List RecordId}, c.fibers i = some f →
      chain <+: f.controlStack →
      ∃ k f, c.fibers k = some f ∧ chain <+: effectiveControlStack f := fun hf hinitial =>
    ⟨_, _, hf, hinitial.trans (controlStack_initial _)⟩
  cases h with
  | moved h hword hnative hf =>
    exact ⟨hf.fiberId.trans (hlive h.live).1, (hlive h.live).2,
      Or.inr (Or.inl (hkeep h.live (by rw [hf.chain])))⟩
  | cached h hresults =>
    refine ⟨(hlive h.live).1, (hlive h.live).2, Or.inr (Or.inl (hkeep h.live ?_))⟩
    simp [effectiveControlStack, h.running]
  | opened h hopen hnew hin =>
    refine ⟨(hlive h.live).1, (hlive h.live).2,
      Or.inr (Or.inr ⟨_, _, _, h.focus, h.live, ?_, hnew, hin⟩)⟩
    simp [effectiveControlStack, h.running]
  | popped h hpops hstack =>
    refine ⟨(hlive h.live).1, (hlive h.live).2, Or.inr (Or.inl (hkeep h.live ?_))⟩
    simp [effectiveControlStack, h.running, hstack]
  | arrived h hstack | raceClosed h hstack =>
    refine ⟨(hlive h.live).1, (hlive h.live).2, Or.inr (Or.inl (hkeep h.live ?_))⟩
    rw [hstack]
    exact List.prefix_rfl
  | parked h hf =>
    exact ⟨hf.chain.1.trans (hlive h.live).1, (hlive h.live).2,
      Or.inr (Or.inl (hkeep h.live (by rw [hf.chain.2])))⟩
  | forked h hchild hnew hin =>
    refine ⟨rfl, hin _ (List.mem_cons_of_mem _ (List.of_mem_zip hchild).1),
      Or.inr (Or.inr ⟨_, _, _, h.focus, h.live, ?_, hnew _ List.mem_cons_self,
        hin _ List.mem_cons_self⟩)⟩
    rfl
  | woken hfocus hf hwait =>
    exact ⟨(hlive hf).1, (hlive hf).2, Or.inr (Or.inl (hkeep hf List.prefix_rfl))⟩
  | completed hfocus hf hwait | failed hfocus hf hwait =>
    exact ⟨(hlive hf).1, (hlive hf).2, Or.inr (Or.inl (hkeep hf List.prefix_rfl))⟩
  | won hfocus hf hwait | expired hfocus hf hwait =>
    exact ⟨(hlive hf).1, (hlive hf).2, Or.inr (Or.inl (hkeep hf List.prefix_rfl))⟩
  | handler hfocus hrecord harmed hkind htarget hnew hin hstack =>
    refine ⟨rfl, hin, ?_⟩
    rcases hstack with ⟨k, g, p, q, hg, hsplit, rfl⟩ | ⟨-, rfl⟩
    · refine Or.inr (Or.inl (hkeep hg ?_))
      rw [hsplit]
      exact handlerChain_initial _ _ _ _
    · exact Or.inl rfl
  | reparked hfocus hrecord harmed hrollback hopened hf hstack =>
    refine ⟨(hlive hf).1, (hlive hf).2, Or.inr (Or.inl ⟨_, _, hf, ?_⟩)⟩
    rw [hstack]
    exact List.prefix_append _ _

end Config

def TableFormed (old : Set Uuid) (T : RecordId → Option ConcurrencyRecord) : Prop :=
  ∀ y r, T y = some r → y ∈ old ∧ r.id = y ∧ ∀ m ∈ r.members, m ∈ old

theorem Rewrites.tableFormed {live : Uuid → Prop} {dead : RecordId → Prop}
    {gone added : RecordId → Uuid → Prop} (h : Rewrites live dead gone added T T')
    (hT : TableFormed old T) (hadded : ∀ y m, added y m → m ∈ old) : TableFormed old T' := by
  intro y r' hr'
  cases hT' : T y with
  | none => simp [h.absent y hT'] at hr'
  | some r =>
    obtain ⟨r'', hr'', hscope, -, -, hsub, -⟩ := h.present y r hT'
    obtain rfl : r'' = r' := by simpa [hr''] using hr'
    obtain ⟨hold, hid, hmembers⟩ := hT y r hT'
    refine ⟨hold, ?_, fun m hm => (hsub m hm).elim (hmembers m) (hadded y m)⟩
    rw [hscope]
    exact hid

theorem TableFormed.update (hT : TableFormed old T) {r : RecordId} (hr : r ∈ old)
    (hid : record.id = r) (hmembers : ∀ m ∈ record.members, m ∈ old) :
    TableFormed old (Function.update T r (some record)) := by
  intro y r' hy
  by_cases hyr : y = r
  · subst hyr
    obtain rfl : record = r' := by simpa using hy
    exact ⟨hr, hid, hmembers⟩
  · exact hT y r' (by simpa [Function.update_of_ne hyr] using hy)

variable {c c' : Config} {act : Act}

theorem Step.old_subset (h : Step P own c act c') : c.old ⊆ c'.old := by
  cases h with
  | «open» | triggerN | trigger => exact Set.subset_insert _ _
  | fork => exact Set.subset_union_left
  | age h => exact h
  | _ => exact subset_rfl

theorem Instr.Opens.members {pc : Addr} {i : Uuid} (h : instruction.Opens pc i record) (m : Uuid) :
    m ∈ record.members ↔ m = i := by
  have hinsert : m ∈ (∅ : BTreeSet Uuid).insert i ↔ m = i := by
    simp only [Std.ExtTreeSet.mem_insert, Std.LawfulEqCmp.compare_eq_iff_eq,
      Std.ExtTreeSet.not_mem_empty, or_false]
    exact eq_comm
  cases instruction with
  | v2Guard | v2GuardN | v2RaceOpen =>
    simp only [Instr.Opens] at h
    rw [h]
    exact hinsert
  | v2GuardR =>
    obtain ⟨payload, hash, flags, joinExpected, session, h⟩ := h
    rw [h]
    exact hinsert
  | _ => exact h.elim

theorem Step.tableFormed (h : Step P own c act c') (hc : c.Formed) :
    TableFormed c'.old c'.table := by
  have hsame : TableFormed c'.old c.table := fun y r hr =>
    ⟨h.old_subset (hc.records y r hr), hc.ids y r hr,
      fun m hm => h.old_subset (hc.members y r hr m hm)⟩
  have hnone : ∀ y m, (fun (_ : RecordId) (_ : Uuid) => False) y m → m ∈ c'.old :=
    fun _ _ h => h.elim
  cases h with
  | select | plain | cached | arm | park | raceClose | finish | wake | complete | fail =>
    exact hsame
  | age h => exact hsame
  | armError h hf htop hrecord | arrive h hstack hrecord =>
    have hid := hc.ids _ _ hrecord
    have hmembers := hc.members _ _ hrecord
    exact hsame.update (hc.records _ _ hrecord) hid hmembers
  | «open» h hopen hnew =>
    refine hsame.update (Set.mem_insert _ _) rfl (fun m hm => ?_)
    rw [(hopen.members m).mp hm]
    exact Set.mem_insert_of_mem _ (hc.live _ _ h.live)
  | close _ _ _ htable | release _ _ _ _ htable | cancel _ _ _ _ _ htable =>
    exact htable.tableFormed hsame hnone
  | @fork i f targets pairing r ids record table h hids hnodup hnew hrecord hmembers htable =>
    have hin : ∀ a ∈ r :: ids, a ∈ c.old ∪ {a | a ∈ r :: ids} := fun a ha => Or.inr ha
    refine htable.tableFormed (hsame.update (hin r List.mem_cons_self) ?_ (fun m hm => ?_))
      (fun y m hm => hin m (List.mem_cons_of_mem _ hm.2))
    · rw [hrecord]
      rfl
    · exact hin m (List.mem_cons_of_mem _ ((hmembers m).mp hm))
  | win hfocus hlive hwait htarget htable => exact htable.tableFormed hsame hnone
  | expire hfocus hlive hwait htable => exact htable.tableFormed hsame hnone
  | triggerN hfocus hrecord harmed hkind htarget hnew hstack htable =>
    exact htable.tableFormed hsame (fun y m hm => hm.2 ▸ Set.mem_insert _ _)
  | trigger hfocus hrecord harmed hkind htarget hnew hstack hdead htable =>
    exact htable.tableFormed hsame (fun y m hm => hm.2 ▸ Set.mem_insert _ _)
  | rollback hfocus hrecord harmed hkind hrollback hcaller hothers hdead htable =>
    exact htable.tableFormed hsame hnone
  | repark hfocus hrecord harmed hkind hrollback hopened hlive hstack hothers hdead htable =>
    have hold := hc.live _ _ hlive
    exact htable.tableFormed hsame (fun y m hm => hm.2 ▸ hold)
  | clear htable => exact htable.tableFormed hsame hnone

/-- Every step keeps a configuration well formed: ids stay unique and the chains stay a tree. -/
theorem Step.formed (h : Step P own c act c') (hc : c.Formed) : c'.Formed := by
  have hold := h.old_subset
  have horigin : ∀ m f', c'.fibers m = some f' → f'.fiberId = m ∧ m ∈ c'.old ∧
      (effectiveControlStack f' = [] ∨
      (∃ k f, c.fibers k = some f ∧ effectiveControlStack f' <+: effectiveControlStack f) ∨
      ∃ i f x, c.focus = some i ∧ c.fibers i = some f ∧
        effectiveControlStack f' = f.controlStack ++ [x] ∧ x ∉ c.old ∧ x ∈ c'.old) := by
    intro m f' hm
    rcases h.becomes hm with ⟨hm, -⟩ | hbecomes
    · exact ⟨hc.keyed m f' hm, hold (hc.live m f' hm),
        Or.inr (Or.inl ⟨m, f', hm, List.prefix_rfl⟩)⟩
    · exact hc.becomes hold hbecomes
  refine ⟨fun m f' hm => (horigin m f' hm).1, ?_, fun m f' hm => (horigin m f' hm).2.1, ?_,
    fun y r hr => (h.tableFormed hc y r hr).1, fun y r hr => (h.tableFormed hc y r hr).2.1,
    fun y r hr => (h.tableFormed hc y r hr).2.2⟩
  · by_cases hfocus : ∃ i f, c.focus = some i ∧ c.fibers i = some f
    · obtain ⟨i, f, hi, hf⟩ := hfocus
      refine hc.tree.grow (t := f.controlStack) ⟨_, ⟨i, f, hf, rfl⟩, controlStack_initial f⟩ ?_
      rintro s ⟨m, f', hm, rfl⟩
      rcases (horigin m f' hm).2.2 with hnil | ⟨k, g, hg, hinitial⟩ | ⟨j, g, x, hj, hg, hchain, hx, -⟩
      · exact Or.inl hnil
      · exact Or.inr (Or.inl ⟨_, ⟨k, g, hg, rfl⟩, hinitial⟩)
      · obtain rfl : i = j := by simpa [hi] using hj
        obtain rfl : f = g := by simpa [hf] using hg
        refine Or.inr (Or.inr ⟨x, hchain, ?_⟩)
        rintro u ⟨k, g, hg, rfl⟩ hmem
        exact hx (hc.held k g hg x hmem)
    · refine hc.tree.shrink ?_
      rintro s ⟨m, f', hm, rfl⟩
      rcases (horigin m f' hm).2.2 with hnil | ⟨k, g, hg, hinitial⟩ | ⟨j, g, x, hj, hg, -⟩
      · exact Or.inl hnil
      · exact Or.inr ⟨_, ⟨k, g, hg, rfl⟩, hinitial⟩
      · exact absurd ⟨j, g, hj, hg⟩ hfocus
  · intro m f' hm y hy
    rcases (horigin m f' hm).2.2 with hnil | ⟨k, g, hg, hinitial⟩ | ⟨j, g, x, hj, hg, hchain, -, hx⟩
    · simp [hnil] at hy
    · exact hold (hc.held k g hg y (hinitial.subset hy))
    · rw [hchain] at hy
      rcases List.mem_append.mp hy with hy | hy
      · exact hold (hc.held j g hg y ((controlStack_initial g).subset hy))
      · exact (List.mem_singleton.mp hy) ▸ hx

theorem Path.formed {C : Config → Act → Prop} (h : Path C P own c c') (hc : c.Formed) :
    c'.Formed :=
  h.preserves (fun hc _ hstep => hstep.formed hc) hc

end BpmnLite
