import BpmnLite.Machine

/-!
# What a step does to one fibre

Every live fibre after a step was live before it and is unchanged, or came about in one of the ways
`Becomes` lists. The proofs about single fibres use this list and not the steps themselves.
-/

namespace BpmnLite

/-- Arming words, which leave the scopes alone and go on. -/
def Instr.isArm : Instr → Bool
  | .v2ArmTimer _ | .v2ArmMsg .. | .v2ArmEffect .. | .v2GuardArmError .. => true
  | _ => false

/-- Words that take the innermost scope off the control stack and go on. -/
def Instr.pops : Instr → Bool
  | .v2GuardEnd | .v2GuardNEnd | .v2GuardREnd | .v2Join _ | .v2CancelScope => true
  | _ => false

theorem Instr.pops_of_closesGuard {instruction : Instr} (h : instruction.closesGuard) :
    instruction.pops := by
  cases instruction <;> simp_all [closesGuard, pops]

/-- How a fibre comes about by an act from the configuration `c`; `old'` are the ids handed out
after it. -/
inductive Becomes (P : List Instr) (own : Uuid → Addr → EffectId) (c : Config) (old' : Set Uuid) :
    Act → Uuid → Fiber → Prop
  | moved {i : Uuid} {f f' : Fiber} {instruction : Instr} (h : c.Exec P i f instruction)
      (hword : instruction.isPlain ∨ instruction.isArm) (hnative : ¬ instruction.isNative)
      (hf : f.Moves instruction f') : Becomes P own c old' (.exec i) i f'
  | cached {i : Uuid} {f : Fiber} {taskType argc retc : ℕ} {results : List Value}
      (h : c.Exec P i f (.execNative taskType argc retc)) (hresults : results.length = retc) :
      Becomes P own c old' (.cached i) i { f with stack := f.stack ++ results, pc := f.pc + 1 }
  | opened {i : Uuid} {f : Fiber} {instruction : Instr} {record : ConcurrencyRecord}
      (h : c.Exec P i f instruction) (hopen : instruction.Opens f.pc i record)
      (hnew : record.id ∉ c.old) (hold : record.id ∈ old') :
      Becomes P own c old' (.exec i) i
        { f with controlStack := f.controlStack ++ [record.id], pc := f.pc + 1 }
  | popped {i : Uuid} {f : Fiber} {instruction : Instr} {below : List RecordId} {r : RecordId}
      (h : c.Exec P i f instruction) (hpops : instruction.pops)
      (hstack : f.controlStack = below ++ [r]) :
      Becomes P own c old' (.exec i) i { f with controlStack := below, pc := f.pc + 1 }
  | arrived {i : Uuid} {f : Fiber} {pairing : Addr} {below : List RecordId} {r : RecordId}
      (h : c.Exec P i f (.v2Join pairing)) (hstack : f.controlStack = below ++ [r]) :
      Becomes P own c old' (.exec i) i { f with controlStack := below, wait := .v2Barrier r }
  | raceClosed {i : Uuid} {f : Fiber} {below : List RecordId} {r : RecordId}
      (h : c.Exec P i f .v2RaceClose) (hstack : f.controlStack = below ++ [r]) :
      Becomes P own c old' (.exec i) i { f with controlStack := below, wait := .v2Race r c.arms }
  | parked {i : Uuid} {f f' : Fiber} {instruction : Instr} (h : c.Exec P i f instruction)
      (hf : f.Parks own instruction f') : Becomes P own c old' (.exec i) i f'
  | forked {i : Uuid} {f : Fiber} {targets : List Addr} {pairing : Addr} {r : RecordId}
      {ids : List Uuid} {id : Uuid} {target : Addr} (h : c.Exec P i f (.v2Fork targets pairing))
      (hchild : (id, target) ∈ ids.zip targets) (hnew : ∀ a ∈ r :: ids, a ∉ c.old)
      (hold : ∀ a ∈ r :: ids, a ∈ old') :
      Becomes P own c old' (.exec i) id
        { Fiber.new id target with controlStack := f.controlStack ++ [r] }
  | woken {i : Uuid} {f : Fiber} (hfocus : c.focus = none) (hlive : c.fibers i = some f)
      (hwait : effectiveControlStack f = f.controlStack) :
      Becomes P own c old' (.wake i) i { f with wait := .running }
  | completed {i : Uuid} {f : Fiber} (hfocus : c.focus = none) (hlive : c.fibers i = some f)
      (hwait : f.Awaits) : Becomes P own c old' (.complete i) i
        { f with pc := f.pc + 1, wait := .running }
  | failed {i : Uuid} {f : Fiber} {incidentId : Uuid} (hfocus : c.focus = none)
      (hlive : c.fibers i = some f) (hwait : f.Awaits) :
      Becomes P own c old' (.fail i) i { f with wait := .incident incidentId }
  | won {i : Uuid} {f : Fiber} {r : RecordId} {arms : List V2RaceArm} {target : Addr}
      (hfocus : c.focus = none) (hlive : c.fibers i = some f) (hwait : f.wait = .v2Race r arms)
      (htarget : ∃ arm ∈ arms, arm.target = target) :
      Becomes P own c old' (.win i target) i { f with pc := target, wait := .running }
  | expired {i : Uuid} {f : Fiber} {r : RecordId} {arms : List V2RaceArm} {target : Addr}
      (hfocus : c.focus = none) (hlive : c.fibers i = some f) (hwait : f.wait = .v2Race r arms) :
      Becomes P own c old' (.expire i target) i { f with pc := target, wait := .running }
  | handler {r : RecordId} {record : ConcurrencyRecord} {target : Addr} {h : Uuid}
      {stack : List RecordId} {interrupting : Bool} (hfocus : c.focus = none)
      (hrecord : c.table r = some record) (harmed : record.state = .armed)
      (hkind : record.kind = .guard interrupting)
      (htarget : record.handler = some target ∨ ∃ code, (code, target) ∈ record.errorRoutes)
      (hnew : h ∉ c.old) (hold : h ∈ old') (hstack : c.HandlerStack r interrupting stack) :
      Becomes P own c old' (.trigger r target) h { Fiber.new h target with controlStack := stack }
  | reparked {r : RecordId} {i : Uuid} {f : Fiber} {record : ConcurrencyRecord}
      {below above : List RecordId} {openedAt : Addr} {incidentId : Uuid} (hfocus : c.focus = none)
      (hrecord : c.table r = some record) (harmed : record.state = .armed)
      (hrollback : record.rollbackDomainPayload.isSome)
      (hopened : record.openedAt = some openedAt) (hlive : c.fibers i = some f)
      (hstack : effectiveControlStack f = below ++ r :: above) :
      Becomes P own c old' (.rollback r i) i
        { f with controlStack := below, pc := openedAt, wait := .incident incidentId }

variable {P : List Instr} {own : Uuid → Addr → EffectId} {c c' : Config} {act : Act}

theorem Fiber.Arms.isArm {f : Fiber} {instruction : Instr} {arm : V2RaceArm}
    {timers : List (Uuid × RecordId × Addr)} (h : f.Arms own instruction arm timers) :
    instruction.isArm ∧ ¬ instruction.isNative := by
  cases h <;> simp [Instr.isArm, Instr.isNative]

theorem set_eq_some {i m : Uuid} {f f' : Fiber} (h : c.set i f m = some f') :
    (m = i ∧ f' = f) ∨ (m ≠ i ∧ c.fibers m = some f') := by
  unfold Config.set at h
  by_cases hm : m = i
  · subst hm
    exact Or.inl ⟨rfl, by simpa using h.symm⟩
  · exact Or.inr ⟨hm, by simpa [Function.update_of_ne hm] using h⟩

theorem cut_eq_some {_ : DecidableEq Uuid} {fibers : Uuid → Option Fiber} {i m : Uuid} {f f' : Fiber}
    {p : Uuid → Prop} {_ : DecidablePred p}
    (h : Function.update (fun m => if p m then none else fibers m) i (some f) m = some f') :
    (m = i ∧ f' = f) ∨ (m ≠ i ∧ ¬ p m ∧ fibers m = some f') := by
  by_cases hm : m = i
  · subst hm
    exact Or.inl ⟨rfl, by simpa using h.symm⟩
  · rw [Function.update_of_ne hm] at h
    split at h
    · simp at h
    · exact Or.inr ⟨hm, by assumption, h⟩

theorem Step.becomes (h : Step P own c act c') {m : Uuid} {f' : Fiber}
    (hm : c'.fibers m = some f') :
    (c.fibers m = some f' ∧ c.focus ≠ some m) ∨ Becomes P own c c'.old act m f' := by
  classical
  have hother : ∀ {i : Uuid}, c.focus = some i → m ≠ i → c.focus ≠ some m := fun hi hne he =>
    hne (Option.mem_unique he hi)
  have hidle : c.focus = none → c.focus ≠ some m := fun h he => by simp [h] at he
  -- The updated fibre becomes what the act makes of it, and any other is left alone or deleted.
  have hset : ∀ {i : Uuid} {f : Fiber}, c.focus = some i ∨ c.focus = none →
      Becomes P own c c'.old act i f → c.set i f m = some f' →
      (c.fibers m = some f' ∧ c.focus ≠ some m) ∨ Becomes P own c c'.old act m f' := by
    intro i f hfocus hbecomes hm
    rcases set_eq_some hm with ⟨rfl, rfl⟩ | ⟨hne, hm⟩
    · exact Or.inr hbecomes
    · exact Or.inl ⟨hm, hfocus.elim (fun h => hother h hne) hidle⟩
  have hcut : ∀ {i : Uuid} {f : Fiber} {p : Uuid → Prop} [DecidablePred p],
      c.focus = some i ∨ c.focus = none → Becomes P own c c'.old act i f →
      Function.update (fun m => if p m then none else c.fibers m) i (some f) m = some f' →
      (c.fibers m = some f' ∧ c.focus ≠ some m) ∨ Becomes P own c c'.old act m f' := by
    intro i f p _ hfocus hbecomes hm
    rcases cut_eq_some hm with ⟨rfl, rfl⟩ | ⟨hmi, -, hm⟩
    · exact Or.inr hbecomes
    · exact Or.inl ⟨hm, hfocus.elim (fun h => hother h hmi) hidle⟩
  cases h with
  | select hfocus => exact Or.inl ⟨hm, hidle hfocus⟩
  | age _ hfocus => exact Or.inl ⟨hm, hidle hfocus⟩
  | plain h hplain hnative hf =>
    exact hset (Or.inl h.focus) (.moved h (Or.inl hplain) hnative hf) hm
  | cached h hresults => exact hset (Or.inl h.focus) (.cached h hresults) hm
  | arm h hf harm =>
    exact hset (Or.inl h.focus) (.moved h (Or.inr harm.isArm.1) harm.isArm.2 hf) hm
  | armError h hf htop hrecord =>
    exact hset (Or.inl h.focus) (.moved h (Or.inr rfl) (by simp [Instr.isNative]) hf) hm
  | «open» h hopen hnew =>
    exact hset (Or.inl h.focus) (.opened h hopen hnew (Set.mem_insert _ _)) hm
  | close h hclose hstack htable =>
    exact hset (Or.inl h.focus) (.popped h (Instr.pops_of_closesGuard hclose) hstack) hm
  | release h hstack hrecord hcount htable =>
    exact hcut (Or.inl h.focus) (.popped h rfl hstack) hm
  | arrive h hstack hrecord hcount => exact hset (Or.inl h.focus) (.arrived h hstack) hm
  | cancel h hstack hrecord hrollback hdead htable =>
    exact hcut (p := fun m => c.Holds m _) (Or.inl h.focus) (.popped h rfl hstack) hm
  | park h hf => exact hset (Or.inl h.focus) (.parked h hf) hm
  | raceClose h hstack => exact hset (Or.inl h.focus) (.raceClosed h hstack) hm
  | @finish i f h =>
    by_cases hmi : m = i
    · subst hmi
      simp at hm
    · exact Or.inl ⟨by simpa [Function.update_of_ne hmi] using hm, hother h.focus hmi⟩
  | @fork i f targets pairing r ids record table h hids hnodup hnew hrecord hmembers htable =>
    simp only at hm
    split at hm
    · simp at hm
    · rename_i hne
      split at hm
      · rename_i child hchild
        obtain rfl : child.1 = m := by simpa using List.find?_some hchild
        simp only [Option.some.injEq] at hm
        subst hm
        exact Or.inr (.forked h (List.mem_of_find?_eq_some hchild) hnew (fun a ha => Or.inr ha))
      · exact Or.inl ⟨hm, hother h.focus hne⟩
  | wake hfocus hlive hwait =>
    refine hset (Or.inr hfocus) (.woken hfocus hlive ?_) hm
    rcases hwait with ⟨_, hw⟩ | ⟨_, _, _, hw⟩ | ⟨_, hw⟩ <;> simp [effectiveControlStack, hw]
  | complete hfocus hlive hwait =>
    exact hset (Or.inr hfocus) (.completed hfocus hlive hwait) hm
  | fail hfocus hlive hwait => exact hset (Or.inr hfocus) (.failed hfocus hlive hwait) hm
  | win hfocus hlive hwait htarget htable =>
    exact hset (Or.inr hfocus) (.won hfocus hlive hwait htarget) hm
  | expire hfocus hlive hwait htable =>
    exact hset (Or.inr hfocus) (.expired hfocus hlive hwait) hm
  | triggerN hfocus hrecord harmed hkind htarget hnew hstack htable =>
    exact hset (Or.inr hfocus)
      (.handler hfocus hrecord harmed hkind htarget hnew (Set.mem_insert _ _) hstack) hm
  | trigger hfocus hrecord harmed hkind htarget hnew hstack hdead htable =>
    exact hcut (p := fun m => c.Holds m _) (Or.inr hfocus)
      (.handler hfocus hrecord harmed hkind htarget hnew (Set.mem_insert _ _) hstack) hm
  | rollback hfocus =>
    simp only at hm
    split at hm
    · simp at hm
    · exact Or.inl ⟨hm, hidle hfocus⟩
  | repark hfocus hrecord harmed hkind hrollback hopened hlive hstack hothers hdead htable =>
    rename_i r i f record below above openedAt incidentId dead table
    by_cases hmi : m = i
    · subst hmi
      obtain rfl : _ = f' := by simpa using hm
      exact Or.inr (.reparked hfocus hrecord harmed hrollback hopened hlive hstack)
    · simp [Function.update_of_ne hmi] at hm
  | clear => simp at hm

theorem Rewrites.recordFrom {live : Uuid → Prop} {dead : RecordId → Prop}
    {gone added : RecordId → Uuid → Prop} {T T' : RecordId → Option ConcurrencyRecord}
    (h : Rewrites live dead gone added T T') {y : RecordId} {r' : ConcurrencyRecord}
    (hr' : T' y = some r') :
    ∃ r, T y = some r ∧ r.SameScope r' ∧ (r'.state = .armed → r.state = .armed) := by
  cases hT : T y with
  | none => simp [h.absent y hT] at hr'
  | some r =>
    obtain ⟨r'', hr'', hscope, hdead, hkeep, -, -⟩ := h.present y r hT
    obtain rfl : r'' = r' := by simpa [hr''] using hr'
    refine ⟨r, rfl, hscope, fun harmed => ?_⟩
    by_cases hy : dead y
    · simp [hdead hy] at harmed
    · rwa [← hkeep hy]

end BpmnLite
