import BpmnLite.Kernel.Emissions
import BpmnLite.Kernel.Jobs

/-!
# Answers to foreign effects

The engine turns each response to an invoked effect into a command and drops the response once a
transition marks the effect terminal. A response is answered like that only while the fibre that
invoked the effect can still take it: `effect_settled_iff` says when.
-/

namespace BpmnLite

open Maps

variable {r : RecordId} {m idempotencyKey : Uuid} {errorClass : ErrorClass} {message : String}
  {attempt revision : ℕ} {G : World → Stimulus → Prop} {inst : ProcessInstance}

def EffectResponse.command (effectId : EffectId) (fiberId : Uuid) (pc : Addr) :
    EffectResponse → Command
  | .ffiSuccess outputPayload newDomainPayload =>
    .effectCompleted effectId (.ffi fiberId pc outputPayload newDomainPayload false)
  | .ffiNoMatch => .effectCompleted effectId (.ffi fiberId pc [] none true)
  | .failed errorClass message attempt =>
    .effectFailed effectId (.text "") errorClass message none attempt

section
variable (H : Host) (workflow : ExecutableWorkflow) (w : World) (s : Stimulus) (e : EffectId)
  (i : Uuid) (pc : Addr)

/-- The command is accepted and makes the effect terminal. -/
def World.SettlesEffect : Prop :=
  ∃ t terminalState, w.respond H workflow s = .ok t ∧ ⟨e, terminalState⟩ ∈ t.effectMutations

/-- The outputs of the effect can be written to the instance. -/
def Decodes (inst : ProcessInstance) (outputPayload : Bytes) (newDomainPayload : Option String)
    (noMatch : Bool) : Prop :=
  noMatch = true ∨ newDomainPayload.isSome ∨ ∃ declaration inst',
    ffiDeclaration workflow pc = .ok declaration ∧
    applyFfiOutputs H inst declaration outputPayload = .ok inst'

/-- The fibre is parked on the effect itself, or at a race with an arm for it. -/
def Fiber.AwaitsEffect (f : Fiber) : Prop :=
  (f.wait = .effect e ∧ f.pc = pc) ∨ ∃ r arms target, f.wait = .v2Race r arms ∧
    arms.findSome? (V2RaceArm.effectTarget e) = some target

/-- How the fibre that invoked the effect at `pc` can take its completion. -/
inductive World.Receives (f : Fiber) (outputPayload : Bytes) (newDomainPayload : Option String)
    (noMatch : Bool) : Prop
  | parked (wait : f.wait = .effect e) (here : f.pc = pc)
      (next : pc + 1 < workflow.instructions.length)
      (decodes : Decodes H workflow pc w.state.inst outputPayload newDomainPayload noMatch)
  | raceWin {r : RecordId} {arms : List V2RaceArm} {target : Addr} (wait : f.wait = .v2Race r arms)
      (arm : arms.findSome? (V2RaceArm.effectTarget e) = some target)
      (bound : target < workflow.instructions.length)
      (alone : ∀ m, (w.config H).Holds m r → m = i)
      (decodes : Decodes H workflow pc w.state.inst outputPayload newDomainPayload noMatch)
  | lateArm (word : isV2ArmEffect workflow pc = true) (elsewhere : ¬ f.AwaitsEffect e pc)

/-- A fibre is parked on the effect, and its failure neither starts a handler nor rolls a scope
back. -/
def World.TakesFailure (errorClass : ErrorClass) : Prop :=
  w.state.inst.state.isTerminal = false ∧ ∃ (m : Uuid) (f : Fiber), w.state.fibers[m]? = some f ∧
    f.wait = .effect e ∧ matchedErrorRoute (w.snapshot s) f errorClass = none ∧
    spannedBy (w.snapshot s) f errorClass = none

/-- The response finds the fibre that invoked the effect ready for it. -/
def World.Awaits : EffectResponse → Prop
  | .ffiSuccess outputPayload newDomainPayload => ∃ f, w.state.fibers[i]? = some f ∧
      w.Receives H workflow e i pc f outputPayload newDomainPayload false
  | .ffiNoMatch => ∃ f, w.state.fibers[i]? = some f ∧ w.Receives H workflow e i pc f [] none true
  | .failed errorClass _ _ => w.TakesFailure s e errorClass

end

theorem SoundFrame.win {fibers : BTreeMap Uuid Fiber} {table : ConcurrencyTable}
    (h : SoundFrame fibers table) {f f' : Fiber} (hf : fibers[m]? = some f)
    (hid : f'.fiberId = f.fiberId)
    (hstack : effectiveControlStack f = effectiveControlStack f' ++ [r])
    (hleft : r ∉ effectiveControlStack f')
    (halone : ∀ (k : Uuid) (g : Fiber), fibers[k]? = some g → r ∈ effectiveControlStack g → k = m)
    (heffects : ∀ e ∈ referencedEffects f', e ∈ referencedEffects f)
    (hdue : ∀ y, f'.wait ≠ .v2Barrier y) :
    SoundFrame (fibers.insert m f') (ConcurrencyTable.applyMutations table [.retire r]) := by
  have hmem : ∀ {y : RecordId}, y ≠ r →
      (y ∈ effectiveControlStack f ↔ y ∈ effectiveControlStack f') := by
    intro y hy
    simp [hstack, hy]
  refine h.insert hf hid heffects (fun y hwait => absurd hwait (hdue y))
    (fun y record hrecord harmed => ?_) (fun k g hg y hy => ?_)
  · have hretired := (getElem?_applyRetire table r y).symm.trans hrecord
    split at hretired
    · obtain ⟨old, -, rfl⟩ := Option.map_eq_some_iff.mp hretired
      simp at harmed
    · rename_i hyr
      exact ⟨hretired, (hmem (Ne.symm hyr)).mp⟩
  · -- Only the winner was in the race, and it has left.
    have hyr : y ≠ r := by
      rintro rfl
      rw [getElem?_insert] at hg
      split at hg
      · exact hleft (Option.some.inj hg ▸ hy)
      · rename_i hk
        exact hk (halone k g hg hy).symm
    exact ⟨(getElem?_applyRetire table r y).trans (if_neg (Ne.symm hyr)), (hmem hyr).mpr⟩

section
variable {H : Host} {workflow : ExecutableWorkflow} {w : World} {s : Stimulus} {t : Transition}
  {e : EffectId} {i : Uuid} {pc : Addr} {f : Fiber} {outputPayload : Bytes}
  {newDomainPayload : Option String} {noMatch : Bool}

theorem decodes_iff : Decodes H workflow pc w.state.inst outputPayload newDomainPayload noMatch ↔
    ∃ inst, applyFfiResult H workflow (w.snapshot s) pc outputPayload newDomainPayload noMatch =
      .ok inst := by
  unfold Decodes applyFfiResult
  cases noMatch with
  | true => simp
  | false =>
    cases newDomainPayload with
    | some payload => simp
    | none =>
      simp only [Bool.false_eq_true, if_false, false_or, Option.isSome_none, bind_eq_ok,
        mapError_eq_ok]
      exact ⟨fun ⟨declaration, inst, hd, hi⟩ => ⟨inst, declaration, hd, hi⟩,
        fun ⟨inst, declaration, hd, hi⟩ => ⟨declaration, inst, hd, hi⟩⟩

variable (workflow s f) in
theorem matchFfiCompletion_iff (he : e = w.own H i pc) {found : FfiMatch} :
    matchFfiCompletion H workflow (w.snapshot s) f e i pc = .ok found ↔
      (found = .parked ∧ f.wait = .effect e ∧ f.pc = pc) ∨
      (∃ r arms target, found = .raceWin r target ∧ f.wait = .v2Race r arms ∧
        arms.findSome? (V2RaceArm.effectTarget e) = some target) ∨
      (found = .lateArm ∧ isV2ArmEffect workflow pc = true ∧ ¬ f.AwaitsEffect e pc) := by
  have hown : e = H.forInstruction (w.snapshot s).inst.instanceId i pc := he
  simp only [matchFfiCompletion, Fiber.AwaitsEffect, ← hown, and_true]
  cases hwait : f.wait with
  | effect parked =>
    by_cases hparked : parked = e ∧ f.pc = pc
    · simp [hparked, eq_comm (a := FfiMatch.parked)]
    · by_cases hword : isV2ArmEffect workflow pc = true
      · simp [hparked, hword, eq_comm (a := FfiMatch.lateArm)]
      · simp [hparked, hword]
  | v2Race r arms =>
    cases harm : arms.findSome? (V2RaceArm.effectTarget e) with
    | some target => simp [harm, eq_comm (a := FfiMatch.raceWin r target)]
    | none =>
      by_cases hword : isV2ArmEffect workflow pc = true
      · simp [harm, hword, eq_comm (a := FfiMatch.lateArm)]
      · simp [harm, hword]
  | running | timer | msg | job | join | v2Barrier | incident =>
    by_cases hword : isV2ArmEffect workflow pc = true
    · simp [hword, eq_comm (a := FfiMatch.lateArm)]
    · simp [hword]

theorem Sound.alone (hw : w.Coherent H) (hsound : Sound workflow (w.snapshot s) t)
    (hf : w.state.fibers[i]? = some f) {f' : Fiber} (hupserts : t.fibersUpsert = [f'])
    (hid : f'.fiberId = f.fiberId) (hdeletes : t.fibersDelete = [])
    (hall : t.terminalCleanup.deleteAllFibers = false)
    (hmutations : t.concurrencyMutations = [.retire r]) (m : Uuid) (hholds : (w.config H).Holds m r) :
    m = i := by
  obtain ⟨g, hg, hr⟩ := hholds
  by_contra hne
  have hfibers : (derivePostTransitionFrame (w.snapshot s) t).1[m]? = some g := by
    rw [derivePostTransitionFrame, hw.fibers, hupserts, hdeletes, hall, getElem?_applyFiberDeltas]
    have hother : f'.fiberId ≠ m := fun hm => hne (hm.symm.trans (hid.trans (hw.keyed i f hf)))
    simp only [List.not_mem_nil, if_false, List.reverse_singleton, List.find?_singleton, hother,
      decide_false, Bool.false_eq_true]
    exact hg
  obtain ⟨record, hrecord, harmed, -⟩ := hsound.invariant.held m g hfibers r hr
  rw [derivePostTransitionFrame, hmutations] at hrecord
  have hretired := getElem?_applyRetire (w.snapshot s).concurrencyTable r r
  rw [if_pos rfl] at hretired
  obtain ⟨old, -, rfl⟩ := Option.map_eq_some_iff.mp (hretired.symm.trans hrecord)
  simp at harmed

theorem receives_of_accepted (hw : w.Coherent H) (he : e = w.own H i pc)
    (hs : s.command = .effectCompleted e (.ffi i pc outputPayload newDomainPayload noMatch))
    (h : w.respond H workflow s = .ok t) :
    ∃ f, w.state.fibers[i]? = some f ∧
      w.Receives H workflow e i pc f outputPayload newDomainPayload noMatch := by
  obtain ⟨t₀, -, hhandle, hring3, -, -⟩ := respond_eq_ok h
  have hsound := ring3ShadowCheck_eq_none.mp hring3
  rw [hs] at hhandle
  simp only [handle, applyFfiCompletion, hw.fibers] at hhandle
  split at hhandle
  · simp at hhandle
  · rename_i f hf
    obtain ⟨found, hfound, hresult⟩ := bind_eq_ok.mp hhandle
    rcases (matchFfiCompletion_iff workflow s f he).mp hfound with
      ⟨rfl, hwait, here⟩ | ⟨r, arms, target, rfl, hwait, harm⟩ | ⟨rfl, hword, helsewhere⟩
    · obtain ⟨inst, hinst, hresult⟩ := bind_eq_ok.mp hresult
      rw [pure_eq_ok] at hresult
      subst hresult
      obtain ⟨hnext, -⟩ := hsound.upserts _ (List.mem_singleton_self _)
      exact ⟨f, hf, .parked hwait here (here ▸ hnext) (decodes_iff.mpr ⟨inst, hinst⟩)⟩
    · obtain ⟨inst, hinst, hresult⟩ := bind_eq_ok.mp hresult
      rw [pure_eq_ok] at hresult
      subst hresult
      obtain ⟨hbound, -⟩ := hsound.upserts _ (List.mem_singleton_self _)
      exact ⟨f, hf, .raceWin hwait harm hbound (hsound.alone hw hf rfl rfl rfl rfl rfl)
        (decodes_iff.mpr ⟨inst, hinst⟩)⟩
    · exact ⟨f, hf, .lateArm hword helsewhere⟩

theorem raiseIncident_effect
    (h : raiseIncident H workflow (w.snapshot s) (w.context s) f e (.text "") errorClass message
      none attempt = .ok t) :
    t.effectMutations = [⟨e, .failed⟩] ∧
      t.fibersUpsert = [{ f with wait := .incident ((w.context s).derivedId H 0) }] ∧
      t.fibersDelete = [] ∧ t.terminalCleanup = {} ∧ t.concurrencyMutations = [] := by
  obtain ⟨createdAt, -, h⟩ := bind_eq_ok.mp h
  simp only [pure_eq_ok] at h
  subst h
  exact ⟨rfl, rfl, rfl, rfl, rfl⟩

theorem takesFailure_of_settles (hw : w.Coherent H) (hactivated : w.Activated workflow)
    (hs : s.command = .effectFailed e (.text "") errorClass message none attempt)
    (h : w.SettlesEffect H workflow s e) : w.TakesFailure s e errorClass := by
  obtain ⟨t, terminalState, hrespond, hmem⟩ := h
  obtain ⟨t₀, -, hhandle, -, -, rfl⟩ := respond_eq_ok hrespond
  have hmem₀ : ⟨e, terminalState⟩ ∈ t₀.effectMutations := hmem
  cases handle_reacts (by simp [hs]) hhandle with
  | ignored idle =>
    cases idle with
    | late hs' => simp [hs] at hs'
    | _ => simp at hmem₀
  | answered hs' | won hs' | received hs' => simp [hs] at hs'
  | @raised _ _ _ _ _ _ f _ _ _ _ hs' live hf _ route span =>
    rw [hs, Command.effectFailed.injEq] at hs'
    obtain ⟨rfl, rfl, rfl, -⟩ := hs'
    obtain ⟨hlivef, hwait⟩ := live_of_find hw hf
    refine ⟨live, f.fiberId, f, hlivef, ?_, route, span⟩
    rcases Bool.or_eq_true_iff.mp hwait with hjob | heffect
    · have hkey := hactivated _ f _ hlivef (of_decide_eq_true hjob)
      simp [Fiber.jobKey] at hkey
    · exact of_decide_eq_true heffect
  | @triggered interrupting => cases interrupting <;> exact absurd hmem₀ List.not_mem_nil
  | rolledBack hroll _ lands =>
    obtain ⟨record, -, -, rfl⟩ := v2RollbackGuardScope_eq_ok hroll
    cases lands <;> exact absurd hmem₀ List.not_mem_nil
  | _ => simp [retireAllArmedRecords] at hmem₀

section
variable (hw : w.Coherent H) (hchecked : w.Checked workflow)
include hw hchecked

theorem World.Checked.sound_same (hf : w.state.fibers[i]? = some f) (hupserts : t.fibersUpsert = [])
    (hdeletes : t.fibersDelete = []) (hall : t.terminalCleanup.deleteAllFibers = false)
    (hmutations : t.concurrencyMutations = []) : Sound workflow (w.snapshot s) t := by
  have hframe : derivePostTransitionFrame (w.snapshot s) t =
      (w.state.fibers, w.state.concurrencyTable) := by
    rw [derivePostTransitionFrame, hw.fibers, hupserts, hdeletes, hall, hmutations]
    rfl
  exact hchecked.frame.sound hframe hf (by simp [hupserts])

theorem World.Checked.sound_win
    (hf : w.state.fibers[i]? = some f) {arms : List V2RaceArm} {target : Addr}
    (hwait : f.wait = .v2Race r arms) (hbound : target < workflow.instructions.length)
    (halone : ∀ m, (w.config H).Holds m r → m = i)
    (hupserts : t.fibersUpsert = [{ f with pc := target, wait := .running }])
    (hdeletes : t.fibersDelete = []) (hall : t.terminalCleanup.deleteAllFibers = false)
    (hmutations : t.concurrencyMutations = [.retire r]) : Sound workflow (w.snapshot s) t := by
  have hframe : derivePostTransitionFrame (w.snapshot s) t =
      (w.state.fibers.insert i { f with pc := target, wait := .running },
        ConcurrencyTable.applyMutations w.state.concurrencyTable [.retire r]) := by
    rw [derivePostTransitionFrame, hw.fibers, hupserts, hdeletes, hall, hmutations,
      ← hw.keyed i f hf]
    rfl
  have hstack : effectiveControlStack f = f.controlStack ++ [r] := by
    simp [effectiveControlStack, hwait]
  have hnodup : (f.controlStack ++ [r]).Nodup :=
    hstack ▸ hw.formed.tree.nodup ⟨i, f, hf, rfl⟩
  have hleft : r ∉ f.controlStack := by
    intro hr
    exact (List.nodup_append.mp hnodup).2.2 r hr r (List.mem_singleton_self r) rfl
  have hwon : SoundFrame (w.state.fibers.insert i { f with pc := target, wait := .running })
      (ConcurrencyTable.applyMutations w.state.concurrencyTable [.retire r]) :=
    hchecked.frame.win hf rfl hstack hleft (fun k g hg hr => halone k ⟨g, hg, hr⟩)
      (by simp [referencedEffects]) (by simp)
  obtain ⟨-, hoperands, hcontrol⟩ := hchecked.bounded i f hf (by simp [hwait])
  refine hwon.sound hframe Std.ExtTreeMap.getElem?_insert_self ?_
  rw [hupserts]
  intro g hg
  obtain rfl := List.mem_singleton.mp hg
  exact ⟨hbound, hoperands, hcontrol⟩

theorem settles_of_receives (he : e = w.own H i pc)
    (hs : s.command = .effectCompleted e (.ffi i pc outputPayload newDomainPayload noMatch))
    (hlimits : validateSnapshotLimits workflow (w.snapshot s) true = .ok ())
    (htime : s.logicalTime < 2 ^ 63) (hf : w.state.fibers[i]? = some f)
    (h : w.Receives H workflow e i pc f outputPayload newDomainPayload noMatch) :
    w.SettlesEffect H workflow s e := by
  have hlive : (w.snapshot s).fibers[i]? = some f := by rwa [hw.fibers]
  have haccept : ∀ {t : Transition}, applyFfiCompletion H workflow (w.snapshot s) e i pc
      outputPayload newDomainPayload noMatch = .ok t → Sound workflow (w.snapshot s) t →
      ⟨e, .completed⟩ ∈ t.effectMutations → w.SettlesEffect H workflow s e := by
    intro t hhandle hsound hmem
    refine ⟨_, .completed, respond_of_handle (by rwa [hs]) ?_ hsound htime, hmem⟩
    rw [hs]
    exact hhandle
  cases h with
  | parked hwait here next decodes =>
    obtain ⟨inst, hinst⟩ := (decodes_iff (s := s)).mp decodes
    have hmatch := (matchFfiCompletion_iff workflow s f he).mpr
      (Or.inl ⟨rfl, hwait, here⟩)
    let t : Transition := {
      nextSnapshot := inst
      fibersUpsert := [{ f with pc := f.pc + 1, wait := .running }]
      effectMutations := [⟨e, .completed⟩]
      events := [.ffiInvocationCompleted e (if noMatch then "no_match" else "success") none] }
    have hbounded : Fiber.Bounded workflow { f with pc := f.pc + 1, wait := .running } := by
      obtain ⟨-, hoperands, hcontrol⟩ := hchecked.bounded i f hf (by simp [hwait])
      exact ⟨by rwa [here], hoperands, hcontrol⟩
    refine haccept (t := t) ?_ (hchecked.sound_replace hw hf rfl rfl rfl rfl rfl
      (by simp [effectiveControlStack, hwait]) (by simp [referencedEffects]) (by simp) hbounded)
      (List.mem_singleton_self _)
    simp only [applyFfiCompletion, hlive, hmatch, hinst, bind, Except.bind, pure, Except.pure]
    rfl
  | @raceWin r arms target hwait arm bound alone decodes =>
    obtain ⟨inst, hinst⟩ := (decodes_iff (s := s)).mp decodes
    have hmatch := (matchFfiCompletion_iff workflow s f he).mpr
      (Or.inr (Or.inl ⟨_, _, _, rfl, hwait, arm⟩))
    let t : Transition := {
      nextSnapshot := inst
      fibersUpsert := [{ f with pc := target, wait := .running }]
      effectMutations := [⟨e, .completed⟩]
      events := [.v2RaceWon r f.fiberId,
        .ffiInvocationCompleted e (if noMatch then "no_match" else "success") none]
      concurrencyMutations := [.retire r]
      timerMutations := [.v2CancelRace f.fiberId r e] }
    refine haccept (t := t) ?_ (hchecked.sound_win hw hf hwait bound alone rfl rfl rfl rfl)
      (List.mem_singleton_self _)
    simp only [applyFfiCompletion, hlive, hmatch, hinst, bind, Except.bind, pure, Except.pure]
    rfl
  | lateArm word elsewhere =>
    have hmatch := (matchFfiCompletion_iff workflow s f he).mpr
      (Or.inr (Or.inr ⟨rfl, word, elsewhere⟩))
    let t : Transition := { nextSnapshot := w.state.inst, effectMutations := [⟨e, .completed⟩] }
    refine haccept (t := t) ?_ (hchecked.sound_same hw hf rfl rfl rfl rfl)
      (List.mem_singleton_self _)
    simp only [applyFfiCompletion, hlive, hmatch, bind, Except.bind, pure, Except.pure]
    rfl

theorem failedFiber_of_effect (hactivated : w.Activated workflow) (hf : w.state.fibers[m]? = some f)
    (hwait : f.wait = .effect e) : failedFiber (w.snapshot s) e (.text "") = some f := by
  cases hfound : failedFiber (w.snapshot s) e (.text "") with
  | none =>
    have hmem : f ∈ (w.snapshot s).fibers.values := mem_values.mpr ⟨m, by rwa [hw.fibers]⟩
    have := List.find?_eq_none.mp hfound f hmem
    simp [hwait] at this
  | some g =>
    obtain ⟨hg, hgwait⟩ := live_of_find hw hfound
    have hgeffect : g.wait = .effect e := by
      rcases Bool.or_eq_true_iff.mp hgwait with hjob | heffect
      · have hkey := hactivated _ g _ hg (of_decide_eq_true hjob)
        simp [Fiber.jobKey] at hkey
      · exact of_decide_eq_true heffect
    have hown : ∀ {k : Uuid} {h : Fiber}, w.state.fibers[k]? = some h → h.wait = .effect e →
        (e, h.fiberId) ∈ effectOwnerPairs w.state.fibers := fun hk hkwait =>
      mem_effectOwnerPairs.mpr ⟨_, _, hk, by simp [referencedEffects, hkwait], rfl⟩
    have hsame : g.fiberId = f.fiberId :=
      hchecked.frame.owners _ (hown hg hgeffect) _ (hown hf hwait) rfl
    have hm : f.fiberId = m := hw.keyed m f hf
    have hgf : w.state.fibers[m]? = some g := by rw [← hm, ← hsame]; exact hg
    exact hgf.symm.trans hf

theorem settles_of_takesFailure (hactivated : w.Activated workflow)
    (hs : s.command = .effectFailed e (.text "") errorClass message none attempt)
    (hlimits : validateSnapshotLimits workflow (w.snapshot s) true = .ok ())
    (htime : s.logicalTime < 2 ^ 63) (h : w.TakesFailure s e errorClass) :
    w.SettlesEffect H workflow s e := by
  obtain ⟨hlive, m, f, hf, hwait, hroute, hspan⟩ := h
  have hfound := failedFiber_of_effect (s := s) hw hchecked hactivated hf hwait
  have hnow : logicalTimestamp (w.context s) = .ok (s.logicalTime : ℤ) := if_pos htime
  obtain ⟨t, ht⟩ : ∃ t, raiseIncident H workflow (w.snapshot s) (w.context s) f e (.text "")
      errorClass message none attempt = .ok t := by
    simp only [raiseIncident, hnow, bind, Except.bind, pure, Except.pure]
    exact ⟨_, rfl⟩
  obtain ⟨hmutations, hupserts, hdeletes, hcleanup, hrecords⟩ := raiseIncident_effect ht
  have hhandle : handle H workflow (w.snapshot s) (w.context s) s.command = .ok t := by
    rw [hs]
    have hnot : (w.snapshot s).inst.state.isTerminal ≠ true := ne_of_eq_of_ne hlive Bool.false_ne_true
    simp only [handle, applyJobFailure, if_neg hnot]
    unfold failedFiber at hfound
    simp only [hfound]
    cases errorClass with
    | transient | businessRejection =>
      simp only [hroute]
      exact ht
    | contractViolation =>
      simp only [hroute, if_true]
      split
      · rename_i guard hguard
        simp only [spannedBy, if_true, hguard, Option.filter_eq_none_iff] at hspan
        split
        · rename_i hrollback
          exact absurd (decide_eq_true hrollback) (hspan guard rfl)
        · exact ht
      · exact ht
  have hsound : Sound workflow (w.snapshot s) t := by
    obtain ⟨hpc, hoperands, hcontrol⟩ := hchecked.bounded m f hf (by simp [hwait])
    exact hchecked.sound_replace hw hf hupserts hdeletes (by rw [hcleanup]) hrecords rfl
      (by simp [effectiveControlStack, hwait]) (by simp [referencedEffects]) (by simp)
      ⟨hpc, hoperands, hcontrol⟩
  refine ⟨_, .failed, respond_of_handle (by rwa [hs]) hhandle hsound htime, ?_⟩
  exact hmutations ▸ List.mem_singleton_self _

theorem completion_settles_iff (he : e = w.own H i pc)
    (hs : s.command = .effectCompleted e (.ffi i pc outputPayload newDomainPayload noMatch)) :
    w.SettlesEffect H workflow s e ↔
      validateSnapshotLimits workflow (w.snapshot s) true = .ok () ∧ s.logicalTime < 2 ^ 63 ∧
        ∃ f, w.state.fibers[i]? = some f ∧
          w.Receives H workflow e i pc f outputPayload newDomainPayload noMatch := by
  constructor
  · rintro ⟨t, -, hrespond, -⟩
    obtain ⟨-, hlimits, -, -, htime, -⟩ := respond_eq_ok hrespond
    rw [hs] at hlimits
    exact ⟨hlimits, htime, receives_of_accepted hw he hs hrespond⟩
  · rintro ⟨hlimits, htime, f, hf, hreceives⟩
    exact settles_of_receives hw hchecked he hs hlimits htime hf hreceives

theorem failure_settles_iff (hactivated : w.Activated workflow)
    (hs : s.command = .effectFailed e (.text "") errorClass message none attempt) :
    w.SettlesEffect H workflow s e ↔
      validateSnapshotLimits workflow (w.snapshot s) true = .ok () ∧ s.logicalTime < 2 ^ 63 ∧
        w.TakesFailure s e errorClass := by
  constructor
  · intro hsettles
    obtain ⟨t, -, hrespond, -⟩ := id hsettles
    obtain ⟨-, hlimits, -, -, htime, -⟩ := respond_eq_ok hrespond
    rw [hs] at hlimits
    exact ⟨hlimits, htime, takesFailure_of_settles hw hactivated hs hsettles⟩
  · rintro ⟨hlimits, htime, htakes⟩
    exact settles_of_takesFailure hw hchecked hactivated hs hlimits htime htakes

end

theorem mem_sites_invoke {own : Uuid → Addr → EffectId}
    (h : (e, i, some pc) ∈ f.sites workflow own) : e = own i pc := by
  unfold Fiber.sites at h
  split at h
  · rename_i instruction hfetch
    unfold Instr.sites at h
    split at h
    · simp at h
    · split at h
      · simp only [List.mem_singleton, Prod.mk.injEq, Option.some.injEq] at h
        obtain ⟨he, hi, hpc⟩ := h
        rw [he, hi, hpc]
      · simp at h
  · simp at h

theorem invoked_own (hH : Function.Injective H.uuidOfSeed)
    (h : World.Reachable H workflow G (World.genesis H inst idempotencyKey revision) w) :
    w.Coherent H ∧ ∀ e i pc, (e, i, some pc) ∈ w.effects.map DurableEffect.site →
      e = w.own H i pc := by
  induction h with
  | refl => exact ⟨genesis_coherent .., by simp [World.genesis]⟩
  | @tail w _ _ hlast ih =>
    obtain ⟨s, t, -, hrespond, rfl⟩ := hlast
    obtain ⟨hw, hinvoked⟩ := ih
    refine ⟨hw.commit hH hrespond, fun e i pc hmem => ?_⟩
    rw [commit_own hH hw hrespond]
    simp only [World.commit, List.map_append, List.mem_append] at hmem
    rcases hmem with hold | hnew
    · exact hinvoked e i pc hold
    · rw [(respond_emits hrespond).1] at hnew
      obtain ⟨f, -, hsite⟩ := List.mem_flatMap.mp hnew
      exact mem_sites_invoke hsite

theorem checked_of_reachable (hH : Function.Injective H.uuidOfSeed)
    (h : World.Reachable H workflow G (World.genesis H inst idempotencyKey revision) w) :
    w.Checked workflow := by
  suffices hboth : w.Coherent H ∧ w.Checked workflow from hboth.2
  induction h with
  | refl => exact ⟨genesis_coherent .., genesis_checked ..⟩
  | tail _ hlast ih =>
    obtain ⟨s, t, -, hrespond, rfl⟩ := hlast
    exact ⟨ih.1.commit hH hrespond, ih.2.commit ih.1 hrespond⟩

/-- A response to an invoked effect settles it exactly when the snapshot is within its limits and
the fibre that invoked the effect is ready for the response. -/
theorem effect_settled_iff (hH : Function.Injective H.uuidOfSeed)
    {inst : ProcessInstance} {idempotencyKey : Uuid} {revision : ℕ}
    (h : World.Reachable H workflow (fun _ _ => True)
      (World.genesis H inst idempotencyKey revision) w)
    {operation key : String} {templateId : Digest} {input : Bytes}
    (hinvoked : .invoke e i pc operation templateId input key ∈ w.effects)
    (response : EffectResponse) (hs : s.command = response.command e i pc) :
    w.SettlesEffect H workflow s e ↔
      validateSnapshotLimits workflow (w.snapshot s) true = .ok () ∧ s.logicalTime < 2 ^ 63 ∧
        w.Awaits H workflow s e i pc response := by
  obtain ⟨hw, hactivated⟩ := activated_of_reachable hH h
  have hchecked := checked_of_reachable hH h
  have he : e = w.own H i pc :=
    (invoked_own hH h).2 e i pc (List.mem_map.mpr ⟨_, hinvoked, rfl⟩)
  cases response with
  | ffiSuccess | ffiNoMatch => exact completion_settles_iff hw hchecked he hs
  | failed => exact failure_settles_iff hw hchecked hactivated hs

end

namespace Reference

/-- A task that invokes a foreign function without inputs or outputs. -/
def invoking : ExecutableWorkflow where
  abiVersion := currentArtifactAbi
  instructions := [.execFfi 0 0 0, .end]
  metadata := { ffiTaskDecls := (∅ : BTreeMap Addr FfiTaskDecl).insert 0 ⟨0, [], []⟩ }
  limits := ⟨0, 1, 2, 0, 0, 0⟩
  hash := 0
  verified := by decide +kernel

/-- The fibre `invoking` runs, and the effect it invokes. -/
def invoker : Uuid := host.forCommand 0 0 0

def invoked : EffectId := host.forInstruction 0 invoker 0

/-- The foreign function has found no match. -/
def answered : Stimulus where
  command := EffectResponse.ffiNoMatch.command invoked invoker 0
  commandId := 0
  logicalTime := 0

theorem parked_effect_settled :
    (after invoking [.tick none]).SettlesEffect host invoking answered invoked := by
  have hinvoked : .invoke invoked invoker 0 (digestHex 0) 0 [] (uuidText invoked) ∈
      (after invoking [.tick none]).effects := by decide +kernel
  obtain ⟨f, hmem, hwait, hpc⟩ : ∃ f ∈ (after invoking [.tick none]).state.fibers[invoker]?,
      f.wait = .effect invoked ∧ f.pc = 0 := by decide +kernel
  exact (effect_settled_iff host_injective (reachable_after invoking [.tick none]) hinvoked
    .ffiNoMatch rfl).mpr ⟨by decide +kernel, by decide, f, hmem, .parked hwait hpc (by decide)
      (Or.inl rfl)⟩

def cancelled : Stimulus := { command := .cancel "", commandId := 0, logicalTime := 0 }

/-- The instance is cancelled while the effect is out: neither transition has settled the effect,
and its response is rejected. -/
theorem cancelled_effect_unsettled : ∃ t₁ t₂ w₁ w₂,
    start.respond host invoking ticked = .ok t₁ ∧ w₁ = start.commit host invoking ticked t₁ ∧
    w₁.respond host invoking cancelled = .ok t₂ ∧ w₂ = w₁.commit host invoking cancelled t₂ ∧
    .invoke invoked invoker 0 (digestHex 0) 0 [] (uuidText invoked) ∈ w₂.effects ∧
    t₁.effectMutations = [] ∧ t₂.effectMutations = [] ∧
    w₂.respond host invoking answered = .error (.missingFiber invoker) := by
  obtain ⟨t₁, ht₁, hcheck₁⟩ := ok_of_check (x := start.respond host invoking ticked) (fun t₁ =>
    t₁.effectMutations = [] ∧ ((start.commit host invoking ticked t₁).respond host invoking
      cancelled).toOption.any (fun t₂ => t₂.effectMutations = [] ∧
        .invoke invoked invoker 0 (digestHex 0) 0 [] (uuidText invoked) ∈
          ((start.commit host invoking ticked t₁).commit host invoking cancelled t₂).effects ∧
        rejection (((start.commit host invoking ticked t₁).commit host invoking cancelled
          t₂).respond host invoking answered) = some (.missingFiber invoker))) (by decide +kernel)
  obtain ⟨hnone₁, hnext⟩ := of_decide_eq_true hcheck₁
  obtain ⟨t₂, ht₂, hcheck₂⟩ := ok_of_check _ hnext
  obtain ⟨hnone₂, hinvoked, hrejected⟩ := of_decide_eq_true hcheck₂
  exact ⟨t₁, t₂, _, _, ht₁, rfl, ht₂, rfl, hinvoked, hnone₁, hnone₂,
    eq_error_of_rejection hrejected⟩

end Reference

end BpmnLite
