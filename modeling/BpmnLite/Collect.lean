import Mathlib

/-!
# Computations that collect their errors

Code that reports an error and goes on. A computation of `Collect` reads and changes a state, returns
the errors it reported, and may give up on its value without stopping what comes after it. `Yields`
says what holds of the value and of the state when nothing was reported: in particular that there is
a value, so that nothing was given up in silence. The last section is about lists whose elements are
computed one by one.
-/

/-- A computation over states `σ` that reports errors `ε`. -/
def Collect (ε σ α : Type) : Type := σ → Option α × List ε × σ

namespace Collect

variable {ε σ α β : Type}

instance monadCollect : Monad (Collect ε σ) where
  pure a := fun s => (some a, [], s)
  bind m f := fun s =>
    match m s with
    | (none, errors, s) => (none, errors, s)
    | (some a, errors, s) =>
      match f a s with
      | (r, errors', s) => (r, errors ++ errors', s)

def report (e : ε) : Collect ε σ Unit := fun s => (some (), [e], s)

def giveUp : Collect ε σ α := fun s => (none, [], s)

def fail (e : ε) : Collect ε σ α := fun s => (none, [e], s)

def read : Collect ε σ σ := fun s => (some s, [], s)

def update (f : σ → σ) : Collect ε σ Unit := fun s => (some (), [], f s)

/-- Go on without the value if the computation gave it up. -/
def attempt (m : Collect ε σ α) : Collect ε σ (Option α) := fun s =>
  match m s with
  | (r, errors, s) => (some r, errors, s)

def strictly (m : Collect ε σ α) : Collect ε σ α := fun s =>
  match m s with
  | (r, errors, s) => (if errors.isEmpty then r else none, errors, s)

/-- Go on without the value if it was given up, with the errors that were reported. -/
def listen (m : Collect ε σ α) : Collect ε σ (Option α × List ε) := fun s =>
  match m s with
  | (r, errors, s) => (some (r, errors), errors, s)

def reportIf (p : Prop) [Decidable p] (e : ε) : Collect ε σ Unit :=
  if p then report e else pure ()

section Yields

/-- If nothing is reported, there is a value, and it and the state left meet `Q`. -/
def Yields (m : Collect ε σ α) (s : σ) (Q : α → σ → Prop) : Prop :=
  (m s).2.1 = [] → ∃ a t, m s = (some a, [], t) ∧ Q a t

variable {m : Collect ε σ α} {f : α → Collect ε σ β} {s : σ} {Q Q' : α → σ → Prop}
  {P : β → σ → Prop}

theorem Yields.mono (h : Yields m s Q) (himp : ∀ a t, Q a t → Q' a t) : Yields m s Q' := by
  intro hclean
  obtain ⟨a, t, hrun, hq⟩ := h hclean
  exact ⟨a, t, hrun, himp a t hq⟩

theorem yields_pure {a : α} (h : Q a s) : Yields (pure a : Collect ε σ α) s Q :=
  fun _ => ⟨a, s, rfl, h⟩

theorem yields_bind (h : Yields m s fun a t => Yields (f a) t P) : Yields (m >>= f) s P := by
  intro hclean
  change (match m s with
    | (none, errors, s) => (none, errors, s)
    | (some a, errors, s) =>
      match f a s with
      | (r, errors', s) => (r, errors ++ errors', s) : Option β × List ε × σ).2.1 = [] at hclean
  have hfirst : (m s).2.1 = [] := by
    generalize m s = r at hclean ⊢
    obtain ⟨_ | a, errors, t⟩ := r
    · exact hclean
    · exact (List.append_eq_nil_iff.mp hclean).1
  obtain ⟨a, t, hrun, hrest⟩ := h hfirst
  rw [hrun] at hclean
  obtain ⟨b, u, hrun', hp⟩ := hrest hclean
  refine ⟨b, u, ?_, hp⟩
  change (match m s with
    | (none, errors, s) => (none, errors, s)
    | (some a, errors, s) =>
      match f a s with
      | (r, errors', s) => (r, errors ++ errors', s) : Option β × List ε × σ) = _
  rw [hrun]
  dsimp only
  rw [hrun']
  rfl

theorem Yields.bind (h : Yields m s Q) (hf : ∀ a t, Q a t → Yields (f a) t P) :
    Yields (m >>= f) s P :=
  yields_bind (h.mono hf)

theorem yields_report {e : ε} {Q : Unit → σ → Prop} : Yields (report e) s Q := by
  intro hclean
  simp [report] at hclean

theorem yields_fail {e : ε} : Yields (fail e) s Q := by
  intro hclean
  simp [fail] at hclean

theorem yields_read {Q : σ → σ → Prop} (h : Q s s) : Yields (read : Collect ε σ σ) s Q :=
  fun _ => ⟨s, s, rfl, h⟩

theorem yields_update {g : σ → σ} {Q : Unit → σ → Prop} (h : Q () (g s)) :
    Yields (update g : Collect ε σ Unit) s Q :=
  fun _ => ⟨(), g s, rfl, h⟩

theorem yields_attempt {Q : Option α → σ → Prop} (h : Yields m s fun a t => Q (some a) t) :
    Yields (attempt m) s Q := by
  intro hclean
  obtain ⟨a, t, hrun, hq⟩ := h hclean
  refine ⟨some a, t, ?_, hq⟩
  rw [attempt, hrun]

theorem yields_strictly (h : Yields m s Q) : Yields (strictly m) s Q := by
  intro hclean
  obtain ⟨a, t, hrun, hq⟩ := h hclean
  refine ⟨a, t, ?_, hq⟩
  rw [strictly, hrun]
  rfl

theorem yields_listen {Q : Option α × List ε → σ → Prop}
    (h : Yields m s fun a t => Q (some a, []) t) : Yields (listen m) s Q := by
  intro hclean
  obtain ⟨a, t, hrun, hq⟩ := h hclean
  refine ⟨(some a, []), t, ?_, hq⟩
  rw [listen, hrun]

theorem yields_reportIf {p : Prop} [Decidable p] {e : ε} {Q : Unit → σ → Prop}
    (h : ¬ p → Q () s) : Yields (reportIf p e) s Q := by
  unfold reportIf
  split
  case isTrue => exact yields_report
  case isFalse hp => exact yields_pure (h hp)

end Yields

section Lists

variable {P : α → β → Prop} {l : List α} {l' : List β}

theorem exists_of_forall₂_right (h : List.Forall₂ P l l') {b : β} (hb : b ∈ l') :
    ∃ a ∈ l, P a b := by
  induction h with
  | nil => cases hb
  | cons hab _ ih =>
    rcases List.mem_cons.mp hb with rfl | hb
    · exact ⟨_, List.mem_cons_self, hab⟩
    · obtain ⟨a, ha, hP⟩ := ih hb
      exact ⟨a, List.mem_cons_of_mem _ ha, hP⟩

theorem exists_of_forall₂_left (h : List.Forall₂ P l l') {a : α} (ha : a ∈ l) :
    ∃ b ∈ l', P a b :=
  exists_of_forall₂_right (P := fun b a => P a b) h.flip ha

theorem exists_mapM {g : α → Option β} (h : ∀ x ∈ l, ∃ y, g x = some y) :
    ∃ ys, l.mapM g = some ys ∧ List.Forall₂ (fun x y => g x = some y) l ys := by
  induction l with
  | nil => exact ⟨[], rfl, .nil⟩
  | cons x l ih =>
    obtain ⟨⟨y, hy⟩, hl⟩ := List.forall_mem_cons.mp h
    obtain ⟨ys, hys, hall⟩ := ih hl
    refine ⟨y :: ys, ?_, .cons hy hall⟩
    rw [List.mapM_cons, hy, hys]
    rfl

end Lists

end Collect
