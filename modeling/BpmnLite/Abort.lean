import Mathlib

/-!
# Computations that may stop half-way

A computation of `EStateM` that stops keeps the state it had reached: nothing is undone. `leaves` is
that state, whether the computation returned or stopped. `Keeps R` says that the state left is
related to the state found, and is closed under sequencing for a preorder `R`. `Takes` says when a
computation returns and which step it has then taken; a loop of such computations returns exactly
when every item finds its turn ready. `Answers` is about computations that may also panic.
-/

namespace Abort

variable {ε σ α β : Type}

def leaves (x : EStateM ε σ α) (s : σ) : σ :=
  match x s with
  | .ok _ s' => s'
  | .error _ s' => s'

def Returns (x : EStateM ε σ α) (s : σ) : Prop := ∃ a s', x s = .ok a s'

@[simp] theorem pure_apply (a : α) (s : σ) : (pure a : EStateM ε σ α) s = .ok a s := rfl

@[simp] theorem throw_apply (e : ε) (s : σ) : (throw e : EStateM ε σ α) s = .error e s := rfl

@[simp] theorem modify_apply (f : σ → σ) (s : σ) :
    (modify f : EStateM ε σ Unit) s = .ok () (f s) := rfl

@[simp] theorem get_apply (s : σ) : (get : EStateM ε σ σ) s = .ok s s := rfl

@[simp] theorem set_apply (s s' : σ) : (set s' : EStateM ε σ Unit) s = .ok () s' := rfl

@[simp] theorem throw_bind (e : ε) (f : α → EStateM ε σ β) (s : σ) :
    ((throw e : EStateM ε σ α) >>= f) s = .error e s := rfl

@[simp] theorem modify_bind (g : σ → σ) (f : Unit → EStateM ε σ β) (s : σ) :
    ((modify g : EStateM ε σ Unit) >>= f) s = f () (g s) := rfl

@[simp] theorem get_bind (f : σ → EStateM ε σ β) (s : σ) :
    ((get : EStateM ε σ σ) >>= f) s = f s s := rfl

@[simp] theorem set_bind (s' : σ) (f : Unit → EStateM ε σ β) (s : σ) :
    ((set s' : EStateM ε σ Unit) >>= f) s = f () s' := rfl

variable {x : EStateM ε σ α} {f : α → EStateM ε σ β} {body : α → EStateM ε σ Unit} {s s' s'' : σ}
  {a : α} {b : β} {e : ε} {l : List α}

theorem bind_ok (h : x s = .ok a s') (f : α → EStateM ε σ β) : (x >>= f) s = f a s' := by
  simp [bind, EStateM.bind, h]

theorem bind_error (h : x s = .error e s') (f : α → EStateM ε σ β) : (x >>= f) s = .error e s' := by
  simp [bind, EStateM.bind, h]

theorem forM_nil (body : α → EStateM ε σ Unit) : List.forM [] body = pure () := rfl

theorem forM_cons (body : α → EStateM ε σ Unit) (a : α) (l : List α) :
    (a :: l).forM body = (body a >>= fun _ => l.forM body) := rfl

theorem bind_eq_ok : (x >>= f) s = .ok b s'' ↔ ∃ a s', x s = .ok a s' ∧ f a s' = .ok b s'' := by
  cases h : x s with
  | ok a s' => simp [bind_ok h]
  | error e s' => simp [bind_error h]

theorem bind_eq_error :
    (x >>= f) s = .error e s'' ↔
      x s = .error e s'' ∨ ∃ a s', x s = .ok a s' ∧ f a s' = .error e s'' := by
  cases h : x s with
  | ok a s' => simp [bind_ok h]
  | error e' s' => simp [bind_error h]

theorem not_returns_iff : ¬ Returns x s ↔ ∃ e s', x s = .error e s' := by
  unfold Returns
  cases x s <;> simp

theorem leaves_ok (h : x s = .ok a s') : leaves x s = s' := by
  simp [leaves, h]

theorem leaves_error (h : x s = .error e s') : leaves x s = s' := by
  simp [leaves, h]

section Keeps

def Keeps (R : σ → σ → Prop) (x : EStateM ε σ α) : Prop := ∀ s, R s (leaves x s)

variable {R : σ → σ → Prop}

theorem Keeps.ok (hx : Keeps R x) (h : x s = .ok a s') : R s s' :=
  leaves_ok h ▸ hx s

theorem Keeps.error (hx : Keeps R x) (h : x s = .error e s') : R s s' :=
  leaves_error h ▸ hx s

theorem keeps_of_results (hok : ∀ s a s', x s = .ok a s' → R s s')
    (herror : ∀ s e s', x s = .error e s' → R s s') : Keeps R x := by
  intro s
  cases h : x s with
  | ok a s' => exact leaves_ok h ▸ hok s a s' h
  | error e s' => exact leaves_error h ▸ herror s e s' h

theorem Keeps.mono {R' : σ → σ → Prop} (hx : Keeps R x) (h : ∀ s s', R s s' → R' s s') :
    Keeps R' x :=
  fun s => h s _ (hx s)

theorem Keeps.bind (htrans : ∀ {a b c}, R a b → R b c → R a c) (hx : Keeps R x)
    (hf : ∀ a, Keeps R (f a)) : Keeps R (x >>= f) := by
  apply keeps_of_results
  · intro s b s'' h
    obtain ⟨a, s', hfirst, hrest⟩ := bind_eq_ok.mp h
    exact htrans (hx.ok hfirst) ((hf a).ok hrest)
  · intro s e s'' h
    rcases bind_eq_error.mp h with hfirst | ⟨a, s', hfirst, hrest⟩
    · exact hx.error hfirst
    · exact htrans (hx.ok hfirst) ((hf a).error hrest)

theorem Keeps.forM (hrefl : ∀ a, R a a) (htrans : ∀ {a b c}, R a b → R b c → R a c)
    (hbody : ∀ a ∈ l, Keeps R (body a)) : Keeps R (l.forM body) := by
  induction l with
  | nil => exact fun s => hrefl s
  | cons a l ih =>
    exact Keeps.bind htrans (hbody a List.mem_cons_self) fun _ =>
      ih fun b hb => hbody b (List.mem_cons_of_mem a hb)

def Fixes {τ : Type} (g : σ → τ) (x : EStateM ε σ α) : Prop := Keeps (fun s s' => g s' = g s) x

variable {τ υ : Type} {g : σ → τ}

theorem Fixes.bind (hx : Fixes g x) (hf : ∀ a, Fixes g (f a)) : Fixes g (x >>= f) :=
  Keeps.bind (R := fun s s' => g s' = g s) (fun h h' => h'.trans h) hx hf

theorem Fixes.forM (hbody : ∀ a ∈ l, Fixes g (body a)) : Fixes g (l.forM body) :=
  Keeps.forM (R := fun s s' => g s' = g s) (fun _ => rfl) (fun h h' => h'.trans h) hbody

theorem fixes_modify {f : σ → σ} (h : ∀ s, g (f s) = g s) :
    Fixes g (modify f : EStateM ε σ Unit) := h

theorem Fixes.map (hx : Fixes g x) (f : τ → υ) : Fixes (fun s => f (g s)) x :=
  fun s => congrArg f (hx s)

theorem Fixes.through {e : σ → σ} (hx : Fixes e x) (hg : ∀ s, g (e s) = g s) : Fixes g x :=
  fun s => (hg _).symm.trans ((congrArg g (hx s)).trans (hg s))

/-- What becomes of a part of the state if the computation stops. -/
def Stops {τ : Type} (Q : τ → τ → Prop) (g : σ → τ) (x : EStateM ε σ α) : Prop :=
  ∀ s e s', x s = .error e s' → Q (g s) (g s')

variable {Q : τ → τ → Prop}

theorem Fixes.stops (hQ : ∀ p, Q p p) (hx : Fixes g x) : Stops Q g x := by
  intro s e s' h
  have hsame : g s' = g s := Keeps.error (R := fun s s' => g s' = g s) hx h
  rw [hsame]
  exact hQ _

theorem Fixes.bind_stops (hQ : ∀ p, Q p p) (hx : Fixes g x) (hf : ∀ a, Stops Q g (f a)) :
    Stops Q g (x >>= f) := by
  intro s e s'' h
  rcases bind_eq_error.mp h with hfirst | ⟨a, s', hfirst, hrest⟩
  · exact hx.stops hQ s e s'' hfirst
  · have hsame : g s' = g s := Keeps.ok (R := fun s s' => g s' = g s) hx hfirst
    rw [← hsame]
    exact hf a s' e s'' hrest

def Preserves (P : σ → Prop) (x : EStateM ε σ α) : Prop := Keeps (fun s s' => P s → P s') x

variable {P : σ → Prop}

theorem Preserves.bind (hx : Preserves P x) (hf : ∀ a, Preserves P (f a)) : Preserves P (x >>= f) :=
  Keeps.bind (R := fun s s' => P s → P s') (fun h h' hP => h' (h hP)) hx hf

theorem Preserves.forM (hbody : ∀ a ∈ l, Preserves P (body a)) : Preserves P (l.forM body) :=
  Keeps.forM (R := fun s s' => P s → P s') (fun _ => id) (fun h h' hP => h' (h hP)) hbody

theorem Fixes.preserves (hx : Fixes g x) (p : τ → Prop) : Preserves (fun s => p (g s)) x := by
  intro s hp
  rwa [hx s]

end Keeps

theorem foldl_keeps {τ : Type} {f : σ → α → σ} (g : σ → τ) (h : ∀ s a, g (f s a) = g s)
    (l : List α) (s : σ) : g (l.foldl f s) = g s := by
  induction l generalizing s with
  | nil => rfl
  | cons a l ih => exact (ih (f s a)).trans (h s a)

section Takes

/-- The computation takes the step `next` when it is ready for it, and stops otherwise. -/
def Takes (x : EStateM ε σ Unit) (ready : σ → Prop) (next : σ → σ) : Prop :=
  ∀ s s', x s = .ok () s' ↔ ready s ∧ s' = next s

variable {x : EStateM ε σ Unit} {ready : σ → Prop} {next : σ → σ}

theorem Takes.returns_iff (h : Takes x ready next) (s : σ) : Returns x s ↔ ready s := by
  constructor
  · rintro ⟨_, s', hs'⟩
    exact ((h s s').mp hs').1
  · intro hready
    exact ⟨(), next s, (h s _).mpr ⟨hready, rfl⟩⟩

theorem Takes.stops (h : Takes x ready next) (hs : ¬ ready s) : ∃ e s', x s = .error e s' :=
  not_returns_iff.mp fun hreturns => hs ((h.returns_iff s).mp hreturns)

theorem takes_unless (p : Prop) [Decidable p] (e : ε) :
    Takes (if p then throw e else pure () : EStateM ε σ Unit) (fun _ => ¬ p) id := by
  intro s s'
  by_cases hp : p <;> simp [hp, eq_comm]

/-- The items of a loop whose turns come one after the other: each finds its turn ready when the
items before it have taken their steps. -/
def Passes (ready : α → σ → Prop) (next : α → σ → σ) : List α → σ → Prop
  | [], _ => True
  | a :: l, s => ready a s ∧ Passes ready next l (next a s)

theorem passes_iff_of_stable {ready : α → σ → Prop} {next : α → σ → σ}
    (hstep : ∀ a b s, ready b (next a s) ↔ ready b s) (l : List α) (s : σ) :
    Passes ready next l s ↔ ∀ a ∈ l, ready a s := by
  induction l generalizing s with
  | nil => simp [Passes]
  | cons a l ih => rw [Passes, ih, List.forall_mem_cons]; simp only [hstep]

theorem passes_const {p : α → Prop} {next : α → σ → σ} :
    Passes (fun a _ => p a) next l s ↔ ∀ a ∈ l, p a := by
  induction l generalizing s with
  | nil => simp [Passes]
  | cons a l ih => rw [List.forall_mem_cons, ← ih (s := next a s)]; rfl

theorem Takes.forM {body : α → EStateM ε σ Unit} {ready : α → σ → Prop} {next : α → σ → σ}
    (hbody : ∀ a, Takes (body a) (ready a) (next a)) (l : List α) :
    Takes (l.forM body) (Passes ready next l) (fun s => l.foldl (fun s a => next a s) s) := by
  induction l with
  | nil =>
    intro s s'
    change EStateM.Result.ok () s = .ok () s' ↔ True ∧ s' = s
    simp [eq_comm]
  | cons a l ih =>
    intro s s'
    change (body a >>= fun _ => l.forM body) s = .ok () s' ↔ _
    rw [bind_eq_ok]
    simp only [Passes, List.foldl_cons]
    constructor
    · rintro ⟨_, s₁, hfirst, hrest⟩
      obtain ⟨hready, rfl⟩ := (hbody a s s₁).mp hfirst
      obtain ⟨hpasses, hs'⟩ := (ih (next a s) s').mp hrest
      exact ⟨⟨hready, hpasses⟩, hs'⟩
    · rintro ⟨⟨hready, hpasses⟩, hs'⟩
      exact ⟨(), next a s, (hbody a s _).mpr ⟨hready, rfl⟩, (ih _ _).mpr ⟨hpasses, hs'⟩⟩

theorem Takes.bind_eq_ok (h : Takes x ready next) {f : Unit → EStateM ε σ β} :
    (x >>= f) s = .ok b s' ↔ ready s ∧ f () (next s) = .ok b s' := by
  rw [Abort.bind_eq_ok]
  constructor
  · rintro ⟨_, s₁, hfirst, hrest⟩
    obtain ⟨hready, rfl⟩ := (h s s₁).mp hfirst
    exact ⟨hready, hrest⟩
  · rintro ⟨hready, hrest⟩
    exact ⟨(), next s, (h s _).mpr ⟨hready, rfl⟩, hrest⟩

end Takes

section Answers

variable {x : ExceptT ε Option α} {Q : α → Prop} {P : β → Prop}

/-- The computation does not panic, which is `none`, and a value it returns meets `Q`. -/
def Answers (x : ExceptT ε Option α) (Q : α → Prop) : Prop :=
  ∃ r : Except ε α, x.run = some r ∧ ∀ a, r = .ok a → Q a

theorem answers_ok {a : α} (hx : x.run = some (.ok a)) (h : Q a) : Answers x Q := by
  refine ⟨.ok a, hx, ?_⟩
  rintro _ ⟨⟩
  exact h

theorem answers_error {e : ε} (hx : x.run = some (.error e)) : Answers x Q := by
  refine ⟨.error e, hx, ?_⟩
  rintro _ ⟨⟩

theorem Answers.mono (h : Answers x Q) {Q' : α → Prop} (himp : ∀ a, Q a → Q' a) : Answers x Q' := by
  obtain ⟨r, hr, hQ⟩ := h
  exact ⟨r, hr, fun a ha => himp a (hQ a ha)⟩

theorem Answers.of_run (h : Answers x Q) {a : α} (hx : x.run = some (.ok a)) : Q a := by
  obtain ⟨r, hr, hQ⟩ := h
  exact hQ a (Option.mem_unique hr hx)

theorem answers_bind {f : α → ExceptT ε Option β} (h : Answers x fun a => Answers (f a) P) :
    Answers (x >>= f) P := by
  obtain ⟨r, hr, hrest⟩ := h
  cases r with
  | error e =>
    apply answers_error (e := e)
    rw [ExceptT.run_bind, hr]
    rfl
  | ok a =>
    obtain ⟨r', hr', hP⟩ := hrest a rfl
    refine ⟨r', ?_, hP⟩
    rw [ExceptT.run_bind, hr]
    exact hr'

theorem answers_foldlM {f : β → α → ExceptT ε Option β} (I : List α → β → Prop) {items : List α}
    (hstep : ∀ done a rest b, items = done ++ a :: rest → I done b →
      Answers (f b a) (I (done ++ [a]))) {b : β} (hstart : I [] b) :
    Answers (items.foldlM f b) (I items) := by
  suffices hrest : ∀ rest done b, items = done ++ rest → I done b →
      Answers (rest.foldlM f b) (I items) from hrest items [] b rfl hstart
  intro rest
  induction rest with
  | nil =>
    intro done b hitems h
    rw [List.append_nil] at hitems
    exact answers_ok rfl (hitems ▸ h)
  | cons a rest ih =>
    intro done b hitems h
    rw [List.foldlM_cons]
    apply answers_bind
    obtain ⟨r, hr, hnext⟩ := hstep done a rest b hitems h
    exact ⟨r, hr, fun b' hb' => ih (done ++ [a]) b' (by simpa using hitems) (hnext b' hb')⟩

end Answers

end Abort
