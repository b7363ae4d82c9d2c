import BpmnLite.Abort

/-!
# Codecs over a cursor

Numbers as little-endian bytes, readers that consume a list of bytes, and what ties a reader to a
writer. `Answers p d b x`: on the bytes `b` the reader `d` returns `x` and consumes exactly `b` if
`p` holds, and stops otherwise, whatever follows. `Sound P enc d`: what `d` returns is in `P` and the
bytes it has consumed are those `enc` writes. `Delimits P enc`: the bytes `enc` writes show their own
end. Each is closed under sequencing and repetition.
-/

namespace Codec

section Words

def le : ℕ → ℕ → List UInt8
  | 0, _ => []
  | w + 1, n => UInt8.ofNat n :: le w (n / 256)

def leValue : List UInt8 → ℕ
  | [] => 0
  | b :: bs => b.toNat + 256 * leValue bs

@[simp] theorem length_le (w n : ℕ) : (le w n).length = w := by
  induction w generalizing n with
  | zero => rfl
  | succ w ih => rw [le, List.length_cons, ih]

theorem leValue_lt (bs : List UInt8) : leValue bs < 256 ^ bs.length := by
  induction bs with
  | nil => simp [leValue]
  | cons b bs ih =>
    have hb : b.toNat < 256 := b.toNat_lt
    rw [leValue, List.length_cons, pow_succ]
    omega

theorem leValue_le {w n : ℕ} (h : n < 256 ^ w) : leValue (le w n) = n := by
  induction w generalizing n with
  | zero =>
    rw [pow_zero] at h
    simp only [le, leValue]
    omega
  | succ w ih =>
    have hrest : n / 256 < 256 ^ w := by
      rw [pow_succ] at h
      omega
    have hlow : (UInt8.ofNat n).toNat = n % 256 := by simp
    rw [le, leValue, ih hrest, hlow]
    omega

theorem le_leValue (bs : List UInt8) : le bs.length (leValue bs) = bs := by
  induction bs with
  | nil => rfl
  | cons b bs ih =>
    have hb : b.toNat < 256 := b.toNat_lt
    have hrest : (b.toNat + 256 * leValue bs) / 256 = leValue bs := by omega
    have hlow : UInt8.ofNat (b.toNat + 256 * leValue bs) = b := by
      apply UInt8.toNat_inj.mp
      rw [UInt8.toNat_ofNat']
      omega
    rw [List.length_cons, leValue, le, hrest, ih, hlow]

end Words

structure Cursor where
  rest : List UInt8
  pos : ℕ

variable {ε α β : Type}

section Answers

variable {p q : Prop} {d : EStateM ε Cursor α} {b b₁ b₂ : List UInt8} {x : α} {y : β}

/-- On the bytes `b` the reader returns `x` and consumes them, or stops if `p` does not hold. -/
def Answers (p : Prop) (d : EStateM ε Cursor α) (b : List UInt8) (x : α) : Prop :=
  ∀ rest pos, (p → d ⟨b ++ rest, pos⟩ = .ok x ⟨rest, pos + b.length⟩) ∧
    (¬ p → ∃ e c, d ⟨b ++ rest, pos⟩ = .error e c)

/-- On the bytes `b` the reader returns `x` and consumes them. -/
abbrev Decodes (d : EStateM ε Cursor α) (b : List UInt8) (x : α) : Prop := Answers True d b x

theorem decodes_of (h : ∀ rest pos, d ⟨b ++ rest, pos⟩ = .ok x ⟨rest, pos + b.length⟩) :
    Decodes d b x :=
  fun rest pos => ⟨fun _ => h rest pos, fun hfalse => absurd trivial hfalse⟩

theorem decodes_pure (x : α) : Decodes (pure x : EStateM ε Cursor α) [] x :=
  decodes_of fun _ _ => rfl

theorem answers_throw (e : ε) (hp : ¬ p) : Answers p (throw e : EStateM ε Cursor α) b x :=
  fun _ _ => ⟨fun h => absurd h hp, fun _ => ⟨e, _, rfl⟩⟩

theorem Answers.congr (h : Answers p d b x) (hpq : p ↔ q) : Answers q d b x :=
  fun rest pos => ⟨fun hq => (h rest pos).1 (hpq.mpr hq), fun hq => (h rest pos).2 (mt hpq.mp hq)⟩

theorem Answers.bind {d : EStateM ε Cursor β} {f : β → EStateM ε Cursor α} (h : Answers p d b₁ y)
    (h' : Answers q (f y) b₂ x) : Answers (p ∧ q) (d >>= f) (b₁ ++ b₂) x := by
  intro rest pos
  obtain ⟨hreads, hstops⟩ := h (b₂ ++ rest) pos
  obtain ⟨hreads', hstops'⟩ := h' rest (pos + b₁.length)
  rw [List.append_assoc, List.length_append, ← Nat.add_assoc]
  refine ⟨fun hpq => ?_, fun hpq => ?_⟩
  · rw [Abort.bind_ok (hreads hpq.1), hreads' hpq.2]
  · by_cases hp : p
    · obtain ⟨e, c, he⟩ := hstops' fun hq => hpq ⟨hp, hq⟩
      exact ⟨e, c, (Abort.bind_ok (hreads hp) f).trans he⟩
    · obtain ⟨e, c, he⟩ := hstops hp
      exact ⟨e, c, Abort.bind_error he f⟩

theorem Answers.after {d : EStateM ε Cursor β} {f : β → EStateM ε Cursor α} (h : Decodes d b₁ y)
    (h' : Answers q (f y) b₂ x) : Answers q (d >>= f) (b₁ ++ b₂) x :=
  (Answers.bind h h').congr (by simp)

theorem Answers.last {d : EStateM ε Cursor β} {f : β → EStateM ε Cursor α} (h : Decodes d b y)
    (h' : Answers q (f y) [] x) : Answers q (d >>= f) b x := by
  have hboth := Answers.after h h'
  rwa [List.append_nil] at hboth

theorem Answers.pack {d : EStateM ε Cursor β} (h : Answers p d b y) (f : β → α) :
    Answers p (d >>= fun y => pure (f y)) b (f y) := by
  have hpacked := Answers.bind (f := fun y => pure (f y)) h (decodes_pure (f y))
  rw [List.append_nil] at hpacked
  exact hpacked.congr (by simp)

end Answers

section Sound

variable {P : α → Prop} {enc : α → List UInt8} {d : EStateM ε Cursor α} {x : α}
  {R : α → List UInt8 → Prop}

/-- What the reader returns is in `P`, and it has consumed the bytes of what it returns. -/
def Sound (P : α → Prop) (enc : α → List UInt8) (d : EStateM ε Cursor α) : Prop :=
  ∀ c x c', d c = .ok x c' → P x ∧ c.rest = enc x ++ c'.rest

/-- What the reader returns stands in `R` to the bytes it has consumed. -/
def Consumes (R : α → List UInt8 → Prop) (d : EStateM ε Cursor α) : Prop :=
  ∀ c x c', d c = .ok x c' → ∃ b, c.rest = b ++ c'.rest ∧ R x b

theorem Consumes.sound (h : Consumes (fun x b => P x ∧ b = enc x) d) : Sound P enc d := by
  intro c x c' hread
  obtain ⟨b, hbytes, hP, rfl⟩ := h c x c' hread
  exact ⟨hP, hbytes⟩

theorem Sound.consumes (h : Sound P enc d) (hR : ∀ x, P x → R x (enc x)) : Consumes R d := by
  intro c x c' hread
  obtain ⟨hP, hbytes⟩ := h c x c' hread
  exact ⟨enc x, hbytes, hR x hP⟩

theorem consumes_pure (h : R x []) : Consumes R (pure x : EStateM ε Cursor α) := by
  intro c y c' hread
  obtain ⟨rfl, rfl⟩ := EStateM.Result.ok.inj hread
  exact ⟨[], rfl, h⟩

theorem Sound.bind (h : Sound P enc d) {f : α → EStateM ε Cursor β} {R : β → List UInt8 → Prop}
    (hf : ∀ x, P x → Consumes (fun y b => R y (enc x ++ b)) (f x)) : Consumes R (d >>= f) := by
  intro c y c' hread
  obtain ⟨x, c₁, hx, hread⟩ := Abort.bind_eq_ok.mp hread
  obtain ⟨hP, hbytes⟩ := h c x c₁ hx
  obtain ⟨b, hbytes', hR⟩ := hf x hP c₁ y c' hread
  exact ⟨enc x ++ b, by rw [hbytes, hbytes', List.append_assoc], hR⟩

theorem consumes_throw (e : ε) : Consumes R (throw e : EStateM ε Cursor α) := nofun

end Sound

section Items

def items : ℕ → EStateM ε Cursor α → EStateM ε Cursor (List α)
  | 0, _ => pure []
  | n + 1, d => do
    let x ← d
    let xs ← items n d
    return x :: xs

variable {P good : α → Prop} {enc : α → List UInt8} {d : EStateM ε Cursor α}

theorem items_map (f : α → β) (n : ℕ) (d : EStateM ε Cursor α) :
    items n (d >>= fun x => pure (f x)) = items n d >>= fun xs => pure (xs.map f) := by
  induction n with
  | zero => rfl
  | succ n ih => simp only [items, ih, bind_assoc, pure_bind, List.map_cons]

theorem answers_items (xs : List α) (h : ∀ x ∈ xs, Answers (good x) d (enc x) x) :
    Answers (∀ x ∈ xs, good x) (items xs.length d) (xs.flatMap enc) xs := by
  induction xs with
  | nil => exact (decodes_pure []).congr (by simp)
  | cons x xs ih =>
    have hfirst := h x List.mem_cons_self
    have hrest := ih fun y hy => h y (List.mem_cons_of_mem x hy)
    rw [List.flatMap_cons]
    exact (hfirst.bind (hrest.pack (x :: ·))).congr (by simp)

theorem sound_items (h : Sound P enc d) (n : ℕ) :
    Sound (fun xs => xs.length = n ∧ ∀ x ∈ xs, P x) (·.flatMap enc) (items n d) := by
  induction n with
  | zero =>
    intro c xs c' hread
    obtain ⟨rfl, rfl⟩ := EStateM.Result.ok.inj hread
    simp
  | succ n ih =>
    intro c xs c' hread
    obtain ⟨x, c₁, hx, hread⟩ := Abort.bind_eq_ok.mp hread
    obtain ⟨rest, c₂, hrest, hread⟩ := Abort.bind_eq_ok.mp hread
    obtain ⟨rfl, rfl⟩ := EStateM.Result.ok.inj hread
    obtain ⟨hP, hbytes⟩ := h c x c₁ hx
    obtain ⟨⟨hlength, hall⟩, hbytes'⟩ := ih c₁ rest c₂ hrest
    refine ⟨⟨by rw [List.length_cons, hlength], ?_⟩, ?_⟩
    · intro y hy
      rcases List.mem_cons.mp hy with rfl | hy
      · exact hP
      · exact hall y hy
    · change c.rest = (x :: rest).flatMap enc ++ c₂.rest
      rw [hbytes, hbytes', List.flatMap_cons, List.append_assoc]

end Items

section Lawful

/-- A reader and a writer of one format: the values of `P` that are `good` are read back, the others
of `P` are refused, and nothing is read that is not the writing of such a value. -/
structure Lawful (P good : α → Prop) (enc : α → List UInt8) (d : EStateM ε Cursor α) : Prop where
  answers : ∀ x, P x → Answers (good x) d (enc x) x
  sound : Sound (fun x => P x ∧ good x) enc d

variable {P good : α → Prop} {enc : α → List UInt8} {d : EStateM ε Cursor α}

theorem Lawful.congr {P' good' : α → Prop} (h : Lawful P good enc d) (hP : ∀ x, P x ↔ P' x)
    (hgood : ∀ x, good x ↔ good' x) : Lawful P' good' enc d := by
  obtain rfl : P = P' := funext fun x => propext (hP x)
  obtain rfl : good = good' := funext fun x => propext (hgood x)
  exact h

theorem Lawful.reads (h : Lawful P good enc d) {x : α} (hx : P x) (hgood : good x) :
    Decodes d (enc x) x :=
  (h.answers x hx).congr (by simp [hgood])

theorem Lawful.consumes (h : Lawful P good enc d) {f : α → EStateM ε Cursor β}
    {R : β → List UInt8 → Prop}
    (hf : ∀ x, P x → good x → Consumes (fun y b => R y (enc x ++ b)) (f x)) :
    Consumes R (d >>= f) :=
  h.sound.bind fun x hx => hf x hx.1 hx.2

theorem Lawful.consumes_last (h : Lawful P good enc d) {f : α → β} {R : β → List UInt8 → Prop}
    (hf : ∀ x, P x → good x → R (f x) (enc x)) : Consumes R (d >>= fun x => pure (f x)) :=
  h.consumes fun x hP hgood => consumes_pure (by simpa using hf x hP hgood)

theorem Lawful.injective (h : Lawful P good enc d) {x y : α} (hx : P x) (hy : P y) (hgx : good x)
    (hgy : good y) (heq : enc x = enc y) : x = y := by
  have hreadx := (h.answers x hx [] 0).1 hgx
  have hready := (h.answers y hy [] 0).1 hgy
  rw [heq, hready] at hreadx
  exact (EStateM.Result.ok.inj hreadx).1.symm

end Lawful

section Delimits

variable {P : α → Prop} {enc : α → List UInt8}

/-- Written values can be told from what follows them. -/
def Delimits (P : α → Prop) (enc : α → List UInt8) : Prop :=
  ∀ x y r r', P x → P y → enc x ++ r = enc y ++ r' → x = y ∧ r = r'

theorem Lawful.delimits {d : EStateM ε Cursor α} (h : Lawful P (fun _ => True) enc d) :
    Delimits P enc := by
  intro x y r r' hx hy heq
  have hreadx := (h.answers x hx r 0).1 trivial
  have hready := (h.answers y hy r' 0).1 trivial
  rw [heq, hready] at hreadx
  obtain ⟨rfl, hcursor⟩ := EStateM.Result.ok.inj hreadx
  exact ⟨rfl, (congrArg Cursor.rest hcursor).symm⟩

theorem Delimits.append {P' : β → Prop} {enc' : β → List UInt8} (h : Delimits P enc)
    (h' : Delimits P' enc') :
    Delimits (fun x => P x.1 ∧ P' x.2) (fun x : α × β => enc x.1 ++ enc' x.2) := by
  intro x y r r' hx hy heq
  simp only [List.append_assoc] at heq
  obtain ⟨hfst, heq⟩ := h _ _ _ _ hx.1 hy.1 heq
  obtain ⟨hsnd, hrest⟩ := h' _ _ _ _ hx.2 hy.2 heq
  exact ⟨Prod.ext hfst hsnd, hrest⟩

theorem Delimits.map {Q : β → Prop} {enc' : β → List UInt8} (h : Delimits P enc) (f : β → α)
    (henc : ∀ x, enc' x = enc (f x)) (hfits : ∀ x, Q x → P (f x))
    (hinj : ∀ x y, Q x → Q y → f x = f y → x = y) : Delimits Q enc' := by
  intro x y r r' hx hy heq
  rw [henc, henc] at heq
  obtain ⟨hsame, hrest⟩ := h _ _ _ _ (hfits x hx) (hfits y hy) heq
  exact ⟨hinj x y hx hy hsame, hrest⟩

theorem Delimits.items (h : Delimits P enc) {xs ys : List α} {r r' : List UInt8}
    (hlength : xs.length = ys.length) (hxs : ∀ x ∈ xs, P x) (hys : ∀ y ∈ ys, P y)
    (heq : xs.flatMap enc ++ r = ys.flatMap enc ++ r') : xs = ys ∧ r = r' := by
  induction xs generalizing ys with
  | nil =>
    obtain rfl := List.eq_nil_of_length_eq_zero hlength.symm
    exact ⟨rfl, heq⟩
  | cons x xs ih =>
    cases ys with
    | nil => simp at hlength
    | cons y ys =>
      simp only [List.flatMap_cons, List.append_assoc] at heq
      obtain ⟨hxy, hrest⟩ := h _ _ _ _ (hxs x List.mem_cons_self) (hys y List.mem_cons_self) heq
      obtain ⟨hitems, hend⟩ := ih (by simpa using hlength)
        (fun x hx => hxs x (List.mem_cons_of_mem _ hx)) (fun y hy => hys y (List.mem_cons_of_mem _ hy))
        hrest
      exact ⟨by rw [hxy, hitems], hend⟩

def DelimitsOk (P : α → Prop) (enc : α → Except ε (List UInt8)) : Prop :=
  ∀ x y b b' r r', P x → P y → enc x = .ok b → enc y = .ok b' → b ++ r = b' ++ r' → x = y ∧ r = r'

end Delimits

end Codec
