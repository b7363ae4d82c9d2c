import Mathlib

/-!
# Paths that form a tree

A set of lists is a tree when what stands below an element is the same wherever the element occurs.
Cutting paths short keeps a tree, and so does putting one new element on top of one path.
-/

namespace Forest

variable {α : Type} {S S' : Set (List α)}

def IsTree (S : Set (List α)) : Prop :=
  ∀ s ∈ S, ∀ t ∈ S, ∀ (x : α) (p q : List α), p ++ [x] <+: s → q ++ [x] <+: t → p = q

theorem isTree_empty : IsTree (∅ : Set (List α)) := fun _ h => h.elim

/-- Every path of `S'` is empty or an initial part of a path of `S`. -/
theorem IsTree.shrink (hS : IsTree S) (h : ∀ s ∈ S', s = [] ∨ ∃ t ∈ S, s <+: t) :
    IsTree S' := by
  intro s hs t ht x p q hp hq
  rcases h s hs with rfl | ⟨s₀, hs₀, hss⟩
  · simp at hp
  · rcases h t ht with rfl | ⟨t₀, ht₀, htt⟩
    · simp at hq
    · exact hS s₀ hs₀ t₀ ht₀ x p q (hp.trans hss) (hq.trans htt)

/-- Every path of `S'` is empty, an initial part of a path of `S`, or the path `t` with a new
element on top. -/
theorem IsTree.grow (hS : IsTree S) {t : List α} (ht : ∃ s ∈ S, t <+: s)
    (h : ∀ s ∈ S', s = [] ∨ (∃ u ∈ S, s <+: u) ∨ ∃ x, s = t ++ [x] ∧ ∀ u ∈ S, x ∉ u) :
    IsTree S' := by
  have hnew : ∀ s ∈ S', ∀ p y, p ++ [y] <+: s →
      (∃ u ∈ S, p ++ [y] <+: u) ∨ (p = t ∧ ∀ u ∈ S, y ∉ u) := by
    intro s hs p y hp
    rcases h s hs with rfl | ⟨u, hu, hsu⟩ | ⟨x, rfl, hx⟩
    · simp at hp
    · exact Or.inl ⟨u, hu, hp.trans hsu⟩
    · obtain ⟨u, hu, htu⟩ := ht
      rcases List.prefix_concat_iff.mp hp with he | he
      · obtain ⟨rfl, he⟩ := List.append_inj' he rfl
        obtain rfl : y = x := by simpa using he
        exact Or.inr ⟨rfl, hx⟩
      · exact Or.inl ⟨u, hu, he.trans htu⟩
  have hin : ∀ u ∈ S, ∀ p y, p ++ [y] <+: u → y ∈ u := fun u _ p y hp => hp.subset (by simp)
  intro s hs r hr y p q hp hq
  rcases hnew s hs p y hp with ⟨u, hu, hpu⟩ | ⟨rfl, hy⟩
  · rcases hnew r hr q y hq with ⟨v, hv, hqv⟩ | ⟨rfl, hy⟩
    · exact hS u hu v hv y p q hpu hqv
    · exact absurd (hin u hu p y hpu) (hy u hu)
  · rcases hnew r hr q y hq with ⟨v, hv, hqv⟩ | ⟨rfl, -⟩
    · exact absurd (hin v hv q y hqv) (hy v hv)
    · rfl

theorem IsTree.nodup (hS : IsTree S) {s : List α} (hs : s ∈ S) : s.Nodup := by
  suffices h : ∀ p, p <+: s → p.Nodup from h s List.prefix_rfl
  intro p
  induction p using List.reverseRecOn with
  | nil => simp
  | append_singleton p x ih =>
    intro hp
    refine List.nodup_append.mpr ⟨ih ((List.prefix_append p [x]).trans hp), by simp, ?_⟩
    rintro a ha b hb rfl
    obtain rfl : a = x := by simpa using hb
    obtain ⟨u, v, rfl⟩ := List.append_of_mem ha
    have hu : u ++ [a] <+: s := by
      refine List.IsPrefix.trans ⟨v ++ [a], ?_⟩ hp
      simp
    have := congrArg List.length (hS s hs s hs a u (u ++ a :: v) hu hp)
    simp at this

theorem prefix_of_split {s p q : List α} {x : α} (h : s = p ++ x :: q) : p ++ [x] <+: s :=
  ⟨q, by simp [h]⟩

theorem IsTree.below_eq (hS : IsTree S) {s t p q p' q' : List α} {x : α} (hs : s ∈ S) (ht : t ∈ S)
    (hp : s = p ++ x :: q) (hq : t = p' ++ x :: q') : p = p' :=
  hS s hs t ht x p p' (prefix_of_split hp) (prefix_of_split hq)

theorem IsTree.mem_below (hS : IsTree S) {s t p q : List α} {x y : α} (hs : s ∈ S) (ht : t ∈ S)
    (hp : s = p ++ y :: q) (hx : x ∈ p) (hy : y ∈ t) : ∃ p' q', t = p' ++ y :: q' ∧ x ∈ p' := by
  obtain ⟨p', q', hq⟩ := List.append_of_mem hy
  exact ⟨p', q', hq, hS.below_eq hs ht hp hq ▸ hx⟩

end Forest
