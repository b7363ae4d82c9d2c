import Mathlib

/-!
# Tree maps as finite functions

What the lookups of an extensional tree map are after a fold of insertions or deletions, which
values it holds, and when it is rebuilt from its values. A map of pairs holds one map for each first
component (`Slice`). `bind_eq_ok` takes a computation that succeeded apart.
-/

namespace Maps

open Std

section Values

variable {κ ν : Type} {cmp : κ → κ → Ordering} [TransCmp cmp]

theorem foldr_values (t : DTreeMap.Internal.Impl κ (fun _ => ν)) (acc : List (κ × ν)) :
    t.foldr (fun _ v l => v :: l) (acc.map Prod.snd) =
      (t.foldr (fun k v l => (k, v) :: l) acc).map Prod.snd := by
  induction t generalizing acc with
  | leaf => rfl
  | inner s k v l r ihl ihr =>
    calc l.foldr (fun _ v l => v :: l) (v :: r.foldr (fun _ v l => v :: l) (acc.map Prod.snd))
        = l.foldr (fun _ v l => v :: l)
            (((k, v) :: r.foldr (fun k v l => (k, v) :: l) acc).map Prod.snd) := by
          rw [ihr, List.map_cons]
      _ = _ := ihl _

theorem values_eq_map_toList (m : ExtTreeMap κ ν cmp) : m.values = m.toList.map Prod.snd := by
  obtain ⟨m⟩ := m
  induction m using ExtDTreeMap.inductionOn with
  | mk m => exact foldr_values m.inner []

variable [LawfulEqCmp cmp]

theorem mem_values {m : ExtTreeMap κ ν cmp} {v : ν} :
    v ∈ m.values ↔ ∃ k : κ, m[k]? = some v := by
  simp [values_eq_map_toList, ExtTreeMap.mem_toList_iff_getElem?_eq_some]

end Values

section Folds

variable {κ ν : Type} {cmp : κ → κ → Ordering} [TransCmp cmp] [LawfulEqCmp cmp] [DecidableEq κ]
  {key : ν → κ} {m : ExtTreeMap κ ν cmp}

theorem getElem?_insert (m : ExtTreeMap κ ν cmp) (k a : κ) (v : ν) :
    (m.insert k v)[a]? = if k = a then some v else m[a]? := by
  simp [ExtTreeMap.getElem?_insert]

theorem getElem?_erase (m : ExtTreeMap κ ν cmp) (k a : κ) :
    (m.erase k)[a]? = if k = a then none else m[a]? := by
  simp [ExtTreeMap.getElem?_erase]

theorem getElem?_insertIfNew (m : ExtTreeMap κ ν cmp) (k a : κ) (v : ν) :
    (m.insertIfNew k v)[a]? = if k = a then m[a]?.or (some v) else m[a]? := by
  rw [ExtTreeMap.getElem?_insertIfNew]
  by_cases hk : k = a
  · subst hk
    by_cases hmem : k ∈ m
    · simp [hmem]
    · simp [hmem]
  · simp [hk]

theorem insertIfNew_of_mem {k : κ} {u : ν} (h : m[k]? = some u) (v : ν) :
    m.insertIfNew k v = m := by
  refine ExtTreeMap.ext_getElem? fun a => ?_
  rw [getElem?_insertIfNew]
  by_cases hk : k = a
  · simp [← hk, h]
  · simp [hk]

theorem insertIfNew_of_not_mem {k : κ} (h : m[k]? = none) (v : ν) :
    m.insertIfNew k v = m.insert k v := by
  refine ExtTreeMap.ext_getElem? fun a => ?_
  rw [getElem?_insertIfNew, getElem?_insert]
  by_cases hk : k = a
  · simp [← hk, h]
  · simp [hk]

omit [DecidableEq κ] in
theorem getElem?_filter (m : ExtTreeMap κ ν cmp) (f : κ → ν → Bool) (a : κ) :
    (m.filter f)[a]? = m[a]?.filter (f a) := by
  simp only [ExtTreeMap.getElem?_filter, ExtTreeMap.getKey_eq, Option.pfilter_eq_filter]

theorem getElem?_foldl_put {α : Type} (key : α → κ) (val : α → ν) (xs : List α)
    (m : ExtTreeMap κ ν cmp) (k : κ) :
    (xs.foldl (fun m x => m.insert (key x) (val x)) m)[k]? =
      ((xs.reverse.find? (fun x => key x = k)).map val).or m[k]? := by
  induction xs generalizing m with
  | nil => simp
  | cons x xs ih =>
    rw [List.foldl_cons, ih, getElem?_insert, List.reverse_cons, List.find?_append]
    by_cases hk : key x = k <;> cases xs.reverse.find? (fun x => key x = k) <;> simp [hk]

theorem getElem?_foldl_insert (key : ν → κ) (vs : List ν) (m : ExtTreeMap κ ν cmp) (k : κ) :
    (vs.foldl (fun m v => m.insert (key v) v) m)[k]? =
      (vs.reverse.find? (fun v => key v = k)).or m[k]? := by
  have hfold := getElem?_foldl_put key (fun v => v) vs m k
  rwa [Option.map_id'] at hfold

theorem getElem?_foldl_erase (ks : List κ) (m : ExtTreeMap κ ν cmp) (k : κ) :
    (ks.foldl (fun m k => m.erase k) m)[k]? = if k ∈ ks then none else m[k]? := by
  induction ks generalizing m with
  | nil => simp
  | cons a ks ih =>
    rw [List.foldl_cons, ih, getElem?_erase]
    by_cases hk : k ∈ ks
    · simp [hk]
    · by_cases ha : a = k
      · simp [ha]
      · simp [hk, ha, Ne.symm ha]

/-- Every value is held under its own key. -/
def Keyed (key : ν → κ) (m : ExtTreeMap κ ν cmp) : Prop :=
  ∀ (k : κ) (v : ν), m[k]? = some v → key v = k

omit [LawfulEqCmp cmp] [DecidableEq κ] in
theorem keyed_empty (key : ν → κ) : Keyed key (∅ : ExtTreeMap κ ν cmp) := by
  intro k v h
  simp at h

theorem Keyed.insert (hm : Keyed key m) {k : κ} {v : ν}
    (hv : key v = k) : Keyed key (m.insert k v) := by
  intro a u h
  rw [getElem?_insert] at h
  by_cases hk : k = a
  · rw [if_pos hk, Option.some.injEq] at h
    exact h ▸ hv.trans hk
  · exact hm a u (by simpa [hk] using h)

theorem Keyed.erase (hm : Keyed key m) (k : κ) :
    Keyed key (m.erase k) := by
  intro a u h
  rw [getElem?_erase] at h
  by_cases hk : k = a
  · simp [hk] at h
  · exact hm a u (by simpa [hk] using h)

theorem keyed_foldl_insert (vs : List ν)
    (hm : Keyed key m) : Keyed key (vs.foldl (fun m v => m.insert (key v) v) m) := by
  induction vs generalizing m with
  | nil => exact hm
  | cons v vs ih => exact ih (hm.insert rfl)

theorem foldl_insert_values (hm : Keyed key m) :
    m.values.foldl (fun m v => m.insert (key v) v) ∅ = m := by
  refine ExtTreeMap.ext_getElem? fun k => ?_
  rw [getElem?_foldl_insert]
  cases hf : m.values.reverse.find? (fun v => key v = k) with
  | some v =>
    have hk : key v = k := by simpa using List.find?_some hf
    obtain ⟨a, ha⟩ := mem_values.mp (List.mem_reverse.mp (List.mem_of_find?_eq_some hf))
    have hak : a = k := (hm a v ha).symm.trans hk
    simp [← hak, ha]
  | none =>
    cases hk : m[k]? with
    | none => simp
    | some v =>
      have hv : v ∈ m.values.reverse := List.mem_reverse.mpr (mem_values.mpr ⟨k, hk⟩)
      have := List.find?_eq_none.mp hf v hv
      simp [hm k v hk] at this

omit [DecidableEq κ] in
theorem find?_values (hm : Keyed key m) {p : ν → Bool}
    {v : ν} (h : m.values.find? p = some v) :
    m[key v]? = some v ∧ p v ∧ ∀ u, m[key u]? = some u → p u → (cmp (key v) (key u)).isLE := by
  have hmem : ∀ u, u ∈ m.values ↔ m[key u]? = some u := by
    intro u
    refine mem_values.trans ⟨?_, fun hu => ⟨key u, hu⟩⟩
    rintro ⟨k, hk⟩
    rwa [hm k u hk]
  have hsorted : m.values.Pairwise (fun a b => cmp (key a) (key b) = .lt) := by
    rw [values_eq_map_toList, List.pairwise_map]
    refine ExtTreeMap.ordered_keys_toList.imp_of_mem fun {a b} ha hb hlt => ?_
    rw [ExtTreeMap.mem_toList_iff_getElem?_eq_some] at ha hb
    rwa [hm a.1 a.2 ha, hm b.1 b.2 hb]
  obtain ⟨hv, before, rest, hsplit, hbefore⟩ := List.find?_eq_some_iff_append.mp h
  refine ⟨(hmem v).mp (List.mem_of_find?_eq_some h), hv, fun u hu hpu => ?_⟩
  rw [← hmem, hsplit, List.mem_append, List.mem_cons] at hu
  rcases hu with hu | rfl | hu
  · simpa [hpu] using hbefore u hu
  · exact ReflCmp.isLE_rfl
  · rw [hsplit, List.pairwise_append, List.pairwise_cons] at hsorted
    rw [hsorted.2.1.1 u hu]
    rfl

end Folds

theorem mem_foldl_insert {κ : Type} {cmp : κ → κ → Ordering} [TransCmp cmp] [LawfulEqCmp cmp]
    (xs : List κ) (s : ExtTreeSet κ cmp) (a : κ) :
    a ∈ xs.foldl (fun s x => s.insert x) s ↔ a ∈ s ∨ a ∈ xs := by
  induction xs generalizing s with
  | nil => simp
  | cons x xs ih =>
    simp only [List.foldl_cons, ih, ExtTreeSet.mem_insert, LawfulEqCmp.compare_eq_iff_eq,
      List.mem_cons, eq_comm (a := x)]
    tauto

section Sorted

variable {κ ν α : Type} {cmp : κ → κ → Ordering} [TransCmp cmp]

theorem eq_of_sorted_of_mem_iff {lt : α → α → Prop} (hasymm : ∀ a b, lt a b → ¬ lt b a)
    {xs ys : List α} (hxs : xs.Pairwise lt) (hys : ys.Pairwise lt) (h : ∀ a, a ∈ xs ↔ a ∈ ys) :
    xs = ys := by
  have hne : ∀ {a b}, lt a b → a ≠ b := by
    rintro a _ hlt rfl
    exact hasymm a a hlt hlt
  have hperm : xs.Perm ys := (List.perm_ext_iff_of_nodup (hxs.imp hne) (hys.imp hne)).mpr h
  refine hperm.eq_of_pairwise (fun a b _ _ hab hba => ?_) hxs hys
  exact absurd hba (hasymm a b hab)

theorem lt_asymm_of_trans {a b : κ} (h : cmp a b = .lt) : ¬ cmp b a = .lt := by
  have hswap : cmp b a = (cmp a b).swap := OrientedCmp.eq_swap
  rw [hswap, h]
  simp

variable [LawfulEqCmp cmp]

theorem foldl_insert_toList (s : ExtTreeSet κ cmp) :
    s.toList.foldl (fun s x => s.insert x) ∅ = s := by
  refine ExtTreeSet.ext_mem fun a => ?_
  rw [mem_foldl_insert, ExtTreeSet.mem_toList]
  simp

theorem toList_foldl_insert {xs : List κ} (hxs : xs.Pairwise (fun a b => cmp a b = .lt)) :
    (xs.foldl (fun s x => s.insert x) (∅ : ExtTreeSet κ cmp)).toList = xs := by
  refine eq_of_sorted_of_mem_iff (fun a b => lt_asymm_of_trans) ExtTreeSet.ordered_toList hxs ?_
  intro a
  rw [ExtTreeSet.mem_toList, mem_foldl_insert]
  simp

theorem length_toList_foldl_insert_le (xs : List κ) :
    (xs.foldl (fun s x => s.insert x) (∅ : ExtTreeSet κ cmp)).toList.length ≤ xs.length := by
  have hnodup : (xs.foldl (fun s x => s.insert x) (∅ : ExtTreeSet κ cmp)).toList.Nodup := by
    refine ExtTreeSet.ordered_toList.imp ?_
    rintro a _ hlt rfl
    exact lt_asymm_of_trans hlt hlt
  refine (List.subperm_of_subset hnodup fun a ha => ?_).length_le
  rw [ExtTreeSet.mem_toList, mem_foldl_insert] at ha
  simpa using ha

variable (key : α → κ)

omit [LawfulEqCmp cmp] in
theorem nodup_keys_of_sorted {xs : List α}
    (hxs : xs.Pairwise (fun a b => cmp (key a) (key b) = .lt)) : (xs.map key).Nodup := by
  refine List.pairwise_map.mpr (hxs.imp ?_)
  intro a b hlt heq
  rw [heq] at hlt
  exact lt_asymm_of_trans hlt hlt

variable [DecidableEq κ] (val : α → ν)

theorem exists_of_getElem?_foldl_put {xs : List α} {k : κ} {v : ν}
    (h : (xs.foldl (fun m x => m.insert (key x) (val x)) (∅ : ExtTreeMap κ ν cmp))[k]? = some v) :
    ∃ x ∈ xs, key x = k ∧ val x = v := by
  rw [getElem?_foldl_put] at h
  simp only [ExtTreeMap.getElem?_empty, Option.or_none, Option.map_eq_some_iff] at h
  obtain ⟨x, hx, rfl⟩ := h
  have hkey : key x = k := by simpa using List.find?_some hx
  exact ⟨x, List.mem_reverse.mp (List.mem_of_find?_eq_some hx), hkey, rfl⟩

theorem getElem?_foldl_put_eq {xs : List α} {k : κ} {o : Option ν}
    (h : ∀ v, o = some v ↔ ∃ x ∈ xs, key x = k ∧ val x = v) :
    (xs.foldl (fun m x => m.insert (key x) (val x)) (∅ : ExtTreeMap κ ν cmp))[k]? = o := by
  cases hfold : (xs.foldl (fun m x => m.insert (key x) (val x)) (∅ : ExtTreeMap κ ν cmp))[k]? with
  | some v => exact ((h v).mpr (exists_of_getElem?_foldl_put key val hfold)).symm
  | none =>
    cases ho : o with
    | none => rfl
    | some v =>
      obtain ⟨x, hx, hkey, -⟩ := (h v).mp ho
      rw [getElem?_foldl_put, Option.or_eq_none_iff, Option.map_eq_none_iff,
        List.find?_eq_none] at hfold
      exact absurd (by simpa using hkey) (hfold.1 x (List.mem_reverse.mpr hx))

theorem getElem?_foldl_put_of_mem {xs : List α}
    (hxs : xs.Pairwise (fun a b => cmp (key a) (key b) = .lt)) {x : α} (hx : x ∈ xs) :
    (xs.foldl (fun m x => m.insert (key x) (val x)) (∅ : ExtTreeMap κ ν cmp))[key x]? =
      some (val x) := by
  have hunique := List.inj_on_of_nodup_map (nodup_keys_of_sorted key hxs)
  rw [getElem?_foldl_put]
  cases hfind : xs.reverse.find? (fun y => key y = key x) with
  | none =>
    have hnone := List.find?_eq_none.mp hfind x (List.mem_reverse.mpr hx)
    simp at hnone
  | some y =>
    have hkey : key y = key x := by simpa using List.find?_some hfind
    have hy : y ∈ xs := List.mem_reverse.mp (List.mem_of_find?_eq_some hfind)
    simp [hunique hy hx hkey]

theorem toList_foldl_put {xs : List α}
    (hxs : xs.Pairwise (fun a b => cmp (key a) (key b) = .lt)) :
    (xs.foldl (fun m x => m.insert (key x) (val x)) (∅ : ExtTreeMap κ ν cmp)).toList =
      xs.map fun x => (key x, val x) := by
  refine eq_of_sorted_of_mem_iff (fun (a b : κ × ν) => lt_asymm_of_trans)
    ExtTreeMap.ordered_keys_toList (List.pairwise_map.mpr hxs) ?_
  rintro ⟨k, v⟩
  rw [ExtTreeMap.mem_toList_iff_getElem?_eq_some, List.mem_map]
  constructor
  · intro h
    obtain ⟨x, hx, rfl, rfl⟩ := exists_of_getElem?_foldl_put key val h
    exact ⟨x, hx, rfl⟩
  · rintro ⟨x, hx, hkv⟩
    obtain ⟨rfl, rfl⟩ := Prod.mk.inj hkv
    exact getElem?_foldl_put_of_mem key val hxs hx

theorem length_toList_foldl_put_le (xs : List α) :
    (xs.foldl (fun m x => m.insert (key x) (val x)) (∅ : ExtTreeMap κ ν cmp)).toList.length ≤
      xs.length := by
  set m := xs.foldl (fun m x => m.insert (key x) (val x)) (∅ : ExtTreeMap κ ν cmp) with hm
  have hnodup := (nodup_keys_of_sorted Prod.fst m.ordered_keys_toList).of_map
  have hsubset : m.toList ⊆ xs.map fun x => (key x, val x) := by
    rintro ⟨k, v⟩ hkv
    obtain ⟨x, hx, rfl, rfl⟩ := exists_of_getElem?_foldl_put key val
      (ExtTreeMap.mem_toList_iff_getElem?_eq_some.mp hkv)
    exact List.mem_map_of_mem hx
  have hlength := (List.subperm_of_subset hnodup hsubset).length_le
  rwa [List.length_map] at hlength

theorem foldl_put_toList (m : ExtTreeMap κ ν cmp) :
    m.toList.foldl (fun m entry => m.insert entry.1 entry.2) ∅ = m := by
  refine ExtTreeMap.ext_getElem? fun k => ?_
  cases hk : m[k]? with
  | some v =>
    have hmem : (k, v) ∈ m.toList := ExtTreeMap.mem_toList_iff_getElem?_eq_some.mpr hk
    exact getElem?_foldl_put_of_mem Prod.fst Prod.snd ExtTreeMap.ordered_keys_toList hmem
  | none =>
    cases hfold : (m.toList.foldl (fun m entry => m.insert entry.1 entry.2)
        (∅ : ExtTreeMap κ ν cmp))[k]? with
    | none => rfl
    | some v =>
      obtain ⟨entry, hentry, rfl, rfl⟩ := exists_of_getElem?_foldl_put Prod.fst Prod.snd hfold
      have hsome := ExtTreeMap.mem_toList_iff_getElem?_eq_some.mp hentry
      rw [hk] at hsome
      cases hsome

end Sorted

section Slices

variable {ι κ ν α : Type} {cmp : ι × κ → ι × κ → Ordering} {cmp' : κ → κ → Ordering}
  [TransCmp cmp] [LawfulEqCmp cmp] [TransCmp cmp']

/-- The entries of a map of pairs under one first component are a map of their own. -/
def Slice (rows : ExtTreeMap (ι × κ) ν cmp) (x : ι) (m : ExtTreeMap κ ν cmp') : Prop :=
  ∀ k : κ, rows[(x, k)]? = m[k]?

variable {rows : ExtTreeMap (ι × κ) ν cmp} {x y : ι} {m : ExtTreeMap κ ν cmp'}

variable [DecidableEq ι]

theorem Slice.clear (rows : ExtTreeMap (ι × κ) ν cmp) (x : ι) :
    Slice (rows.filter (fun row _ => decide (row.1 ≠ x))) x (∅ : ExtTreeMap κ ν cmp') := by
  intro k
  rw [getElem?_filter]
  cases rows[(x, k)]? with
  | none => simp
  | some v => simp

variable [DecidableEq κ]

variable [LawfulEqCmp cmp']

theorem Slice.insert (h : Slice rows x m) (k : κ) (v : ν) :
    Slice (rows.insert (x, k) v) x (m.insert k v) := by
  intro a
  rw [getElem?_insert, getElem?_insert, h a]
  simp [Prod.mk.injEq]

theorem Slice.erase (h : Slice rows x m) (k : κ) : Slice (rows.erase (x, k)) x (m.erase k) := by
  intro a
  rw [getElem?_erase, getElem?_erase, h a]
  simp [Prod.mk.injEq]

theorem Slice.foldl_values (h : Slice rows x m) {key : ν → κ} (hkeyed : Keyed key m) :
    (rows.filter (fun row _ => decide (row.1 = x))).values.foldl
      (fun m v => m.insert (key v) v) ∅ = m := by
  refine ExtTreeMap.ext_getElem? fun k => ?_
  refine getElem?_foldl_put_eq key (fun v => v) fun v => ?_
  simp only [mem_values, getElem?_filter, Option.filter_eq_some_iff, decide_eq_true_eq]
  constructor
  · intro hv
    exact ⟨v, ⟨(x, k), (h k).trans hv, rfl⟩, hkeyed k v hv, rfl⟩
  · rintro ⟨v', ⟨⟨x', k'⟩, hrow, rfl⟩, hkey, rfl⟩
    rw [h k'] at hrow
    rw [← hkey, hkeyed k' v' hrow]
    exact hrow

theorem Slice.foldl_toList (h : Slice rows x m) :
    (rows.filter (fun row _ => decide (row.1 = x))).toList.foldl
      (fun m row => m.insert row.1.2 row.2) ∅ = m := by
  refine ExtTreeMap.ext_getElem? fun k => ?_
  refine getElem?_foldl_put_eq (fun row : (ι × κ) × ν => row.1.2) Prod.snd fun v => ?_
  simp only [Prod.exists, ExtTreeMap.mem_toList_iff_getElem?_eq_some, getElem?_filter,
    Option.filter_eq_some_iff, decide_eq_true_eq]
  constructor
  · intro hv
    exact ⟨x, k, v, ⟨(h k).trans hv, rfl⟩, rfl, rfl⟩
  · rintro ⟨x', k', v', ⟨hrow, rfl⟩, rfl, rfl⟩
    exact (h k').symm.trans hrow

end Slices

theorem bind_eq_ok {ε α β : Type} {x : Except ε α} {f : α → Except ε β} {b : β} :
    x >>= f = .ok b ↔ ∃ a, x = .ok a ∧ f a = .ok b := by
  cases x with
  | error e => simp [bind, Except.bind]
  | ok a => simp [bind, Except.bind]

@[simp] theorem pure_eq_ok {ε α : Type} {a b : α} :
    (pure a : Except ε α) = .ok b ↔ a = b := by
  simp [pure, Except.pure]

@[simp] theorem throw_eq_ok {ε α : Type} {e : ε} {a : α} :
    (throw e : Except ε α) = .ok a ↔ False := by
  simp [throw, throwThe, MonadExceptOf.throw]

theorem when_eq_ok {ε β : Type} {p : Prop} [Decidable p] {x : Except ε Unit}
    {k : Unit → Except ε β} {b : β} :
    (if p then x >>= k else k ()) = .ok b ↔ (p → x = .ok ()) ∧ k () = .ok b := by
  by_cases hp : p
  · rw [if_pos hp, bind_eq_ok]
    exact ⟨fun ⟨_, hx, hk⟩ => ⟨fun _ => hx, hk⟩, fun ⟨hx, hk⟩ => ⟨(), hx hp, hk⟩⟩
  · simp [hp]

theorem ite_error_eq_ok {ε α : Type} {p : Prop} [Decidable p] {e : ε} {x : Except ε α} {a : α} :
    (if p then .error e else x) = .ok a ↔ ¬ p ∧ x = .ok a := by
  by_cases hp : p <;> simp [hp]

theorem forM_eq_ok {ε α : Type} {f : α → Except ε Unit} {l : List α} :
    l.forM f = .ok ⟨⟩ ↔ ∀ a ∈ l, f a = .ok ⟨⟩ := by
  induction l with
  | nil => simp [List.forM, pure, Except.pure]
  | cons a l ih =>
    change (f a >>= fun _ => l.forM f) = .ok ⟨⟩ ↔ _
    rw [bind_eq_ok, List.forall_mem_cons, ← ih]
    exact ⟨fun ⟨_, ha, hl⟩ => ⟨ha, hl⟩, fun ⟨ha, hl⟩ => ⟨⟨⟩, ha, hl⟩⟩

theorem mapError_eq_ok {ε ε' α : Type} {x : Except ε α} {f : ε → ε'} {a : α} :
    x.mapError f = .ok a ↔ x = .ok a := by
  cases x <;> simp [Except.mapError]

end Maps
