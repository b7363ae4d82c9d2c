import Mathlib

/-!
# Searching a directed graph

Searches over the graph of a successor function. The depth-first search keeps the set of visited
nodes and the path to the current one, and stops at the first successor that stands on the path.
Where it finds nothing, the nodes it visited can be listed so that the successors of each come later
or were visited before (`Finished`). So it finds a cycle exactly when one can be reached outside the
nodes it started with (`seek_found_iff`). Whatever it finds, it visits the node it starts from and
only what can be reached from there (`Visits.of_seek`).
-/

namespace Search

open Relation Finset

variable {α : Type} (next : α → List α)

/-- An edge to a node outside `V`. -/
def Edge (V : Finset α) (x y : α) : Prop := y ∈ next x ∧ y ∉ V

/-- From `x` a cycle can be reached outside `V`. -/
def Cyclic (V : Finset α) (x : α) : Prop :=
  x ∉ V ∧ ∃ y, ReflTransGen (Edge next V) x y ∧ TransGen (Edge next V) y y

/-- Nodes in the order in which they were left, the last one first. -/
inductive Finished (B : α → Prop) : List α → Prop
  | nil : Finished B []
  | cons {x : α} {l : List α} (rest : Finished B l) (fresh : x ∉ l)
      (succ : ∀ y ∈ next x, B y ∨ y ∈ l) : Finished B (x :: l)

/-- What a find means: a cycle outside any nodes that the search and its path kept out of. -/
def Loops (V : Finset α) (q : List α) (x : α) : Prop :=
  (x ∈ q ∨ x ∉ V) ∧ ∀ V₀ ⊆ V, (∀ z ∈ q, z ∉ V₀ ∧ TransGen (Edge next V₀) z x) →
    ∃ y, ReflTransGen (Edge next V₀) x y ∧ TransGen (Edge next V₀) y y

/-- A search from `ys` goes from `V` to `V'` only by nodes that can be reached from `ys`. -/
structure Visits (ys : List α) (V V' : Finset α) : Prop where
  subset : V ⊆ V'
  reached : ∀ z ∈ V', z ∈ V ∨ ∃ y ∈ ys, ReflTransGen (Edge next ∅) y z

variable {next} {B B' : α → Prop} {l l' q queue ys : List α} {U V V' V₁ : Finset α} {x y : α}
  {fuel : ℕ}

theorem Cyclic.mono (h : Cyclic next V' x) (hV : V ⊆ V') : Cyclic next V x := by
  have hedge : Edge next V' ≤ Edge next V := fun _ _ h => ⟨h.1, fun hb => h.2 (hV hb)⟩
  obtain ⟨hx, y, hxy, hy⟩ := h
  exact ⟨fun h => hx (hV h), y, ReflTransGen.mono hedge _ _ hxy, TransGen.mono hedge _ _ hy⟩

/-- A cycle that nothing in `V` leads to is reached outside `V`. -/
theorem Cyclic.of_apart (hV : ∀ v ∈ V, ¬ ReflTransGen (Edge next ∅) v y)
    (hxy : ReflTransGen (Edge next ∅) x y) (hcycle : TransGen (Edge next ∅) y y) :
    Cyclic next V x := by
  have houtside : ∀ z, TransGen (Edge next ∅) z y → TransGen (Edge next V) z y := by
    intro z hz
    induction hz using TransGen.head_induction_on with
    | single hedge => exact .single ⟨hedge.1, fun hy => hV y hy .refl⟩
    | head hedge htail ih => exact .head ⟨hedge.1, fun hv => hV _ hv htail.to_reflTransGen⟩ ih
  refine ⟨fun hx => hV x hx hxy, y, ?_, houtside y hcycle⟩
  rcases reflTransGen_iff_eq_or_transGen.mp hxy with rfl | hxy
  · exact .refl
  · exact (houtside x hxy).to_reflTransGen

theorem Loops.cyclic (h : Loops next V [] x) : Cyclic next V x :=
  ⟨h.1.resolve_left (by simp), h.2 V subset_rfl (by simp)⟩

theorem Loops.mono (h : Loops next V' q x) (hV : V ⊆ V') : Loops next V q x :=
  ⟨h.1.imp_right fun hx hxV => hx (hV hxV), fun V₀ hV₀ => h.2 V₀ (hV₀.trans hV)⟩

theorem Loops.of_mem (hx : x ∈ q) : Loops next V q x :=
  ⟨.inl hx, fun _ _ h => ⟨x, .refl, (h x hx).2⟩⟩

namespace Visits

theorem refl : Visits next ys V V := ⟨subset_rfl, fun _ hz => .inl hz⟩

theorem trans (h : Visits next ys V V₁) (h' : Visits next ys V₁ V') : Visits next ys V V' :=
  ⟨h.subset.trans h'.subset, fun z hz => (h'.reached z hz).elim (h.reached z) .inr⟩

theorem mono {zs : List α} (h : Visits next zs V V') (hzs : zs ⊆ ys) : Visits next ys V V' :=
  ⟨h.subset, fun z hz => (h.reached z hz).imp_right fun ⟨y, hy, hyz⟩ => ⟨y, hzs hy, hyz⟩⟩

end Visits

namespace Finished

theorem append (h' : Finished next B' l') (h : Finished next B l)
    (hB : ∀ y, B' y → B y ∨ y ∈ l) (hnew : ∀ y ∈ l', y ∉ l) : Finished next B (l' ++ l) := by
  induction h' with
  | nil => exact h
  | @cons x l' _ fresh succ ih =>
    have hx := hnew x (by simp)
    refine .cons (ih fun y hy => hnew y (by simp [hy])) (by simp [fresh, hx]) fun y hy => ?_
    rcases succ y hy with hy | hy
    · exact (hB y hy).imp_right (List.mem_append_right _)
    · exact .inr (List.mem_append_left _ hy)

theorem mono (h : Finished next B' l) (hB : ∀ y, B' y → B y) : Finished next B l := by
  simpa using h.append .nil (fun y hy => .inl (hB y hy)) (by simp)

theorem mem_of_reaches (h : Finished next (· ∈ V) l) (hx : x ∈ l)
    (hxy : ReflTransGen (Edge next V) x y) : y ∈ l := by
  induction h generalizing x with
  | nil => cases hx
  | cons _ _ succ ih =>
    rcases List.mem_cons.mp hx with rfl | hx
    · rcases ReflTransGen.cases_head hxy with rfl | ⟨z, hxz, hzy⟩
      · exact hx
      · exact List.mem_cons_of_mem _ (ih ((succ z hxz.1).resolve_left hxz.2) hzy)
    · exact List.mem_cons_of_mem _ (ih hx hxy)

theorem acyclic (h : Finished next (· ∈ V) l) (hx : x ∈ l) : ¬ TransGen (Edge next V) x x := by
  induction h with
  | nil => cases hx
  | cons rest fresh succ ih =>
    rcases List.mem_cons.mp hx with rfl | hx
    · intro hcycle
      -- The first step leads among the nodes left before, and no edge leads back.
      obtain ⟨y, hxy, hyx⟩ := TransGen.head'_iff.mp hcycle
      exact fresh (rest.mem_of_reaches ((succ y hxy.1).resolve_left hxy.2) hyx)
    · exact ih hx

end Finished

variable [DecidableEq α]

theorem exists_closed {S : Finset α} (hS : ∀ x, next x ≠ [] → x ∈ S) (roots : Finset α) :
    ∃ U, roots ⊆ U ∧ ∀ x ∈ U, ∀ y ∈ next x, y ∈ U := by
  refine ⟨roots ∪ S.biUnion fun x => (next x).toFinset, subset_union_left, fun x _ y hy => ?_⟩
  have hx := hS x (List.ne_nil_of_mem hy)
  exact mem_union_right _ (mem_biUnion.mpr ⟨x, hx, List.mem_toFinset.mpr hy⟩)

variable (next) in
/-- What a search without a find leaves: the nodes of `l` are visited, and none leads to the path. -/
structure Clear (V : Finset α) (q : List α) (V' : Finset α) (l : List α) : Prop where
  finished : Finished next (fun y => y ∈ V ∧ y ∉ q) l
  new : ∀ y ∈ l, y ∉ V
  visited : V' = V ∪ l.toFinset

namespace Clear

theorem refl : Clear next V q V [] := ⟨.nil, by simp, by simp⟩

theorem mem_iff (h : Clear next V q V' l) : y ∈ V' ↔ y ∈ V ∨ y ∈ l := by
  rw [h.visited, mem_union, List.mem_toFinset]

theorem subset (h : Clear next V q V' l) : V ⊆ V' := fun _ hy => h.mem_iff.mpr (.inl hy)

theorem trans (h : Clear next V q V₁ l) (h' : Clear next V₁ q V' l') :
    Clear next V q V' (l' ++ l) where
  finished := by
    refine h'.finished.append h.finished ?_ fun y hy hl => h'.new y hy (h.mem_iff.mpr (.inr hl))
    exact fun y hy => (h.mem_iff.mp hy.1).imp_left fun hV => ⟨hV, hy.2⟩
  new y hy := by
    rcases List.mem_append.mp hy with hy | hy
    · exact fun hV => h'.new y hy (h.subset hV)
    · exact h.new y hy
  visited := by
    ext y
    rw [h'.mem_iff, h.mem_iff, mem_union, List.mem_toFinset, List.mem_append]
    tauto

theorem parent (hxV : x ∉ V) (h : Clear next (insert x V) (q ++ [x]) V' l)
    (hsucc : ∀ y ∈ next x, y ∉ q ++ [x] ∧ y ∈ V') : Clear next V q V' (x :: l) where
  finished := by
    have hbase : ∀ y, y ∈ insert x V ∧ y ∉ q ++ [x] → y ∈ V ∧ y ∉ q := by
      rintro y ⟨hy, hyq⟩
      simp only [List.mem_append, List.mem_singleton, not_or] at hyq
      exact ⟨(mem_insert.mp hy).resolve_left hyq.2, hyq.1⟩
    refine .cons (h.finished.mono hbase) (fun hx => h.new x hx (by simp)) fun y hy => ?_
    obtain ⟨hyq, hyV'⟩ := hsucc y hy
    exact (h.mem_iff.mp hyV').imp_left fun h => hbase y ⟨h, hyq⟩
  new := List.forall_mem_cons.mpr
    ⟨hxV, fun y hy hyV => h.new y hy (mem_insert_of_mem hyV)⟩
  visited := by rw [h.visited, List.toFinset_cons, insert_union, union_insert]

theorem not_cyclic (h : Clear next V [] V' l) (hx : x ∈ V') : ¬ Cyclic next V x := by
  rintro ⟨hxV, y, hxy, hcycle⟩
  have hl := h.finished.mono (B := (· ∈ V)) fun _ hy => hy.1
  exact hl.acyclic (hl.mem_of_reaches ((h.mem_iff.mp hx).resolve_left hxV) hxy) hcycle

end Clear

theorem Loops.of_child (hxV : x ∉ V) (hxy : y ∈ next x)
    (h : Loops next (insert x V) (q ++ [x]) y) : Loops next V q x := by
  refine ⟨.inr hxV, fun V₀ hV₀ hq => ?_⟩
  have hVV₁ := subset_insert x V
  have hx₀ : x ∉ V₀ := fun hx => hxV (hV₀ hx)
  have hy₀ : y ∉ V₀ := by
    rcases h.1 with hy | hy
    · rcases List.mem_append.mp hy with hy | hy
      · exact (hq y hy).1
      · rwa [List.mem_singleton.mp hy]
    · exact fun hyV₀ => hy (hVV₁ (hV₀ hyV₀))
  have hedge : Edge next V₀ x y := ⟨hxy, hy₀⟩
  obtain ⟨z, hyz, hz⟩ := h.2 V₀ (hV₀.trans hVV₁) fun z hz => by
    rcases List.mem_append.mp hz with hz | hz
    · exact ⟨(hq z hz).1, (hq z hz).2.tail hedge⟩
    · rw [List.mem_singleton.mp hz]
      exact ⟨hx₀, .single hedge⟩
  exact ⟨z, .head hedge hyz, hz⟩

section DepthFirst

variable {clear clear' : Finset α → Prop} {found found' : Prop}

variable (next) in
/-- The search from the nodes of `ys` below the path `q`: it ends without a find, when `clear` holds
of what is visited then, or with one, when `found` holds. -/
def Outcome (V : Finset α) (q ys : List α) (clear : Finset α → Prop) (found : Prop) : Prop :=
  (∃ V' l, clear V' ∧ Clear next V q V' l ∧ ∀ y ∈ ys, y ∉ q ∧ y ∈ V') ∨
  found ∧ ∃ y ∈ ys, Loops next V q y

namespace Outcome

theorem mono (h : Outcome next V q ys clear found) (hclear : ∀ V', V ⊆ V' → clear V' → clear' V')
    (hfound : found → found') : Outcome next V q ys clear' found' :=
  h.imp (fun ⟨V', l, h, hc, hys⟩ => ⟨V', l, hclear V' hc.subset h, hc, hys⟩) (.imp_left hfound)

theorem nil (h : clear V) : Outcome next V q [] clear found := .inl ⟨V, [], h, .refl, by simp⟩

theorem cons (h : Outcome next V q [y] (fun V₁ => Outcome next V₁ q ys clear found) found) :
    Outcome next V q (y :: ys) clear found := by
  rcases h with ⟨V₁, l, h, hclear, hy⟩ | ⟨hfound, z, hz, hloop⟩
  · rcases h with ⟨V', l', h, hclear', hys⟩ | ⟨hfound, z, hz, hloop⟩
    · obtain ⟨hyq, hyV₁⟩ := hy y (by simp)
      refine .inl ⟨V', l' ++ l, h, hclear.trans hclear', ?_⟩
      exact List.forall_mem_cons.mpr ⟨⟨hyq, hclear'.subset hyV₁⟩, hys⟩
    · exact .inr ⟨hfound, z, by simp [hz], hloop.mono hclear.subset⟩
  · exact .inr ⟨hfound, z, List.mem_cons.mpr (.inl (List.mem_singleton.mp hz)), hloop⟩

theorem visited (hq : y ∉ q) (hV : y ∈ V) (h : clear V) : Outcome next V q [y] clear found :=
  .inl ⟨V, [], h, .refl, by simpa using ⟨hq, hV⟩⟩

theorem onPath (hq : y ∈ q) (h : found) : Outcome next V q [y] clear found :=
  .inr ⟨h, y, by simp, .of_mem hq⟩

theorem parent (hq : x ∉ q) (hV : x ∉ V)
    (h : Outcome next (insert x V) (q ++ [x]) (next x) clear found) :
    Outcome next V q [x] clear found := by
  rcases h with ⟨V', l, h, hclear, hsucc⟩ | ⟨hfound, y, hy, hloop⟩
  · refine .inl ⟨V', x :: l, h, hclear.parent hV hsucc, ?_⟩
    simpa using ⟨hq, hclear.subset (by simp)⟩
  · exact .inr ⟨hfound, x, by simp, hloop.of_child hV hy⟩

theorem root (h : Outcome next V [] [x] clear found) :
    (∃ V', clear V' ∧ ¬ Cyclic next V x) ∨ found ∧ Cyclic next V x := by
  rcases h with ⟨V', l, h, hclear, hx⟩ | ⟨hfound, y, hy, hloop⟩
  · exact .inl ⟨V', h, hclear.not_cyclic (hx x (by simp)).2⟩
  · exact .inr ⟨hfound, List.mem_singleton.mp hy ▸ hloop.cyclic⟩

end Outcome

/-- Searches the successors of a node in turn, each on the path while it is searched. -/
def scan (search : α → Finset α → List α → Option (Bool × Finset α × List α)) :
    List α → Finset α → List α → Option (Bool × Finset α × List α)
  | [], visited, path => some (false, visited, path)
  | y :: ys, visited, path =>
    match search y visited (path ++ [y]) with
    | some (false, visited, path) => scan search ys visited path.dropLast
    | found => found

variable (next) in
/-- Searches from the last node of the path; none when the fuel does not last. -/
def seek : ℕ → α → Finset α → List α → Option (Bool × Finset α × List α)
  | 0, _, _, _ => none
  | fuel + 1, x, visited, path =>
    if x ∈ path.dropLast then some (true, visited, path)
    else if x ∈ visited then some (false, visited, path)
    else scan (seek fuel) (next x) (insert x visited) path

theorem scan_spec {search : α → Finset α → List α → Option (Bool × Finset α × List α)}
    (hsearch : ∀ V₁, V ⊆ V₁ → ∀ y ∈ ys, Outcome next V₁ q [y]
      (fun V' => search y V₁ (q ++ [y]) = some (false, V', q ++ [y]))
      (∃ V' path, search y V₁ (q ++ [y]) = some (true, V', path))) :
    Outcome next V q ys (fun V' => scan search ys V q = some (false, V', q))
      (∃ V' path, scan search ys V q = some (true, V', path)) := by
  induction ys generalizing V with
  | nil => exact .nil rfl
  | cons y ys ih =>
    refine .cons ((hsearch V subset_rfl y (by simp)).mono (fun V₁ hV₁ heq => ?_) ?_)
    · have hstep : scan search (y :: ys) V q = scan search ys V₁ q := by simp [scan, heq]
      rw [hstep]
      exact ih fun V₂ hV₂ z hz => hsearch V₂ (hV₁.trans hV₂) z (by simp [hz])
    · rintro ⟨V', path, heq⟩
      exact ⟨V', path, by simp [scan, heq]⟩

theorem card_sdiff_lt (hx : x ∈ U) (hxV : x ∉ V) (hV : insert x V ⊆ V₁) :
    (U \ V₁).card < (U \ V).card := by
  refine card_lt_card (ssubset_iff_of_subset ?_ |>.mpr ⟨x, by simp [hx, hxV], ?_⟩)
  · exact sdiff_subset_sdiff subset_rfl ((subset_insert x V).trans hV)
  · simp [hV (mem_insert_self x V)]

theorem seek_spec (hU : ∀ x ∈ U, ∀ y ∈ next x, y ∈ U) (hx : x ∈ U)
    (hfuel : (U \ V).card < fuel) : Outcome next V q [x]
      (fun V' => seek next fuel x V (q ++ [x]) = some (false, V', q ++ [x]))
      (∃ V' path, seek next fuel x V (q ++ [x]) = some (true, V', path)) := by
  induction fuel generalizing x V q with
  | zero => omega
  | succ fuel ih =>
    by_cases hxq : x ∈ q
    · exact .onPath hxq ⟨V, q ++ [x], by simp [seek, hxq]⟩
    by_cases hxV : x ∈ V
    · exact .visited hxq hxV (by simp [seek, hxq, hxV])
    have hseek : seek next (fuel + 1) x V (q ++ [x]) =
        scan (seek next fuel) (next x) (insert x V) (q ++ [x]) := by
      simp [seek, hxq, hxV]
    rw [hseek]
    refine .parent hxq hxV (scan_spec fun V₁ hV₁ y hy => ih (hU x hx y hy) ?_)
    have hcard := card_sdiff_lt hx hxV hV₁
    omega

theorem seek_found_iff (hU : ∀ x ∈ U, ∀ y ∈ next x, y ∈ U) (hx : x ∈ U)
    (hfuel : (U \ V).card < fuel) :
    ∃ found V' path, seek next fuel x V [x] = some (found, V', path) ∧
      (found = true ↔ Cyclic next V x) := by
  rcases (seek_spec hU hx (q := []) hfuel).root with ⟨V', heq, hx⟩ | ⟨⟨V', path, heq⟩, hx⟩
  · exact ⟨false, V', _, heq, by simpa using hx⟩
  · exact ⟨true, V', path, heq, by simpa using hx⟩

namespace Visits

theorem parent (h : Visits next (next x) (insert x V) V') : Visits next [x] V V' where
  subset := (subset_insert x V).trans h.subset
  reached z hz := by
    rcases h.reached z hz with hz | ⟨y, hy, hyz⟩
    · rcases mem_insert.mp hz with rfl | hz
      · exact .inr ⟨z, by simp, .refl⟩
      · exact .inl hz
    · exact .inr ⟨x, by simp, .head ⟨hy, by simp⟩ hyz⟩

omit [DecidableEq α] in
theorem of_scan {search : α → Finset α → List α → Option (Bool × Finset α × List α)}
    (hsearch : ∀ y V path found V' path', search y V path = some (found, V', path') →
      Visits next [y] V V') {path path' : List α} {found : Bool}
    (h : scan search ys V path = some (found, V', path')) : Visits next ys V V' := by
  induction ys generalizing V path with
  | nil =>
    obtain ⟨-, rfl, -⟩ := by simpa [scan] using h
    exact .refl
  | cons y ys ih =>
    simp only [scan] at h
    split at h
    · rename_i V₁ _ heq
      exact ((hsearch _ _ _ _ _ _ heq).mono (by simp)).trans ((ih h).mono (List.subset_cons_self ..))
    · exact (hsearch _ _ _ _ _ _ h).mono (by simp)

theorem of_seek {path path' : List α} {found : Bool}
    (h : seek next fuel x V path = some (found, V', path')) : Visits next [x] V V' := by
  induction fuel generalizing x V path found V' path' with
  | zero => simp [seek] at h
  | succ fuel ih =>
    simp only [seek] at h
    split_ifs at h
    · obtain ⟨-, rfl, -⟩ := by simpa using h
      exact .refl
    · obtain ⟨-, rfl, -⟩ := by simpa using h
      exact .refl
    · exact parent (of_scan (fun _ _ _ _ _ _ => ih) h)

end Visits

theorem mem_of_seek {path : List α} {found : Bool}
    (h : seek next fuel x V [x] = some (found, V', path)) : x ∈ V' := by
  cases fuel with
  | zero => simp [seek] at h
  | succ fuel =>
    simp only [seek, List.dropLast_singleton, List.not_mem_nil, if_false] at h
    split_ifs at h with hx
    · obtain ⟨-, rfl, -⟩ := by simpa using h
      exact hx
    · have hvisits : Visits next (next x) (insert x V) V' := .of_scan (fun _ _ _ _ _ _ => .of_seek) h
      exact hvisits.subset (mem_insert_self x V)

end DepthFirst

section BreadthFirst

variable (next) in
/-- Visits what the queue leads to; none when the fuel does not last. -/
def flood : ℕ → List α → Finset α → Option (Finset α)
  | _, [], visited => some visited
  | 0, _ :: _, _ => none
  | fuel + 1, x :: queue, visited =>
    if x ∈ visited then flood fuel queue visited
    else flood fuel (queue ++ (next x).filter (· ∉ insert x visited)) (insert x visited)

theorem flood_spec (hU : ∀ x ∈ U, ∀ y ∈ next x, y ∈ U) (hV : V ⊆ U)
    (hqueue : ∀ x ∈ queue, x ∈ U) (hclosed : ∀ x ∈ V, ∀ y ∈ next x, y ∈ V ∨ y ∈ queue)
    (hfuel : queue.length + ∑ x ∈ U \ V, (next x).length ≤ fuel) :
    ∃ V' ⊆ U, flood next fuel queue V = some V' ∧ V ⊆ V' ∧ (∀ x ∈ queue, x ∈ V') ∧
      ∀ x ∈ V', ∀ y ∈ next x, y ∈ V' := by
  fun_induction flood next fuel queue V with
  | case1 fuel V =>
    exact ⟨V, hV, rfl, subset_rfl, by simp, fun x hx y hy => (hclosed x hx y hy).resolve_right (by simp)⟩
  | case2 x queue V => simp at hfuel
  | case3 fuel x queue V hx ih =>
    obtain ⟨V', hV', heq, hsub, hall, hclosed'⟩ := ih hV (fun y hy => hqueue y (by simp [hy]))
      (fun z hz y hy => (hclosed z hz y hy).elim .inl fun h => by
        rcases List.mem_cons.mp h with rfl | h
        · exact .inl hx
        · exact .inr h) (by simp only [List.length_cons] at hfuel; omega)
    exact ⟨V', hV', heq, hsub, List.forall_mem_cons.mpr ⟨hsub hx, hall⟩, hclosed'⟩
  | case4 fuel x queue V hx ih =>
    have hxU := hqueue x (by simp)
    -- What `x` adds to the queue is paid for by what it no longer adds to the sum.
    have hsum : (next x).length + ∑ z ∈ U \ insert x V, (next z).length =
        ∑ z ∈ U \ V, (next z).length := by
      rw [sdiff_insert]
      exact add_sum_erase _ (fun z => (next z).length) (by simp [hxU, hx])
    have hlen := List.length_filter_le (fun y => decide (y ∉ insert x V)) (next x)
    obtain ⟨V', hV', heq, hsub, hall, hclosed'⟩ := ih (insert_subset hxU hV)
      (fun y hy => by
        rcases List.mem_append.mp hy with hy | hy
        · exact hqueue y (by simp [hy])
        · exact hU x hxU y (List.mem_of_mem_filter hy))
      (fun z hz y hy => by
        by_cases hyV : y ∈ insert x V
        · exact .inl hyV
        rcases mem_insert.mp hz with rfl | hz
        · exact .inr (List.mem_append_right _ (List.mem_filter.mpr ⟨hy, by simpa using hyV⟩))
        · simp only [mem_insert, not_or] at hyV
          have hmem := (hclosed z hz y hy).resolve_left hyV.2
          exact .inr (List.mem_append_left _ ((List.mem_cons.mp hmem).resolve_left hyV.1)))
      (by simp only [List.length_append, List.length_cons] at hfuel ⊢; omega)
    refine ⟨V', hV', heq, (subset_insert x V).trans hsub, ?_, hclosed'⟩
    exact List.forall_mem_cons.mpr ⟨hsub (by simp), fun y hy => hall y (by simp [hy])⟩

open Classical in
theorem mem_flood_iff (hU : ∀ x ∈ U, ∀ y ∈ next x, y ∈ U) (hx : x ∈ U)
    (hfuel : ∑ y ∈ U, (next y).length < fuel) :
    ∃ V', flood next fuel [x] ∅ = some V' ∧
      ∀ y, y ∈ V' ↔ ReflTransGen (fun a b => b ∈ next a) x y := by
  let R := U.filter (ReflTransGen (fun a b => b ∈ next a) x)
  have hR : ∀ y ∈ R, ∀ z ∈ next y, z ∈ R := by
    intro y hy z hz
    obtain ⟨hyU, hxy⟩ := mem_filter.mp hy
    exact mem_filter.mpr ⟨hU y hyU z hz, hxy.tail hz⟩
  have hcost : [x].length + ∑ y ∈ R \ ∅, (next y).length ≤ fuel := by
    have hle : ∑ y ∈ R, (next y).length ≤ ∑ y ∈ U, (next y).length :=
      sum_le_sum_of_subset (filter_subset _ _)
    rw [sdiff_empty, List.length_singleton]
    omega
  obtain ⟨V', hV', heq, -, hqueue, hclosed⟩ := flood_spec hR (empty_subset R)
    (by simpa [R] using ⟨hx, ReflTransGen.refl⟩) (by simp) hcost
  refine ⟨V', heq, fun y => ⟨fun hy => (mem_filter.mp (hV' hy)).2, fun hxy => ?_⟩⟩
  induction hxy with
  | refl => exact hqueue x (by simp)
  | tail _ hedge ih => exact hclosed _ ih _ hedge

end BreadthFirst

end Search
