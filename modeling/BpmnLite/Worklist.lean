import Mathlib

/-!
# Worklist walks over a numbered graph

A forward walk that assigns one state to every node it reaches. Visiting a node lists what the
visit does, in order: an error ends the walk, an edge sends a state to a node. A node met for the
first time takes the state and is queued; a node met again must already hold that state.
-/

namespace Worklist

abbrev Entry (σ : Type) := Std.ExtTreeMap ℕ σ compare

structure Walk (σ ε α : Type) where
  /-- What visiting a node in a state does, in order. -/
  edges : ℕ → σ → List (Except ε (ℕ × σ))
  /-- The error of a merge: source, node, state held, state sent. -/
  clash : ℕ → ℕ → σ → σ → ε
  note : ℕ → σ → α → α
  exhausted : ε

variable {σ ε α : Type} [DecidableEq σ] (W : Walk σ ε α)

namespace Walk

def propagate (p : ℕ) :
    List (Except ε (ℕ × σ)) → Entry σ → List ℕ → Except ε (Entry σ × List ℕ)
  | [], entry, queue => .ok (entry, queue)
  | .error e :: _, _, _ => .error e
  | .ok (q, t) :: rest, entry, queue =>
    match entry[q]? with
    | none => propagate p rest (entry.insert q t) (queue ++ [q])
    | some held =>
      if held = t then propagate p rest entry queue else .error (W.clash p q held t)

def run : ℕ → Entry σ → List ℕ → α → Except ε (Entry σ × α)
  | _, entry, [], acc => .ok (entry, acc)
  | 0, _, _ :: _, _ => .error W.exhausted
  | fuel + 1, entry, p :: queue, acc =>
    match entry[p]? with
    | none => .error W.exhausted
    | some s => do
      let (entry, queue) ← W.propagate p (W.edges p s) entry queue
      run fuel entry queue (W.note p s acc)

end Walk

end Worklist
