/-! Marking what can be reached from a node.

A worklist holds the nodes that are still to be visited and the marks of those that were. A node
that may be marked and has no mark yet is marked, and its successors but itself are put on the list,
the last one in front; any other node is dropped. Each link of the graph puts a node on the list at
most once, so a bound on the number of steps is known in advance. -/
namespace TokenPatterns

structure Worklist where
  pending : List Nat
  marked : Array Bool
deriving DecidableEq

namespace Worklist
variable (successors : Array (List Nat)) (allowed : Nat → Bool)

/-- The list with one node on it and no node marked. -/
def start (size id : Nat) : Worklist := ⟨[id], Array.replicate size false⟩

/-- Visits the first node of the list. -/
def step (w : Worklist) : Worklist :=
  match w.pending with
  | [] => w
  | id :: pending =>
    if allowed id ∧ w.marked[id]? = some false then
      ⟨((successors[id]?.getD []).filter (· != id)).reverse ++ pending,
        w.marked.setIfInBounds id true⟩
    else {w with pending}

/-- Some steps, or fewer if no node is left. -/
def steps : Nat → Worklist → Worklist
  | 0, w => w
  | n + 1, w => if w.pending.isEmpty then w else steps n (w.step successors allowed)

end Worklist
end TokenPatterns
