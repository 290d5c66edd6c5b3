import TokenPatterns.Lexicon.Inquiry

/-! Caches of answers.

A cache keeps answers under their questions, the classes brought into their fixed order, up to its
capacity. A question whose answer is missing is passed on as it was asked; a cache that is full is
cleared before the new answer is kept. -/
namespace TokenPatterns

structure Cache where
  capacity : Nat
  entries : Std.ExtTreeMap Query SynsetSet := ∅

namespace Cache

/-- The capacity of a cache for which none is chosen. -/
def defaultCapacity : Nat := 10000

/-- An empty cache, with room for one answer at least. -/
def ofCapacity (n : Nat) : Cache := {capacity := max n 1}

def size (c : Cache) : Nat := c.entries.size

def isEmpty (c : Cache) : Bool := c.entries.isEmpty

def clear (c : Cache) : Cache := {c with entries := ∅}

/-- The answer that is kept for a question. -/
def find? (c : Cache) (q : Query) : Option SynsetSet := c.entries[q.normalize]?

/-- Keeps an answer, in place of all others if the cache is full. -/
def store (c : Cache) (q : Query) (ids : SynsetSet) : Cache :=
  let c := if c.size ≥ c.capacity then c.clear else c
  {c with entries := c.entries.insert q.normalize ids}

/-- Answers a question from the cache. If the answer is missing, the question is passed on and its
answer kept. -/
def lookup (q : Query) (c : Cache) : Inquiry (SynsetSet × Cache) :=
  match c.find? q with
  | some ids => pure (ids, c)
  | none => do
    let ids ← Inquiry.lookup q
    pure (ids, c.store q ids)

/-- Answers a question where a lexicon answers what is passed on. -/
def answer (lexicon : Lexicon) (q : Query) (c : Cache) : SynsetSet × Cache :=
  (c.lookup q).run lexicon

/-- A stored answer is found again, whatever the order and the repeats of the classes. -/
theorem find?_store_of_normalize_eq (c : Cache) {q r : Query} (h : r.normalize = q.normalize)
    (ids : SynsetSet) : (c.store q ids).find? r = some ids := by
  simp [find?, store, h]

end Cache
end TokenPatterns
