import TokenPatterns.Pattern.Token

/-! Links between the nodes of a pattern.

Nodes are numbered in the order of their tokens. The root is node 0; each token has a node, and
each token after the first has two more, which pass over tokens of the text. Which nodes are
linked depends on the marks of the tokens alone. From the node of a token links lead to the next
token directly and over one or two passed tokens; from the last mandatory token, or the root, a
link leads past a run of tokens that may be left out; and a repeated token is linked to itself. -/
namespace TokenPatterns

/-- A link from one node to another, both by number. -/
structure Link where
  source : Nat
  target : Nat
deriving DecidableEq

/-- How far the nodes of a pattern are laid out. -/
structure Frontier where
  /-- The number of nodes, which is also the number of the next one. -/
  size : Nat
  /-- The node of the last token, or the root. -/
  last : Nat
  /-- The node of the last mandatory token, or the root. -/
  lastMandatory : Nat
deriving DecidableEq

namespace Frontier

/-- Nothing but the root. -/
def start : Frontier := ⟨1, 0, 0⟩

/-- The links that come with the next token, in the order in which they are laid down. -/
def links (f : Frontier) (mark : Mark) : List Link :=
  let current := f.size
  [⟨f.last, current⟩] ++
  (if f.last = 0 then []
    else [⟨f.last, current + 1⟩, ⟨current + 1, current + 2⟩, ⟨current + 1, current⟩,
      ⟨current + 2, current⟩]) ++
  (if mark = .repeated then [⟨current, current⟩] else []) ++
  (if f.last = f.lastMandatory then [] else [⟨f.lastMandatory, current⟩])

/-- The frontier behind the next token. -/
def advance (f : Frontier) (mark : Mark) : Frontier :=
  { size := if f.last = 0 then f.size + 1 else f.size + 3
    last := f.size
    lastMandatory := if mark = .once then f.size else f.lastMandatory }

/-- The frontier behind some tokens. -/
def advanceAll (f : Frontier) (marks : List Mark) : Frontier := marks.foldl advance f

/-- The links that come with some tokens. -/
def allLinks : Frontier → List Mark → List Link
  | _, [] => []
  | f, mark :: marks => f.links mark ++ (f.advance mark).allLinks marks

@[simp] theorem advanceAll_nil (f : Frontier) : f.advanceAll [] = f := rfl

@[simp] theorem advanceAll_cons (f : Frontier) (mark : Mark) (marks : List Mark) :
    f.advanceAll (mark :: marks) = (f.advance mark).advanceAll marks := rfl

theorem allLinks_append (f : Frontier) (marks more : List Mark) :
    f.allLinks (marks ++ more) = f.allLinks marks ++ (f.advanceAll marks).allLinks more := by
  induction marks generalizing f with
  | nil => rfl
  | cons mark marks ih => simp [allLinks, ih]

end Frontier

namespace Link

/-- The targets of the links from each node below a size, in the order of the links. -/
def targets (size : Nat) (links : List Link) : Array (List Nat) :=
  links.foldr (fun l table => table.modify l.source (l.target :: ·)) (Array.replicate size [])

@[simp] theorem size_targets (size : Nat) (links : List Link) : (targets size links).size = size := by
  induction links with
  | nil => simp [targets]
  | cons l links ih => simpa [targets] using ih

/-- The targets listed for a node are those of its links, in order. -/
theorem targets_getElem? {size id : Nat} (h : id < size) (links : List Link) :
    (targets size links)[id]? = some ((links.filter (·.source == id)).map (·.target)) := by
  induction links with
  | nil => simp [targets, h]
  | cons l links ih =>
    have hcons : targets size (l :: links) =
      (targets size links).modify l.source (l.target :: ·) := rfl
    rw [hcons, Array.getElem?_modify, ih]
    by_cases hl : l.source = id <;> simp [hl]

end Link
end TokenPatterns
