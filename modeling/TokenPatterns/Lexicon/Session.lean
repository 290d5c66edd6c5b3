import TokenPatterns.Lexicon.Cache
import TokenPatterns.Lexicon.Dictionary

/-! Sessions: a dictionary in use.

A session answers questions from a dictionary, through a cache if it has one, and keeps two logs:
of the questions put to it and of those that reached the dictionary. -/
namespace TokenPatterns

structure Session where
  dictionary : Dictionary
  cache : Option Cache := none
  /-- The questions put to the session, in order. -/
  asked : Array Query := #[]
  /-- The questions that reached the dictionary, in order. -/
  reached : Array Query := #[]

namespace Session

/-- Answers a question from a dictionary and logs it. -/
def consult (d : Dictionary) (q : Query) (reached : Array Query) : SynsetSet × Array Query :=
  (d.synsets q, reached.push q)

/-- Answers a question and logs it. -/
def answer (q : Query) (s : Session) : SynsetSet × Session :=
  let asked := s.asked.push q
  match s.cache with
  | none =>
    let (ids, reached) := consult s.dictionary q s.reached
    (ids, {s with asked, reached})
  | some c =>
    let ((ids, cache), reached) := (c.lookup q).runWith (consult s.dictionary) s.reached
    (ids, {s with asked, cache := some cache, reached})

/-- Answers every question of an inquiry. -/
def run {α : Type} (s : Session) (x : Inquiry α) : α × Session := x.runWith answer s

/-- The session with both logs empty. -/
def clearLogs (s : Session) : Session := {s with asked := #[], reached := #[]}

/-- The session with its cache empty, if it has one. -/
def clearCache (s : Session) : Session := {s with cache := s.cache.map Cache.clear}

end Session
end TokenPatterns
