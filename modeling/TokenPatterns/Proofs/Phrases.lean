import Mathlib.Data.List.Induction
import TokenPatterns.Pattern.Capture

/-! Captured phrases.

What is captured under a name are all the words that came with this label, in order and with single
spaces between them, however often other words came between (`getElem?_bindings`). -/
namespace TokenPatterns

/-- Words with single spaces between them; no words are no phrase. -/
def phrase? : List String → Option String
  | [] => none
  | word :: words => some (" ".intercalate (word :: words))

/-- A phrase with one more word. -/
def extend : Option String → String → String
  | some phrase, word => phrase ++ " " ++ word
  | none, word => word

theorem extend_append (phrase : Option String) (words word : String) :
    extend phrase (words ++ " " ++ word) = extend phrase words ++ " " ++ word := by
  cases phrase with
  | none => rfl
  | some phrase => simp only [extend, String.append_assoc]

theorem phrase?_concat (words : List String) (word : String) :
    phrase? (words ++ [word]) = some (extend (phrase? words) word) := by
  cases words with
  | nil => rfl
  | cons first words =>
    show some (" ".intercalate (first :: words ++ [word])) = _
    rw [String.intercalate_append_of_ne_nil (List.cons_ne_nil _ _) (List.cons_ne_nil _ _),
      String.intercalate_singleton]
    rfl

theorem Bindings.getElem?_append (bindings : Bindings) (name text other : String) :
    (bindings.append name text)[other]? =
      if name = other then some (extend bindings[other]? text) else bindings[other]? := by
  rw [append, Std.ExtTreeMap.getElem?_alter]
  by_cases h : name = other
  · subst h
    rw [if_pos (Std.ReflCmp.compare_self), if_pos rfl]
    cases bindings[name]? <;> rfl
  · rw [if_neg (by rwa [Std.LawfulEqCmp.compare_eq_iff_eq]), if_neg h]

namespace Capture

/-- What is captured under a name, the run that is going on included. -/
def total (c : Capture) (name : String) : Option String := c.flush.stored[name]?

theorem total_start (name : String) : ({} : Capture).total name = none :=
  Std.ExtTreeMap.getElem?_empty

theorem total_run (stored : Bindings) (label words name : String) :
    (⟨stored, some (label, words)⟩ : Capture).total name =
      if label = name then some (extend stored[name]? words) else stored[name]? :=
  Bindings.getElem?_append ..

/-- A word goes behind what its label has, and every other label keeps what it has. -/
theorem total_step (c : Capture) (label? : Option String) (word name : String) :
    (c.step label? word).total name =
      if label? = some name then some (extend (c.total name) word) else c.total name := by
  obtain ⟨stored, run⟩ := c
  cases label? with
  | none =>
    rw [if_neg (Option.some_ne_none name).symm]
    cases run <;> rfl
  | some label =>
    simp only [Option.some.injEq]
    cases run with
    | none => exact total_run ..
    | some run =>
      obtain ⟨current, words⟩ := run
      by_cases hcurrent : current = label
      · subst hcurrent
        have htake : (⟨stored, some (current, words)⟩ : Capture).step (some current) word =
            ⟨stored, some (current, words ++ " " ++ word)⟩ := by
          simp only [step, take, if_true]
        rw [htake, total_run, total_run, extend_append]
        by_cases hname : current = name
        · simp only [if_pos hname, extend]
        · simp only [if_neg hname]
      · have htake : (⟨stored, some (current, words)⟩ : Capture).step (some label) word =
            ⟨stored.append current words, some (label, word)⟩ := by
          simp only [step, take, if_neg hcurrent, flush]
        rw [htake, total_run]
        rfl

/-- The words that come with a label. -/
def wordsOf (name : String) (labelled : List (Option String × String)) : List String :=
  labelled.filterMap fun (label?, word) => if label? = some name then some word else none

theorem wordsOf_concat (name : String) (labelled : List (Option String × String))
    (label? : Option String) (word : String) :
    wordsOf name (labelled ++ [(label?, word)]) =
      wordsOf name labelled ++ if label? = some name then [word] else [] := by
  rw [wordsOf, List.filterMap_append, wordsOf]
  by_cases h : label? = some name
  · simp only [h, List.filterMap_cons, List.filterMap_nil, if_true]
  · simp only [h, List.filterMap_cons, List.filterMap_nil, if_false]

theorem total_foldl (labelled : List (Option String × String)) (name : String) :
    (labelled.foldl (fun (c : Capture) (label?, word) => c.step label? word) {}).total name =
      phrase? (wordsOf name labelled) := by
  induction labelled using List.reverseRecOn with
  | nil => exact total_start name
  | append_singleton labelled last ih =>
    obtain ⟨label?, word⟩ := last
    rw [List.foldl_append, List.foldl_cons, List.foldl_nil, total_step, ih, wordsOf_concat]
    by_cases h : label? = some name
    · rw [if_pos h, if_pos h, phrase?_concat]
    · rw [if_neg h, if_neg h, List.append_nil]

/-- What is captured under a name are the words that came with it. -/
theorem getElem?_bindings (labelled : List (Option String × String)) (name : String) :
    (bindings labelled)[name]? = phrase? (wordsOf name labelled) :=
  total_foldl labelled name

end Capture
end TokenPatterns
