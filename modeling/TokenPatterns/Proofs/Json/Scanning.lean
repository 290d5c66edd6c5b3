import Mathlib.Data.List.TakeWhile
import TokenPatterns.Json.Printer
import TokenPatterns.Json.Token

/-! What the reader of tokens makes of printed words and strings.

A word is a token once it has ended, which a character that cannot stand in a word shows; so what is read
is told apart by whether it may follow a word (`ScansOn`) or needs a boundary before it (`Scans`). -/
namespace TokenPatterns.Json

/-! ### Integers -/

theorem natOfDigits_toDigits (n : Nat) : natOfDigits (Nat.toDigits 10 n) = n := by
  rw [natOfDigits, ← Nat.ofDigitChars_eq_foldl]
  exact Nat.ofDigitChars_ten_toDigits

theorem isDigit_toDigits (n : Nat) : ∀ c ∈ Nat.toDigits 10 n, c.isDigit = true := fun _ =>
  Nat.isDigit_of_mem_toDigits (by decide) (by decide)

/-- No number is written with a leading zero. -/
theorem toDigits_ne_zero_cons (n : Nat) (d : Char) (ds : List Char) :
    Nat.toDigits 10 n ≠ '0' :: d :: ds := by
  induction n using Nat.strongRecOn generalizing d ds with
  | ind n ih =>
    intro h
    rcases Nat.lt_or_ge n 10 with hn | hn
    · have hlength := congrArg List.length h
      rw [Nat.toDigits_of_lt_base hn] at hlength
      cases hlength
    · rw [Nat.toDigits_of_base_le (by decide) hn] at h
      cases hinit : Nat.toDigits 10 (n / 10) with
      | nil => exact Nat.toDigits_ne_nil hinit
      | cons c cs =>
        rw [hinit] at h
        obtain ⟨rfl, h⟩ := List.cons.inj h
        cases cs with
        | nil =>
          have hzero := natOfDigits_toDigits (n / 10)
          rw [hinit] at hzero
          have : natOfDigits ['0'] = 0 := rfl
          omega
        | cons c cs => exact ih (n / 10) (by omega) c cs hinit

theorem whole?_toDigits (n : Nat) : whole? (Nat.toDigits 10 n) = some (Nat.toDigits 10 n, []) := by
  have hdigits : digits? (Nat.toDigits 10 n) = some (Nat.toDigits 10 n, []) := by
    rw [digits?, List.takeWhile_eq_self_iff.mpr (isDigit_toDigits n),
      List.dropWhile_eq_nil_iff.mpr (isDigit_toDigits n)]
    exact if_neg (by rw [List.isEmpty_iff]; exact Nat.toDigits_ne_nil)
  rw [whole?, hdigits]
  split
  · next heq => exact absurd (congrArg Prod.fst (Option.some.inj heq)) (toDigits_ne_zero_cons n _ _)
  · rfl

theorem number?_toDigits (n : Nat) : number? (Nat.toDigits 10 n) = some (.integer n) := by
  have hsign : ∀ rest, Nat.toDigits 10 n ≠ '-' :: rest := fun rest h => by
    have hdigit := isDigit_toDigits n '-' (h ▸ List.mem_cons_self)
    cases hdigit
  have hunsigned : number? (Nat.toDigits 10 n) =
      some (.integer (natOfDigits (Nat.toDigits 10 n))) := by
    rw [number?, whole?_toDigits]
    · rfl
    · exact hsign
  rw [hunsigned, natOfDigits_toDigits]

theorem number?_neg_toDigits {n : Nat} (hn : 0 < n) :
    number? ('-' :: Nat.toDigits 10 n) = some (.integer (-n)) := by
  have hzero : (Nat.toDigits 10 n == ['0']) = false := beq_false_of_ne fun h => by
    have hdigits := natOfDigits_toDigits n
    rw [h] at hdigits
    exact absurd hdigits (Nat.ne_of_lt hn)
  have hsigned : number? ('-' :: Nat.toDigits 10 n) =
      some (.integer (-(natOfDigits (Nat.toDigits 10 n) : Int))) := by
    simp only [number?, whole?_toDigits, hzero]
    rfl
  rw [hsigned, natOfDigits_toDigits]

/-- Whether some characters are a word that denotes a value. -/
structure IsWord (cs : List Char) (v : Json) : Prop where
  ne_nil : cs ≠ []
  chars : cs.all isWordChar = true
  denotes : word? cs = some v

/-- A word that begins with a digit or a sign is no literal name. -/
theorem word?_of_head {c : Char} {cs : List Char} (h : c.isDigit = true ∨ c = '-') :
    word? (c :: cs) = number? (c :: cs) := by
  have hname : ∀ d ds, d.isDigit = false → d ≠ '-' → (c :: cs == d :: ds) = false := by
    intro d ds hd hsign
    refine beq_false_of_ne fun heq => ?_
    obtain ⟨rfl, _⟩ := List.cons.inj heq
    rcases h with h | h
    · rw [hd] at h
      cases h
    · exact hsign h
  rw [word?, show "null".toList = ['n', 'u', 'l', 'l'] from rfl,
    show "true".toList = ['t', 'r', 'u', 'e'] from rfl,
    show "false".toList = ['f', 'a', 'l', 's', 'e'] from rfl, hname 'n' _ rfl (by decide),
    hname 't' _ rfl (by decide), hname 'f' _ rfl (by decide)]
  rfl

theorem all_isWordChar_toDigits (n : Nat) : (Nat.toDigits 10 n).all isWordChar = true :=
  List.all_eq_true.mpr fun c hc => by
    simp only [isWordChar, Char.isAlphanum, isDigit_toDigits n c hc, Bool.or_true, Bool.true_or]

/-- An integer is written as a word that denotes it. -/
theorem isWord_toString (n : Int) : IsWord (toString n).toList (.integer n) := by
  cases n with
  | ofNat n =>
    have hword : (toString (Int.ofNat n)).toList = Nat.toDigits 10 n := by
      show (toString n).toList = _
      rw [Nat.toString_eq_ofList_toDigits, String.toList_ofList]
    rw [hword]
    refine ⟨Nat.toDigits_ne_nil, all_isWordChar_toDigits n, ?_⟩
    cases hdigits : Nat.toDigits 10 n with
    | nil => exact absurd hdigits Nat.toDigits_ne_nil
    | cons c cs =>
      rw [word?_of_head (.inl (isDigit_toDigits n c (hdigits ▸ List.mem_cons_self))), ← hdigits,
        number?_toDigits]
      rfl
  | negSucc n =>
    have hword : (toString (Int.negSucc n)).toList = '-' :: Nat.toDigits 10 (n + 1) := by
      show ("-" ++ toString (n + 1)).toList = _
      rw [Nat.toString_eq_ofList_toDigits, String.toList_append, show "-".toList = ['-'] from rfl,
        String.toList_ofList, List.singleton_append]
    rw [hword]
    refine ⟨List.cons_ne_nil _ _, by rw [List.all_cons, all_isWordChar_toDigits]; rfl, ?_⟩
    rw [word?_of_head (.inr rfl), number?_neg_toDigits (Nat.succ_pos n)]
    rfl

/-! ### Tokens -/

/-- Whether a text is read as some tokens at a boundary between tokens. -/
def Scans (cs : List Char) (ts : List Token) : Prop :=
  ∀ before, ∃ s : Scanner, cs.foldlM Scanner.step? ⟨.between, before⟩ = some s ∧
    s.endWord? = some ⟨.between, ts.reverse ++ before⟩

/-- Whether a text is read as some tokens at a boundary and also right behind a word. -/
def ScansOn (cs : List Char) (ts : List Token) : Prop :=
  ∀ (s : Scanner) before, s.endWord? = some ⟨.between, before⟩ →
    ∃ s' : Scanner, cs.foldlM Scanner.step? s = some s' ∧
      s'.endWord? = some ⟨.between, ts.reverse ++ before⟩

/-- Whether a character is a token by itself. -/
def Punctuates (c : Char) (t : Token) : Prop :=
  isWordChar c = false ∧
    ∀ before, Scanner.startToken? ⟨.between, before⟩ c = some ⟨.between, t :: before⟩

variable {cs ds : List Char} {ts us : List Token}

theorem ScansOn.nil : ScansOn [] [] := fun s _ h => ⟨s, rfl, h⟩

theorem ScansOn.scans (h : ScansOn cs ts) : Scans cs ts := fun before => h ⟨.between, before⟩ before rfl

theorem Scans.append (h : Scans cs ts) (h' : ScansOn ds us) : Scans (cs ++ ds) (ts ++ us) := by
  intro before
  obtain ⟨s, hs, hend⟩ := h before
  obtain ⟨s', hs', hend'⟩ := h' s _ hend
  refine ⟨s', ?_, by rw [hend', List.reverse_append, List.append_assoc]⟩
  rw [List.foldlM_append, hs]
  exact hs'

theorem ScansOn.append (h : ScansOn cs ts) (h' : ScansOn ds us) : ScansOn (cs ++ ds) (ts ++ us) := by
  intro s before hs
  obtain ⟨s', hs', hend⟩ := h s before hs
  obtain ⟨s'', hs'', hend'⟩ := h' s' _ hend
  refine ⟨s'', ?_, by rw [hend', List.reverse_append, List.append_assoc]⟩
  rw [List.foldlM_append, hs']
  exact hs''

/-- A word ends where a character follows that cannot stand in it. -/
theorem step?_of_endWord? {s : Scanner} {before : List Token} {c : Char}
    (h : s.endWord? = some ⟨.between, before⟩) (hc : isWordChar c = false) :
    s.step? c = Scanner.startToken? ⟨.between, before⟩ c := by
  obtain ⟨mode, tokens⟩ := s
  cases mode with
  | between => rw [← Option.some.inj h]; rfl
  | word chars =>
    show (if isWordChar c then _ else (Scanner.endWord? ⟨.word chars, tokens⟩).bind _) = _
    rw [hc, h]
    rfl
  | string | escape | unit => cases h

/-- Behind punctuation there is a boundary. -/
theorem Punctuates.scansOn {c : Char} {t : Token} (hc : Punctuates c t) (h : Scans ds us) :
    ScansOn (c :: ds) (t :: us) := by
  intro s before hs
  obtain ⟨s', hs', hend⟩ := h (t :: before)
  refine ⟨s', ?_, by rw [hend, List.reverse_cons, List.append_assoc]; rfl⟩
  rw [List.foldlM_cons, step?_of_endWord? hs hc.1, hc.2]
  exact hs'

/-! ### Words -/

/-- A character of a word begins one where no word is being read. -/
theorem startToken?_of_isWordChar {c : Char} (hc : isWordChar c = true) (before : List Token) :
    Scanner.startToken? ⟨.between, before⟩ c = some ⟨.word [c], before⟩ := by
  unfold Scanner.startToken?
  split
  -- the characters that are told apart cannot stand in a word
  all_goals first | cases hc | exact if_pos hc

theorem foldlM_word (chars : List Char) (before : List Token) (hcs : cs.all isWordChar = true) :
    cs.foldlM Scanner.step? ⟨.word chars, before⟩ = some ⟨.word (cs.reverse ++ chars), before⟩ := by
  induction cs generalizing chars with
  | nil => rfl
  | cons c cs ih =>
    rw [List.all_cons, Bool.and_eq_true] at hcs
    have hstep : Scanner.step? ⟨.word chars, before⟩ c = some ⟨.word (c :: chars), before⟩ :=
      if_pos hcs.1
    rw [List.foldlM_cons, hstep, List.reverse_cons, List.append_assoc]
    exact ih (c :: chars) hcs.2

theorem IsWord.scans {v : Json} (h : IsWord cs v) : Scans cs [.scalar v] := by
  intro before
  obtain ⟨hne, hchars, hdenotes⟩ := h
  cases cs with
  | nil => exact absurd rfl hne
  | cons c cs =>
    rw [List.all_cons, Bool.and_eq_true] at hchars
    have hstart : Scanner.step? ⟨.between, before⟩ c = some ⟨.word [c], before⟩ :=
      startToken?_of_isWordChar hchars.1 before
    have hword : (cs.reverse ++ [c]).reverse = c :: cs := by
      rw [List.reverse_append, List.reverse_reverse, List.reverse_singleton, List.singleton_append]
    refine ⟨⟨.word (cs.reverse ++ [c]), before⟩, ?_, ?_⟩
    · rw [List.foldlM_cons, hstart]
      exact foldlM_word [c] before hchars.2
    · show (word? (cs.reverse ++ [c]).reverse).map _ = _
      rw [hword, hdenotes]
      rfl

/-! ### Strings -/

theorem unitEscape_eq : ∀ n < 0x20,
    unitEscape n = ['\\', 'u', '0', '0', (n / 16).digitChar, (n % 16).digitChar] := by
  decide

theorem hexDigit?_digitChar : ∀ d < 16, hexDigit? d.digitChar = some d := by
  decide

theorem step?_unit {c : Char} {d : Nat} (hd : hexDigit? c = some d) (p : Partial)
    (missing value : Nat) (before : List Token) :
    Scanner.step? ⟨.unit p missing value, before⟩ c =
      some (if missing ≤ 1 then ⟨.string (p.pushUnit (16 * value + d)), before⟩
        else ⟨.unit p (missing - 1) (16 * value + d), before⟩) := by
  show (hexDigit? c).map _ = _
  rw [hd]
  rfl

/-- An escaped control character is read back. -/
theorem foldlM_unitEscape {n : Nat} (hn : n < 0x20) (p : Partial) (before : List Token) :
    (unitEscape n).foldlM Scanner.step? ⟨.string p, before⟩ =
      some ⟨.string (p.push (Char.ofNat n)), before⟩ := by
  have hhigh : Scanner.step? ⟨.unit p 2 0, before⟩ (n / 16).digitChar =
      some ⟨.unit p 1 (16 * 0 + n / 16), before⟩ :=
    step?_unit (hexDigit?_digitChar (n / 16) (by omega)) p 2 0 before
  have hlow : Scanner.step? ⟨.unit p 1 (16 * 0 + n / 16), before⟩ (n % 16).digitChar =
      some ⟨.string (p.pushUnit n), before⟩ := by
    rw [step?_unit (hexDigit?_digitChar (n % 16) (by omega)),
      show 16 * (16 * 0 + n / 16) + n % 16 = n by omega]
    rfl
  have hpush : p.pushUnit n = p.push (Char.ofNat n) := by
    rw [Partial.pushUnit, if_neg (by simp; omega), if_neg (by simp; omega)]
  rw [unitEscape_eq n hn]
  show List.foldlM Scanner.step? ⟨.unit p 2 0, before⟩ [_, _] = _
  rw [List.foldlM_cons, hhigh, ← hpush]
  show List.foldlM Scanner.step? _ [_] = _
  rw [List.foldlM_cons, hlow]
  rfl

/-- A printed character is read back. -/
theorem foldlM_printedChar (p : Partial) (before : List Token) (c : Char) :
    (printedChar c).foldlM Scanner.step? ⟨.string p, before⟩ = some ⟨.string (p.push c), before⟩ := by
  rw [printedChar]
  split
  · next hc => rw [hc]; rfl
  split
  · next hc => rw [hc]; rfl
  split
  · next hc => rw [foldlM_unitEscape hc, Char.ofNat_toNat]
  · next hquote hslash hcontrol =>
    have hquote' : (c == '"') = false := beq_false_of_ne hquote
    have hslash' : (c == '\\') = false := beq_false_of_ne hslash
    simp only [List.foldlM, Scanner.step?, hquote', hslash', hcontrol]
    rfl

theorem foldlM_printedChars (cs : List Char) (p : Partial) (before : List Token) :
    (cs.flatMap printedChar).foldlM Scanner.step? ⟨.string p, before⟩ =
      some ⟨.string (cs.foldl Partial.push p), before⟩ := by
  induction cs generalizing p with
  | nil => rfl
  | cons c cs ih =>
    rw [List.flatMap_cons, List.foldlM_append, foldlM_printedChar]
    exact ih (p.push c)

theorem foldl_push (cs chars : List Char) :
    cs.foldl Partial.push { chars } = { chars := cs.reverse ++ chars } := by
  induction cs generalizing chars with
  | nil => rfl
  | cons c cs ih =>
    rw [List.reverse_cons, List.append_assoc]
    exact ih (c :: chars)

/-- Characters that are read one by one are a text. -/
theorem text_foldl_push (s : String) : (s.toList.foldl Partial.push {}).text = some s := by
  rw [show ({} : Partial) = { chars := [] } from rfl, foldl_push, List.append_nil, Partial.text,
    List.reverse_reverse, String.ofList_toList]
  rfl

theorem scans_string (s : String) : Scans (printedString (some s)).toList [.string (some s)] := by
  intro before
  refine ⟨⟨.between, .string (some s) :: before⟩, ?_, rfl⟩
  have hchars : (printedString (some s)).toList = '"' :: (s.toList.flatMap printedChar ++ ['"']) := by
    rw [printedString, String.toList_append, String.toList_append, Option.getD_some,
      show "\"".toList = ['"'] from rfl, String.toList_ofList, List.singleton_append, List.cons_append]
  rw [hchars, List.foldlM_cons]
  show List.foldlM Scanner.step? ⟨.string {}, before⟩ _ = _
  rw [List.foldlM_append, foldlM_printedChars, ← text_foldl_push s]
  rfl

end TokenPatterns.Json
