import DiceFormula.Proofs.Texts
import DiceFormula.Scan

namespace DiceFormula

/-- What the tokens say. -/
def Tokens.lexemes (tokens : Tokens) : List Lexeme := tokens.items.map Token.lexeme

/-- The end is not among the tokens, where there are any. -/
def Endless (result : Except ε (List Token)) : Prop :=
  match result with
  | .ok items => ∀ token ∈ items, token.lexeme ≠ .stop
  | .error _ => True

theorem Endless.bind {result : Except ε (List Token)} {next : List Token → Except ε (List Token)}
    (h : Endless result)
    (hn : ∀ items : List Token, (∀ token ∈ items, token.lexeme ≠ .stop) → Endless (next items)) :
    Endless (result >>= next) := by
  cases result with
  | error e => trivial
  | ok items => exact hn items h

section Ends

variable {most : Option Nat}

theorem endless_token? {digits : Option Digits} : Endless (Digits.token? most digits) := by
  cases digits with
  | none => exact nofun
  | some ds =>
    cases most with
    | none => simp [Digits.token?, Endless]
    | some bound =>
      simp only [Digits.token?]
      split
      · trivial
      · simp [Endless]

theorem endless_scan (position : Nat) (digits : Option Digits) (cs : List Char) :
    Endless (scan most position digits cs) := by
  induction cs generalizing position digits with
  | nil => exact endless_token?
  | cons c rest ih =>
    simp only [scan]
    split
    · exact ih _ _
    · refine endless_token?.bind fun number hnumber => ?_
      split
      · refine (ih _ _).bind fun items hitems => List.forall_mem_append.mpr ⟨hnumber, ?_⟩
        exact List.forall_mem_cons.mpr ⟨nofun, hitems⟩
      · split
        · exact (ih _ _).bind fun items hitems => List.forall_mem_append.mpr ⟨hnumber, hitems⟩
        · trivial

end Ends

section Tokenize

variable {source : String} {tokens : Tokens}

theorem tokenize_eq_ok :
    tokenize source = .ok tokens ↔ tokenizeWithin none source = .ok tokens := by
  unfold tokenize
  constructor
  · intro h
    cases hr : tokenizeWithin none source with
    | ok other =>
      rw [hr] at h
      cases h
      rfl
    | error refusal =>
      rw [hr] at h
      cases h
  · intro h
    rw [h]
    rfl

/-- Where numbers have any number of digits, a text is refused only for a character. -/
theorem tokenize_eq_error {e : FormatError} :
    tokenize source = .error e ↔
      ∃ position, tokenizeWithin none source = .error (.character position) ∧
        e = ⟨.unrecognized, position⟩ := by
  unfold tokenize
  constructor
  · intro h
    cases hr : tokenizeWithin none source with
    | ok other =>
      rw [hr] at h
      cases h
    | error refusal =>
      rw [hr] at h
      cases refusal with
      | character position =>
        cases h
        exact ⟨position, rfl, rfl⟩
  · intro h
    obtain ⟨position, hposition, rfl⟩ := h
    rw [hposition]
    rfl

theorem tokenize_ok (h : tokenize source = .ok tokens) :
    .stop ∉ tokens.lexemes ∧ tokens.length = source.length := by
  have hend : Endless (scan none 0 none source.toList) := endless_scan 0 none source.toList
  rw [tokenize_eq_ok, tokenizeWithin] at h
  cases hr : scan none 0 none source.toList with
  | error refusal =>
    rw [hr] at h
    cases h
  | ok items =>
    rw [hr] at h hend
    cases h
    refine ⟨fun hm => ?_, rfl⟩
    obtain ⟨token, hm, hstop⟩ := List.mem_map.mp hm
    exact hend token hm hstop

theorem tokenize_error {e : FormatError} (h : tokenize source = .error e) :
    e.cause = .unrecognized := by
  obtain ⟨position, -, rfl⟩ := tokenize_eq_error.mp h
  rfl

end Tokenize

/-- The text is cut into tokens that say the lexemes, wherever it stands. -/
def Scans (cs : List Char) (lexemes : List Lexeme) : Prop :=
  ∀ position, ∃ items, scan none position none cs = .ok items ∧ items.map Token.lexeme = lexemes

section Scans

variable {most : Option Nat} {cs : List Char} {lexemes : List Lexeme}

theorem scans_nil : Scans [] [] := fun _ => ⟨[], rfl, rfl⟩

theorem digit?_of_isDigit {c : Char} (h : c.isDigit = true) :
    digit? c = some (c.toNat - '0'.toNat) := by
  simp only [Char.isDigit, Bool.and_eq_true, decide_eq_true_eq] at h
  simp only [digit?, Char.le_def, Bool.and_eq_true, decide_eq_true_eq]
  exact if_pos h

theorem digit?_of_not_isDigit {c : Char} (h : c.isDigit = false) : digit? c = none := by
  simp only [Char.isDigit, Bool.and_eq_false_iff, decide_eq_false_iff_not] at h
  simp only [digit?, Char.le_def, Bool.and_eq_true, decide_eq_true_eq]
  refine if_neg fun hc => ?_
  rcases h with h | h
  · exact h hc.1
  · exact h hc.2

theorem Mark.not_isDigit_symbol (m : Mark) : m.symbol.isDigit = false := by cases m <;> rfl

theorem Mark.ofChar?_symbol (m : Mark) : ofChar? m.symbol = some m := by cases m <;> rfl

theorem scan_symbol (m : Mark) (position : Nat) :
    scan most position none (m.symbol :: cs) = do
      return ⟨.mark m, position⟩ :: (← scan most (position + 1) none cs) := by
  simp only [scan, digit?_of_not_isDigit m.not_isDigit_symbol, m.ofChar?_symbol]
  cases scan most (position + 1) none cs <;> rfl

theorem scans_mark (m : Mark) (h : Scans cs lexemes) :
    Scans (m.symbol :: cs) (.mark m :: lexemes) := by
  intro position
  obtain ⟨items, hscan, hlex⟩ := h (position + 1)
  exact ⟨⟨.mark m, position⟩ :: items, by rw [scan_symbol, hscan]; rfl, by rw [List.map_cons, hlex]⟩

/-- Digits make the number that they write, in front of what is no digit. -/
theorem scan_digits {ds : List Char} (hd : ∀ c ∈ ds, c.isDigit = true) (position : Nat)
    (digits : Digits) :
    scan most position (some digits) (ds ++ cs) =
      scan most (position + ds.length)
        (some ⟨digits.position, Nat.ofDigitChars 10 ds digits.value, digits.count + ds.length⟩)
        cs := by
  induction ds generalizing position digits with
  | nil => rfl
  | cons d ds ih =>
    simp only [List.forall_mem_cons] at hd
    simp only [List.cons_append, scan, digit?_of_isDigit hd.1, ih hd.2, Digits.push,
      List.length_cons, Nat.ofDigitChars_cons, Nat.mul_comm, Nat.add_assoc, Nat.add_comm 1]

/-- A number ends where no digit follows. -/
theorem scan_number (h : NoDigitFirst cs) (position : Nat) (digits : Digits) :
    scan most position (some digits) cs = do
      let number ← Digits.token? most (some digits)
      return number ++ (← scan most position none cs) := by
  cases cs with
  | nil =>
    simp only [scan]
    cases Digits.token? most (some digits) with
    | error refusal => rfl
    | ok number => exact congrArg Except.ok (List.append_nil number).symm
  | cons c cs =>
    have hc : digit? c = none := digit?_of_not_isDigit (h c rfl)
    simp only [scan, hc]
    refine bind_congr fun number => ?_
    cases Mark.ofChar? c with
    | some m => cases scan most (position + 1) none cs <;> rfl
    | none =>
      cases isGap c with
      | true => cases scan most (position + 1) none cs <;> rfl
      | false => rfl

/-- Digits that stand together are one number. -/
theorem scan_run {ds : List Char} (hne : ds ≠ []) (hd : ∀ c ∈ ds, c.isDigit = true)
    (hn : NoDigitFirst cs) (position : Nat) :
    scan most position none (ds ++ cs) = do
      let number ← Digits.token? most (some ⟨position, Nat.ofDigitChars 10 ds 0, ds.length⟩)
      return number ++ (← scan most (position + ds.length) none cs) := by
  cases ds with
  | nil => exact absurd rfl hne
  | cons d ds =>
    simp only [List.forall_mem_cons] at hd
    rw [List.cons_append, scan, digit?_of_isDigit hd.1]
    simp only [Digits.push, scan_digits hd.2, scan_number hn, Nat.ofDigitChars_cons, Nat.mul_zero,
      Nat.zero_add, List.length_cons, Nat.add_assoc, Nat.add_comm 1]

theorem scans_number (n : Nat) (hn : NoDigitFirst cs) (h : Scans cs lexemes) :
    Scans (Nat.toDigits 10 n ++ cs) (.number n :: lexemes) := by
  intro position
  obtain ⟨items, hscan, hlex⟩ := h (position + (Nat.toDigits 10 n).length)
  refine ⟨⟨.number n, position⟩ :: items, ?_, by rw [List.map_cons, hlex]⟩
  rw [scan_run toDigits_ne_nil isDigit_of_mem_toDigits hn, hscan, Nat.ofDigitChars_ten_toDigits]
  rfl

/-- The text comes before anything but a digit, and adds its lexemes to those of what follows. -/
def ScansBefore (text : List Char) (words : List Lexeme) : Prop :=
  ∀ cs lexemes, NoDigitFirst cs → Scans cs lexemes → Scans (text ++ cs) (words ++ lexemes)

/-- Two texts around a mark, in parentheses. -/
theorem scansBefore_pair {left right : List Char} {v w : List Lexeme} (m : Mark)
    (hl : ScansBefore left v) (hr : ScansBefore right w) (h : Scans cs lexemes) :
    Scans ('(' :: (left ++ m.symbol :: (right ++ ')' :: cs)))
      (.mark .lparen :: (v ++ .mark m :: (w ++ .mark .rparen :: lexemes))) := by
  have hm : NoDigitFirst (m.symbol :: (right ++ ')' :: cs)) :=
    noDigitFirst_cons (by cases m <;> rfl)
  have hclose : NoDigitFirst (')' :: cs) := noDigitFirst_cons rfl
  exact scans_mark .lparen (hl _ _ hm (scans_mark m (hr _ _ hclose (scans_mark .rparen h))))

end Scans

end DiceFormula
