import DiceFormula.Proofs.Scanning

namespace DiceFormula

/-- The characters of formulas: digits, marks and blanks. -/
def Legible (c : Char) : Prop :=
  c.isDigit = true ∨ c ∈ ['(', ')', '+', '-', '*', '/', '^', 'd'] ∨ c ∈ [' ', '\t', '\n', '\u3000']

instance : DecidablePred Legible := fun _ => inferInstanceAs (Decidable (_ ∨ _ ∨ _))

/-- The text is legible up to `place`, where it is not. -/
def FirstIllegible (cs : List Char) (place : Nat) : Prop :=
  ∃ front c behind, cs = front ++ c :: behind ∧ (∀ d ∈ front, Legible d) ∧ ¬ Legible c ∧
    place = front.length

/-- The text spells the lexemes: a mark by its symbol and a number by digits, with any blanks around
them, and at least one between two numbers. -/
inductive Spells : List Char → List Lexeme → Prop
  | nil : Spells [] []
  | gap {c : Char} {cs : List Char} {lexemes : List Lexeme} (blank : isGap c = true)
      (rest : Spells cs lexemes) : Spells (c :: cs) lexemes
  | mark {cs : List Char} {lexemes : List Lexeme} (m : Mark) (rest : Spells cs lexemes) :
      Spells (m.symbol :: cs) (.mark m :: lexemes)
  | number {cs : List Char} {lexemes : List Lexeme} (ds : List Char) (some : ds ≠ [])
      (digits : ∀ c ∈ ds, c.isDigit = true)
      (apart : ∀ n, lexemes.head? = .some (.number n) → ∃ c ∈ cs.head?, isGap c = true)
      (rest : Spells cs lexemes) :
      Spells (ds ++ cs) (.number (Nat.ofDigitChars 10 ds 0) :: lexemes)

/-- The token stands in the text at its place: a mark at its symbol, a number at the first one of
digits that neither a digit precedes nor one follows, and the end behind all characters. -/
inductive TokenAt (cs : List Char) : Token → Prop
  | mark (front : List Char) (m : Mark) (behind : List Char)
      (text : cs = front ++ m.symbol :: behind) : TokenAt cs ⟨.mark m, front.length⟩
  | number (front ds behind : List Char) (text : cs = front ++ (ds ++ behind)) (some : ds ≠ [])
      (digits : ∀ c ∈ ds, c.isDigit = true) (before : ∀ c ∈ front.getLast?, c.isDigit = false)
      (after : NoDigitFirst behind) :
      TokenAt cs ⟨.number (Nat.ofDigitChars 10 ds 0), front.length⟩
  | stop : TokenAt cs ⟨.stop, cs.length⟩

/-- Digits stand together at `place`, and there are more than are read. -/
def Overlong (most : Option Nat) (cs : List Char) (place : Nat) : Prop :=
  ∃ front ds behind, cs = front ++ (ds ++ behind) ∧ (∀ c ∈ ds, c.isDigit = true) ∧
    (∀ c ∈ front.getLast?, c.isDigit = false) ∧ NoDigitFirst behind ∧ place = front.length ∧
    ∃ bound ∈ most, bound < ds.length

/-- The tokens with the end behind them. -/
def Tokens.ended (tokens : Tokens) : List Token := tokens.items ++ [⟨.stop, tokens.length⟩]

section Characters

variable {c : Char} {cs : List Char}

theorem legible_iff :
    Legible c ↔ c.isDigit = true ∨ (∃ m : Mark, c = m.symbol) ∨ isGap c = true := by
  have hmark : c ∈ ['(', ')', '+', '-', '*', '/', '^', 'd'] ↔ ∃ m : Mark, c = m.symbol := by
    have hsymbols : ['(', ')', '+', '-', '*', '/', '^', 'd'] =
        [Mark.lparen, .rparen, .plus, .minus, .star, .slash, .caret, .die].map Mark.symbol := rfl
    rw [hsymbols, List.mem_map]
    constructor
    · exact fun ⟨m, _, h⟩ => ⟨m, h.symm⟩
    · intro h
      obtain ⟨m, rfl⟩ := h
      exact ⟨m, by cases m <;> simp, rfl⟩
  have hgap : c ∈ [' ', '\t', '\n', '\u3000'] ↔ isGap c = true := by
    simp [isGap, or_assoc]
  rw [Legible, hmark, hgap]

theorem Mark.symbol_injective {m n : Mark} (h : m.symbol = n.symbol) : m = n := by
  cases m <;> cases n <;> first | rfl | exact absurd h (by decide)

theorem not_isDigit_of_isGap (h : isGap c = true) : c.isDigit = false := by
  simp only [isGap, Bool.or_eq_true, beq_iff_eq, or_assoc] at h
  rcases h with rfl | rfl | rfl | rfl <;> rfl

theorem symbol_ne_of_isGap (h : isGap c = true) (m : Mark) : c ≠ m.symbol := by
  rintro rfl
  cases m <;> cases h

theorem ofChar?_eq_none (h : ∀ m : Mark, c ≠ m.symbol) : Mark.ofChar? c = none := by
  simp only [Mark.ofChar?, List.find?_eq_none, decide_eq_true_eq]
  exact fun m _ => (h m).symm

theorem scan_gap {most : Option Nat} (h : isGap c = true) (position : Nat) :
    scan most position none (c :: cs) = scan most (position + 1) none cs := by
  simp only [scan, digit?_of_not_isDigit (not_isDigit_of_isGap h),
    ofChar?_eq_none (symbol_ne_of_isGap h), h]
  cases scan most (position + 1) none cs <;> rfl

theorem scan_illegible {most : Option Nat} (h : ¬ Legible c) (position : Nat) :
    scan most position none (c :: cs) = .error (.character position) := by
  simp only [legible_iff, not_or, not_exists, Bool.not_eq_true] at h
  obtain ⟨hd, hm, hg⟩ := h
  simp only [scan, digit?_of_not_isDigit hd, ofChar?_eq_none hm, hg]
  rfl

end Characters

section Failure

variable {cs : List Char}

theorem exists_firstIllegible (h : ¬ ∀ c ∈ cs, Legible c) : ∃ place, FirstIllegible cs place := by
  simp only [Classical.not_forall, exists_prop] at h
  cases hfind : cs.find? fun c => !decide (Legible c) with
  | none =>
    obtain ⟨c, hc, hl⟩ := h
    exact absurd hl (by simpa using List.find?_eq_none.mp hfind c hc)
  | some c =>
    obtain ⟨hl, front, behind, rfl, hfront⟩ := List.find?_eq_some_iff_append.mp hfind
    exact ⟨_, front, c, behind, rfl, by simpa using hfront, by simpa using hl, rfl⟩

end Failure

section Spelling

variable {cs : List Char} {lexemes : List Lexeme}

/-- A spelled text that starts with a digit starts with a number. -/
theorem Spells.number_of_digit {c : Char} (h : Spells (c :: cs) lexemes) (hc : c.isDigit = true) :
    ∃ n, lexemes.head? = some (.number n) := by
  generalize htext : c :: cs = text at h
  cases h with
  | nil => cases htext
  | gap blank =>
    obtain ⟨rfl, -⟩ := List.cons.inj htext
    rw [not_isDigit_of_isGap blank] at hc
    cases hc
  | mark m =>
    obtain ⟨rfl, -⟩ := List.cons.inj htext
    rw [m.not_isDigit_symbol] at hc
    cases hc
  | number ds => exact ⟨_, rfl⟩

/-- Numbers that are kept apart end where they are spelled to end. -/
theorem Spells.noDigitFirst (h : Spells cs lexemes)
    (apart : ∀ n, lexemes.head? = some (.number n) → ∃ c ∈ cs.head?, isGap c = true) :
    NoDigitFirst cs := by
  intro c hc
  cases hd : c.isDigit with
  | false => rfl
  | true =>
    cases cs with
    | nil => cases hc
    | cons d cs =>
      obtain rfl : d = c := Option.some.inj hc
      obtain ⟨n, hn⟩ := h.number_of_digit hd
      obtain ⟨e, he, hgap⟩ := apart n hn
      obtain rfl : d = e := Option.some.inj he
      rw [← hd, not_isDigit_of_isGap hgap]

/-- A digit in front of a spelled text starts a number, or lengthens the one that stands there. -/
theorem Spells.digit {c : Char} (hc : c.isDigit = true) (h : Spells cs lexemes) :
    ∃ lexemes', Spells (c :: cs) lexemes' := by
  have alone (apart : ∀ n, lexemes.head? = some (.number n) → ∃ c ∈ cs.head?, isGap c = true) :
      ∃ lexemes', Spells (c :: cs) lexemes' :=
    ⟨_, .number [c] (List.cons_ne_nil _ _) (by simpa using hc) apart h⟩
  cases h with
  | nil => exact alone nofun
  | gap blank => exact alone fun _ _ => ⟨_, rfl, blank⟩
  | mark => exact alone nofun
  | number ds _ digits apart rest =>
    exact ⟨_, .number (c :: ds) (List.cons_ne_nil _ _) (List.forall_mem_cons.mpr ⟨hc, digits⟩)
      apart rest⟩

theorem exists_spells (h : ∀ c ∈ cs, Legible c) : ∃ lexemes, Spells cs lexemes := by
  induction cs with
  | nil => exact ⟨[], .nil⟩
  | cons c cs ih =>
    simp only [List.forall_mem_cons] at h
    obtain ⟨lexemes, hrest⟩ := ih h.2
    rcases legible_iff.mp h.1 with hd | ⟨m, rfl⟩ | hg
    · exact hrest.digit hd
    · exact ⟨_, .mark m hrest⟩
    · exact ⟨_, .gap hg hrest⟩

/-- A mark that a text spells is one of its characters. -/
theorem Spells.symbol_mem (h : Spells cs lexemes) {m : Mark} (hm : .mark m ∈ lexemes) :
    m.symbol ∈ cs := by
  induction h with
  | nil => cases hm
  | gap _ _ ih => exact .tail _ (ih hm)
  | mark n _ ih =>
    rcases List.mem_cons.mp hm with h | h
    · cases h
      exact .head _
    · exact .tail _ (ih h)
  | number ds _ _ _ _ ih => exact List.mem_append_right ds (ih (by simpa using hm))

end Spelling

section Places

variable {cs : List Char} {token : Token}

/-- A token other than the end stands at a mark, or at a digit that no digit precedes. -/
theorem TokenAt.character (h : TokenAt cs token) (hs : token.lexeme ≠ .stop) :
    ∃ c, cs[token.position]? = some c ∧ ((∃ m : Mark, c = m.symbol) ∨ c.isDigit = true ∧
      ∀ place d, token.position = place + 1 → cs[place]? = some d → d.isDigit = false) := by
  cases h with
  | mark front m behind text =>
    subst text
    exact ⟨m.symbol, by simp, .inl ⟨m, rfl⟩⟩
  | number front ds behind text some digits before after =>
    subst text
    cases ds with
    | nil => exact absurd rfl some
    | cons c ds =>
      refine ⟨c, by simp, .inr ⟨digits c (.head _), fun place d hplace hd => before d ?_⟩⟩
      have hlt : place < front.length := by simp only at hplace; omega
      rw [List.getElem?_append_left hlt] at hd
      simp only at hplace
      simpa [List.getLast?_eq_getElem?, hplace] using hd
  | stop => exact absurd rfl hs

/-- At one place there is one token. -/
theorem TokenAt.unique {other : Token} (h : TokenAt cs token) (ho : TokenAt cs other)
    (hs : token.lexeme ≠ .stop) (hos : other.lexeme ≠ .stop)
    (hp : token.position = other.position) : token = other := by
  cases h with
  | stop => exact absurd rfl hs
  | mark front m behind text =>
    subst text
    cases ho with
    | stop => exact absurd rfl hos
    | mark front' m' behind' text =>
      obtain ⟨rfl, hrest⟩ := List.append_inj text hp
      rw [Mark.symbol_injective (List.cons.inj hrest).1]
    | number front' ds behind' text some digits =>
      obtain ⟨rfl, hrest⟩ := List.append_inj text hp
      exact absurd hrest.symm (digits_append_ne some digits m.not_isDigit_symbol)
  | number front ds behind text some digits before after =>
    subst text
    cases ho with
    | stop => exact absurd rfl hos
    | mark front' m behind' text =>
      obtain ⟨rfl, hrest⟩ := List.append_inj text hp
      exact absurd hrest (digits_append_ne some digits m.not_isDigit_symbol)
    | number front' ds' behind' text some' digits' before' after' =>
      obtain ⟨rfl, hrest⟩ := List.append_inj text hp
      rw [(digits_append_inj digits digits' after after' hrest).1]

/-- The tokens are those of the text from `start` on, in order and without the end. -/
structure TokensFrom (cs : List Char) (start : Nat) (items : List Token) : Prop where
  ascending : items.Pairwise fun token next => token.position < next.position
  mem_iff : ∀ token, token ∈ items ↔
    token.lexeme ≠ .stop ∧ TokenAt cs token ∧ start ≤ token.position

/-- No token but the end stands at a place from `start` up to `stop`. -/
def NoTokenWithin (cs : List Char) (start stop : Nat) : Prop :=
  ∀ token, token.lexeme ≠ .stop → TokenAt cs token → start ≤ token.position → stop ≤ token.position

theorem noTokenWithin_gap {front : List Char} {c : Char} (h : isGap c = true) :
    NoTokenWithin (front ++ c :: cs) front.length (front.length + 1) := by
  intro token hs ht hle
  obtain ⟨d, hd, hclass⟩ := ht.character hs
  rcases Nat.lt_or_eq_of_le hle with hlt | heq
  · exact hlt
  · obtain rfl : c = d := by simpa [← heq] using hd
    rcases hclass with ⟨m, hm⟩ | ⟨hdigit, -⟩
    · exact absurd hm (symbol_ne_of_isGap h m)
    · rw [not_isDigit_of_isGap h] at hdigit
      cases hdigit

/-- Behind the first one of digits that stand together no number starts. -/
theorem noTokenWithin_digits {front ds : List Char} (h : ∀ c ∈ ds, c.isDigit = true) :
    NoTokenWithin (front ++ (ds ++ cs)) (front.length + 1) (front.length + ds.length) := by
  intro token hs ht hle
  obtain ⟨d, hd, hclass⟩ := ht.character hs
  refine Nat.le_of_not_lt fun hlt => ?_
  have hat {place : Nat} {c : Char} (hge : front.length ≤ place)
      (hin : place < front.length + ds.length) (hc : (front ++ (ds ++ cs))[place]? = some c) :
      c.isDigit = true := by
    rw [List.getElem?_append_right hge, List.getElem?_append_left (by omega)] at hc
    exact h c (List.mem_of_getElem? hc)
  rcases hclass with ⟨m, rfl⟩ | ⟨-, hbefore⟩
  · have := hat (by omega) hlt hd
    rw [m.not_isDigit_symbol] at this
    cases this
  · obtain ⟨place, hplace⟩ := Nat.exists_eq_add_one_of_ne_zero (n := token.position) (by omega)
    have hin : place < (front ++ (ds ++ cs)).length := by
      simp only [List.length_append]
      omega
    have hc := List.getElem?_eq_getElem hin
    have := hat (by omega) (by omega) hc
    rw [hbefore place _ hplace hc] at this
    cases this

namespace TokensFrom

variable {start next : Nat} {items : List Token}

theorem nil : TokensFrom cs cs.length [] := by
  refine ⟨.nil, fun token => ⟨nofun, fun ⟨hs, h, hle⟩ => ?_⟩⟩
  obtain ⟨c, hc, -⟩ := h.character hs
  have := (List.getElem?_eq_some_iff.mp hc).1
  omega

theorem skip (h : TokensFrom cs next items) (hle : start ≤ next)
    (hno : NoTokenWithin cs start next) : TokensFrom cs start items := by
  refine ⟨h.ascending, fun token => (h.mem_iff token).trans ?_⟩
  constructor
  · exact fun ⟨hs, ht, hp⟩ => ⟨hs, ht, Nat.le_trans hle hp⟩
  · exact fun ⟨hs, ht, hp⟩ => ⟨hs, ht, hno token hs ht hp⟩

/-- A token and those behind it. -/
theorem cons (h : TokensFrom cs next items) (hs : token.lexeme ≠ .stop) (ht : TokenAt cs token)
    (hlt : token.position < next) (hno : NoTokenWithin cs (token.position + 1) next) :
    TokensFrom cs token.position (token :: items) := by
  refine ⟨List.pairwise_cons.mpr ⟨fun other ho => ?_, h.ascending⟩, fun other => ?_⟩
  · exact Nat.lt_of_lt_of_le hlt ((h.mem_iff other).mp ho).2.2
  · rw [List.mem_cons, h.mem_iff]
    constructor
    · rintro (rfl | ⟨hos, ho, hp⟩)
      · exact ⟨hs, ht, Nat.le_refl _⟩
      · exact ⟨hos, ho, by omega⟩
    · rintro ⟨hos, ho, hp⟩
      rcases Nat.lt_or_eq_of_le hp with hp | hp
      · exact .inr ⟨hos, ho, hno other hos ho hp⟩
      · exact .inl (ho.unique ht hos hs hp.symm)

end TokensFrom

end Places

section Limit

variable {most : Option Nat} {cs : List Char} {place : Nat}

theorem not_overlong_none : ¬ Overlong none cs place := by
  rintro ⟨_, _, _, _, _, _, _, _, _, hbound, _⟩
  cases hbound

/-- As many digits as are read make a token. -/
theorem Digits.token?_of_le {digits : Digits} (h : ∀ bound ∈ most, digits.count ≤ bound) :
    Digits.token? most (some digits) = .ok [⟨.number digits.value, digits.position⟩] := by
  cases most with
  | none => rfl
  | some bound => exact dif_neg (Nat.not_lt.mpr (h bound rfl))

theorem Digits.token?_of_lt {digits : Digits} (h : ∃ bound ∈ most, bound < digits.count) :
    ∃ refusal, Digits.token? most (some digits) = .error refusal ∧
      refusal.fault = .number .digits := by
  obtain ⟨bound, rfl, hlt⟩ := h
  exact ⟨_, dif_pos hlt, rfl⟩

end Limit

/-- The numbers of the text that start from `start` up to `stop` can be read. -/
def ReadWithin (most : Option Nat) (cs : List Char) (start stop : Nat) : Prop :=
  ∀ place, start ≤ place → place < stop → ¬ Overlong most cs place

/-- A spelled text between others is cut into the tokens that stand there, when all of its numbers
can be read. -/
theorem Spells.scan {cs : List Char} {lexemes : List Lexeme} (h : Spells cs lexemes)
    (front behind : List Char)
    (hfront : NoDigitFirst cs ∨ ∀ c ∈ front.getLast?, c.isDigit = false)
    (hbehind : NoDigitFirst behind ∨ ∀ c ∈ cs.getLast?, c.isDigit = false) :
    ∃ items, items.map Token.lexeme = lexemes ∧ TokensFrom (front ++ cs) front.length items ∧
      ∀ most, ReadWithin most (front ++ (cs ++ behind)) front.length (front.length + cs.length) →
        DiceFormula.scan most front.length none (cs ++ behind) = do
          return items ++ (← DiceFormula.scan most (front.length + cs.length) none behind) := by
  have hlast {first rest : List Char} (h : NoDigitFirst behind ∨
      ∀ c ∈ (first ++ rest).getLast?, c.isDigit = false) :
      NoDigitFirst behind ∨ ∀ c ∈ rest.getLast?, c.isDigit = false :=
    h.imp_right fun h c hc => h c (by rw [List.getLast?_append, Option.mem_def.mp hc]; rfl)
  induction h generalizing front with
  | nil =>
    refine ⟨[], rfl, by simpa using TokensFrom.nil, fun most _ => ?_⟩
    simp
  | @gap c cs lexemes blank rest ih =>
    obtain ⟨items, hlex, hitems, hscan⟩ := ih (front ++ [c])
      (.inr (by simpa using not_isDigit_of_isGap blank)) (@hlast [c] cs hbehind)
    simp only [List.append_assoc, List.singleton_append, List.length_append,
      List.length_singleton] at hitems hscan
    have hskip := hitems.skip (Nat.le_succ _) (noTokenWithin_gap blank)
    refine ⟨items, hlex, hskip, fun most hread => ?_⟩
    rw [List.cons_append, scan_gap blank, hscan most fun place hge hlt => hread place (by omega) ?_]
    · simp only [List.length_cons, Nat.add_assoc, Nat.add_comm 1]
    · simp only [List.length_cons]
      omega
  | @mark cs lexemes m rest ih =>
    obtain ⟨items, hlex, hitems, hscan⟩ := ih (front ++ [m.symbol])
      (.inr (by simpa using m.not_isDigit_symbol)) (@hlast [m.symbol] cs hbehind)
    simp only [List.append_assoc, List.singleton_append, List.length_append,
      List.length_singleton] at hitems hscan
    refine ⟨⟨.mark m, front.length⟩ :: items, by simp [hlex],
      hitems.cons (by simp) (.mark front m cs rfl) (Nat.lt_succ_self _) fun _ _ _ => id,
      fun most hread => ?_⟩
    rw [List.cons_append, scan_symbol, hscan most fun place hge hlt => hread place (by omega) ?_]
    · simp only [List.length_cons, Nat.add_assoc, Nat.add_comm 1]
      cases DiceFormula.scan most (front.length + (cs.length + 1)) none behind <;> rfl
    · simp only [List.length_cons]
      omega
  | @number cs lexemes ds some digits apart rest ih =>
    have hn := rest.noDigitFirst apart
    have hafter : NoDigitFirst (cs ++ behind) := by
      cases cs with
      | cons c cs => exact noDigitFirst_cons (hn c rfl)
      | nil =>
        refine hbehind.resolve_right fun hno => ?_
        rw [List.append_nil] at hno
        have := hno _ (List.getLast?_eq_some_getLast some)
        rw [digits _ (List.getLast_mem some)] at this
        cases this
    have hbefore : ∀ c ∈ front.getLast?, c.isDigit = false := by
      refine hfront.resolve_left fun hno => ?_
      cases ds with
      | nil => exact some rfl
      | cons d ds =>
        have := hno d rfl
        rw [digits d (.head _)] at this
        cases this
    have hpos := List.length_pos_iff.mpr some
    obtain ⟨items, hlex, hitems, hscan⟩ := ih (front ++ ds) (.inl hn) (hlast hbehind)
    simp only [List.append_assoc, List.length_append] at hitems hscan
    refine ⟨⟨.number (Nat.ofDigitChars 10 ds 0), front.length⟩ :: items, by simp [hlex], ?_,
      fun most hread => ?_⟩
    · exact hitems.cons (by simp) (.number front ds cs rfl some digits hbefore hn)
        (by simpa using hpos) (noTokenWithin_digits digits)
    · have hfew : ∀ bound ∈ most, ds.length ≤ bound := by
        refine fun bound hbound => Nat.le_of_not_lt fun hlt => ?_
        refine hread front.length (Nat.le_refl _) (by simp; omega) ?_
        exact ⟨front, ds, cs ++ behind, by simp, digits, hbefore, hafter, rfl, bound, hbound, hlt⟩
      rw [List.append_assoc, scan_run some digits hafter, Digits.token?_of_le hfew,
        hscan most fun place hge hlt => ?_]
      · simp only [List.length_append, Nat.add_assoc]
        cases DiceFormula.scan most (front.length + (ds.length + cs.length)) none behind <;> rfl
      · have := hread place (by omega) (by simp only [List.length_append]; omega)
        simpa using this

end DiceFormula
