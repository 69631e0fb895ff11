import DiceFormula.Proofs.Acceptance
import DiceFormula.Proofs.ArbitraryMemos
import DiceFormula.Proofs.Sessions
import DiceFormula.Proofs.Unambiguous
import Mathlib

namespace DiceFormula

/-- The work that builds an expression from its operands. -/
def Expr.construct (limit : Limit.Reading) : Expr → Eval Expr
  | roll memo count faces => mkRoll limit memo count faces
  | binary memo op left right => mkBinary limit memo op left right
  | e => return e

/-- Building the expression ends with the fault, as a check or the limit has it. -/
def Expr.FailsWith (e : Expr) (limit : Limit.Reading) (fault : Fault) : Prop :=
  e.Refused limit fault ∧ ∃ store later, e.construct limit store = .error fault later

/-- Building from safe operands gives a safe expression, unless a check or the limit refuses it. -/
theorem constructs_safe {limit : Limit.Reading} {memo : MemoName} :
    Constructs limit memo Store.Truthful Expr.Safe fun e fault => e.FailsWith limit fault where
  number _ := trivial
  roll _ _ hc hf := (Expr.mkRoll_meets hc hf).faulted
  binary _ _ _ ho hl hr := (Expr.mkBinary_meets ho hl hr).faulted

theorem Expr.Refused.not_syntactic {e : Expr} {limit : Limit.Reading} {fault : Fault}
    (h : e.Refused limit fault) : fault.category? ≠ some .syntactic := by
  rcases h with hstop | ⟨check, rfl, -⟩
  · cases fault with
    | limit | tooComplex => exact nofun
    | format | check | number | missing | noOutcome | given => exact hstop.elim
  · exact nofun

theorem Fault.category?_format {cause : FormatCause} {position : Nat} (h : cause ≠ .unrecognized) :
    (format ⟨cause, position⟩).category? = some .syntactic := by
  cases cause with
  | unrecognized => exact absurd rfl h
  | operandExpected | unclosed | chained | trailing | stated => rfl

/-- The first part that breaks a check, from left to right and operands before the whole. -/
def Expr.BreaksFirst (e part : Expr) (check : Check) : Prop :=
  ∃ front behind, e.compounds = front ++ part :: behind ∧
    (∀ before ∈ front, ∀ check, ¬ before.Breaks check) ∧ part.Breaks check

variable {before : Session} {memo : MemoName} {source : String} {tokens : Tokens}

/-- Without a limit a formula is parsed to the expression that the grammar gives to it, or refused
for the check that its first broken part breaks. -/
theorem parse_decides (hb : before.Reached) (ht : tokenize source = .ok tokens)
    (d : Derivation .sum) (hd : d.lexemes = tokens.lexemes) :
    (∃ later, parse (.ok none) memo source before.store = .ok (d.expr memo) later ∧
      ∀ part ∈ (d.expr memo).compounds, ∀ check, ¬ part.Breaks check) ∨
    ∃ part check later, parse (.ok none) memo source before.store = .error (.check check) later ∧
      (d.expr memo).BreaksFirst part check := by
  have hsafe : Constructs (.ok none) memo Store.Truthful Expr.Safe _ := constructs_safe
  have hmeets := parse_grammatical hsafe ht d hd
  cases hr : parse (.ok none) memo source before.store with
  | ok e later =>
    obtain ⟨⟨rfl, hsafe⟩, -⟩ := hmeets.of_ok hb.sound.truthful hr
    exact .inl ⟨later, rfl, fun part hpart => (hsafe part hpart).not_breaks⟩
  | error fault later =>
    obtain ⟨⟨front, part, behind, hall, hfront, hrefused, -⟩, -⟩ :=
      hmeets.of_error hb.sound.truthful hr
    rcases hrefused with hstop | ⟨check, rfl, hbreaks⟩
    · exact absurd hstop Limit.not_stops_none
    · exact .inr ⟨part, check, later, rfl, front, behind, hall,
        fun before hbefore => (hfront before hbefore).not_breaks, hbreaks⟩

/-- Without a limit a formula is parsed to the expression that the grammar gives to it exactly when
no part of that breaks a check, and otherwise refused for the check that the first such part
breaks. -/
theorem parse_rejects_exactly (hb : before.Reached) (ht : tokenize source = .ok tokens)
    (d : Derivation .sum) (hd : d.lexemes = tokens.lexemes) :
    ((∃ later, parse (.ok none) memo source before.store = .ok (d.expr memo) later) ↔
      ∀ part ∈ (d.expr memo).compounds, ∀ check, ¬ part.Breaks check) ∧
    ((∃ part ∈ (d.expr memo).compounds, ∃ check, part.Breaks check) →
      ∃ part check later, parse (.ok none) memo source before.store = .error (.check check) later ∧
        (d.expr memo).BreaksFirst part check) := by
  rcases parse_decides hb ht d hd with ⟨later, hr, hnone⟩ | ⟨part, check, later, hr, hfirst⟩
  · refine ⟨⟨fun _ => hnone, fun _ => ⟨later, hr⟩⟩, fun hbroken => ?_⟩
    obtain ⟨part, hpart, check, hbreaks⟩ := hbroken
    exact absurd hbreaks (hnone part hpart check)
  · refine ⟨⟨fun hok => ?_, fun hnone => ?_⟩, fun _ => ⟨part, check, later, hr, hfirst⟩⟩
    · obtain ⟨later', hok⟩ := hok
      rw [hr] at hok
      cases hok
    · obtain ⟨front, behind, hall, -, hbreaks⟩ := hfirst
      exact absurd hbreaks (hnone part (by rw [hall]; simp) check)

/-- How `0/(1d3-2)` is derived. -/
def quotientDerivation : Derivation .sum :=
  .term (.times true (.factor (.bare (.single (.literal (.unsigned 0)))))
    (.bare (.single (.parens (.plus true
      (.term (.factor (.bare (.dice (.literal (.unsigned 1)) (.literal (.unsigned 3))))))
      (.factor (.bare (.single (.literal (.unsigned 2))))))))))

/-- The divisor may be zero, and so may the dividend. -/
theorem parse_rejects_exactly_quotient :
    ∃ tokens : Tokens, tokenize "0/(1d3-2)" = .ok tokens ∧
      quotientDerivation.lexemes = tokens.lexemes ∧
      ((∃ later, parse (.ok none) "" "0/(1d3-2)" {} = .ok (quotientDerivation.expr "") later) ↔
        ∀ part ∈ (quotientDerivation.expr "").compounds, ∀ check, ¬ part.Breaks check) ∧
      ((∃ part ∈ (quotientDerivation.expr "").compounds, ∃ check, part.Breaks check) →
        ∃ part check later, parse (.ok none) "" "0/(1d3-2)" {} = .error (.check check) later ∧
          (quotientDerivation.expr "").BreaksFirst part check) := by
  have ht : ∃ tokens, tokenize "0/(1d3-2)" = .ok tokens ∧
      quotientDerivation.lexemes = tokens.lexemes := by
    refine ⟨?_, ?_, ?_⟩
    rotate_left 1
    · cbv
      rfl
    · rfl
  obtain ⟨tokens, ht, hd⟩ := ht
  exact ⟨tokens, ht, hd, parse_rejects_exactly .start ht quotientDerivation hd⟩

/-- A formula has one derivation, and is parsed to its expression unless building a part of that
fails. Anything else is faulted for its syntax, unless building a part fails that ends no later than
the first place where the tokens go wrong. -/
theorem parse_follows_grammar (hb : before.Reached) {limit : Limit.Reading}
    (ht : tokenize source = .ok tokens) :
    (∀ d d' : Derivation .sum, d.lexemes = tokens.lexemes → d'.lexemes = tokens.lexemes →
      d = d') ∧
    (∀ d : Derivation .sum, d.lexemes = tokens.lexemes →
      (∃ later, parse limit memo source before.store = .ok (d.expr memo) later) ∨
      ∃ fault later, parse limit memo source before.store = .error fault later ∧
        fault.category? ≠ some .syntactic ∧
        ∃ part ∈ (d.expr memo).compounds, part.FailsWith limit fault) ∧
    (¬ Grammatical tokens.lexemes →
      ∃ fault later, parse limit memo source before.store = .error fault later ∧
        (fault.category? = some .syntactic ∨
          ∃ place, IsLeast {i | SyntaxErrorAt tokens.lexemes i} place ∧
          ∃ d : Derivation .sum, d.lexemes.take place = tokens.lexemes.take place ∧
          ∃ part stop, (part, stop) ∈ d.compounds memo 0 ∧ stop ≤ place ∧
            part.FailsWith limit fault)) := by
  have hsafe : Constructs limit memo Store.Truthful Expr.Safe _ := constructs_safe
  refine ⟨fun d d' hd hd' => Derivation.eq_of_lexemes_eq (hd.trans hd'.symm), ?_, ?_⟩
  · intro d hd
    have hmeets := parse_grammatical hsafe ht d hd
    cases hr : parse limit memo source before.store with
    | ok e later =>
      obtain ⟨⟨rfl, -⟩, -⟩ := hmeets.of_ok hb.sound.truthful hr
      exact .inl ⟨later, rfl⟩
    | error fault later =>
      obtain ⟨⟨front, part, behind, hall, -, hfails⟩, -⟩ :=
        hmeets.of_error hb.sound.truthful hr
      exact .inr ⟨fault, later, rfl, hfails.1.not_syntactic, part, by rw [hall]; simp, hfails⟩
  · intro hn
    obtain ⟨place, cause, hcause, hplace, d, htake, hmeets⟩ := parse_not_grammatical hsafe ht hn
    cases hr : parse limit memo source before.store with
    | ok e later => exact (hmeets.of_ok hb.sound.truthful hr).1.elim
    | error fault later =>
      refine ⟨fault, later, rfl, ?_⟩
      rcases (hmeets.of_error hb.sound.truthful hr).1 with ⟨part, stop, hpart, hle, hfails⟩ | rfl
      · exact .inr ⟨place, hplace, d, htake, part, stop, hpart, hle, hfails⟩
      · exact .inl (Fault.category?_format hcause)

/-- The division is refused before the parenthesis is, where the text goes wrong. -/
theorem parse_follows_grammar_unopened :
    ∃ tokens : Tokens, tokenize "1/0)" = .ok tokens ∧
      (∀ d d' : Derivation .sum, d.lexemes = tokens.lexemes → d'.lexemes = tokens.lexemes →
        d = d') ∧
      (∀ d : Derivation .sum, d.lexemes = tokens.lexemes →
        (∃ later, parse (.ok (some 3)) "m" "1/0)" {} = .ok (d.expr "m") later) ∨
        ∃ fault later, parse (.ok (some 3)) "m" "1/0)" {} = .error fault later ∧
          fault.category? ≠ some .syntactic ∧
          ∃ part ∈ (d.expr "m").compounds, part.FailsWith (.ok (some 3)) fault) ∧
      (¬ Grammatical tokens.lexemes →
        ∃ fault later, parse (.ok (some 3)) "m" "1/0)" {} = .error fault later ∧
          (fault.category? = some .syntactic ∨
            ∃ place, IsLeast {i | SyntaxErrorAt tokens.lexemes i} place ∧
            ∃ d : Derivation .sum, d.lexemes.take place = tokens.lexemes.take place ∧
            ∃ part stop, (part, stop) ∈ d.compounds "m" 0 ∧ stop ≤ place ∧
              part.FailsWith (.ok (some 3)) fault)) := by
  have ht : ∃ tokens, tokenize "1/0)" = .ok tokens := by
    refine ⟨?_, ?_⟩
    rotate_left 1
    · cbv
      rfl
  obtain ⟨tokens, ht⟩ := ht
  exact ⟨tokens, ht, parse_follows_grammar .start ht⟩

theorem Fault.Textual.of_syntactic {fault : Fault} (h : fault.category? = some .syntactic) :
    fault.Textual := by
  cases fault with
  | format => trivial
  | check | tooComplex | limit | number | missing | noOutcome | given => cases h

/-- Whatever the memos hold, a fault of syntax is reported at the token where the reading stopped,
and that is the first place where the tokens go wrong. -/
theorem syntax_error_exact {limit : Limit.Reading} {store later : Store} {fault : Fault}
    (hp : parse limit memo source store = .error fault later)
    (hf : fault.category? = some .syntactic) :
    ∃ tokens place cause position, tokenize source = .ok tokens ∧
      fault = .format ⟨cause, position⟩ ∧
      Cursor.parse limit memo ⟨tokens, 0⟩ .formula store =
        .error ⟨fault, ⟨tokens, place⟩⟩ later ∧
      (tokens.items.map Token.position ++ [source.length])[place]? = some position ∧
      IsLeast {i | SyntaxErrorAt tokens.lexemes i} place := by
  cases ht : tokenize source with
  | error e =>
    rw [parse_eq, ht] at hp
    cases hp
    obtain ⟨cause, position⟩ := e
    obtain rfl : cause = .unrecognized := tokenize_error ht
    cases hf
  | ok tokens =>
    obtain ⟨halt, hhalt, rfl⟩ := parse_error ht hp
    have htextual := Fault.Textual.of_syntactic hf
    have hbuilt : Constructs limit memo _ _ _ := Expr.constructs_textless
    by_cases hg : Grammatical tokens.lexemes
    · obtain ⟨d, hd⟩ := hg
      obtain ⟨⟨_, _, _, _, -, -, hbad, -⟩, -⟩ :=
        (Cursor.parse_derivation hbuilt d hd).of_error trivial hhalt
      exact absurd htextual hbad
    · obtain ⟨place, cause, -, hplace, d, -, hmeets⟩ :=
        Cursor.parse_not_grammatical hbuilt (tokenize_ok ht).1 hg
      rcases (hmeets.of_error trivial hhalt).1 with ⟨_, _, -, -, hbad⟩ | rfl
      · exact absurd htextual hbad
      · have hle : place ≤ tokens.items.length := by
          simpa [Tokens.lexemes] using hplace.1.le_length
        refine ⟨tokens, place, cause, _, rfl, rfl, hhalt, ?_, hplace⟩
        rw [← (tokenize_ok ht).2]
        exact Cursor.position_current hle

/-- A sign in front of a parenthesis is no part of a number. -/
theorem syntax_error_exact_sign :
    ∃ fault later, parse (.ok none) "" "2*-(1)" {} = .error fault later ∧
      fault.category? = some .syntactic ∧
      ∃ tokens place cause position, tokenize "2*-(1)" = .ok tokens ∧
        fault = .format ⟨cause, position⟩ ∧
        Cursor.parse (.ok none) "" ⟨tokens, 0⟩ .formula {} =
          .error ⟨fault, ⟨tokens, place⟩⟩ later ∧
        (tokens.items.map Token.position ++ ["2*-(1)".length])[place]? = some position ∧
        IsLeast {i | SyntaxErrorAt tokens.lexemes i} place := by
  have hp : ∃ later, parse (.ok none) "" "2*-(1)" {} =
      .error (.format ⟨.operandExpected, 2⟩) later := by
    refine ⟨?_, ?_⟩
    rotate_left 1
    · cbv
      rfl
  obtain ⟨later, hp⟩ := hp
  exact ⟨_, later, hp, rfl, syntax_error_exact hp rfl⟩

end DiceFormula
