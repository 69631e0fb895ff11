import DiceFormula.Proofs.Constructions
import DiceFormula.Proofs.Prefixes
import DiceFormula.Proofs.Scanning

namespace DiceFormula

section Parse

variable {limit : Limit.Reading} {memo : MemoName} {inv : Store → Prop} {good : Expr → Prop}
  {bad : Expr → Fault → Prop} {tokens : Tokens}

theorem Rule.read_eq_spelled (rule : Rule) (items : List Token) :
    rule.read items = .spelled rule.goals 0 (items.map Token.lexeme) :=
  Reading.run_eq_spelled rule.goals 0 items

namespace Cursor

theorem read_derivation (d : Derivation .sum) (hd : d.lexemes = tokens.lexemes) :
    Rule.formula.read (tokens.items.drop 0) = ⟨d.steps 0, d.lexemes.length, none⟩ := by
  rw [List.drop_zero, Rule.read_eq_spelled, ← Tokens.lexemes, ← hd, Reading.spelled_formula]

/-- Where tokens that are no formula go wrong first the reading ends. The steps up to there make parts
of a formula that has the same lexemes in front. -/
theorem read_not_grammatical (memo : MemoName) (hs : .stop ∉ tokens.lexemes)
    (hn : ¬ Grammatical tokens.lexemes) :
    ∃ steps place cause, Rule.formula.read (tokens.items.drop 0) = ⟨steps, place, some cause⟩ ∧
      cause ≠ .unrecognized ∧ IsLeast {i | SyntaxErrorAt tokens.lexemes i} place ∧
      ∃ (d : Derivation .sum) (made : List (Expr × Nat)) (last : List Expr),
        d.lexemes.take place = tokens.lexemes.take place ∧ Builds memo [] steps made last ∧
        ∀ part ∈ made, part ∈ d.compounds memo 0 ∧ part.2 ≤ place := by
  obtain ⟨steps, place, cause, hspelled, hcause, hplace, d, later, htake, hsteps, htaken⟩ :=
    Reading.spelled_of_not_grammatical hs hn
  have hbuilds : Builds memo [] (d.steps 0) (d.compounds memo 0) [d.expr memo] := .phrase d 0
  rw [hsteps] at hbuilds
  obtain ⟨last, made, behind, hmade, hall⟩ := hbuilds.of_append
  refine ⟨steps, place, cause, ?_, hcause, hplace, d, made, last, htake, hmade, fun part hpart => ?_⟩
  · rw [List.drop_zero, Rule.read_eq_spelled, ← Tokens.lexemes, hspelled]
  · obtain ⟨step, hstep, hstop⟩ := hmade.made_at_step part hpart
    rw [hall, hstop]
    exact ⟨List.mem_append_left _ hpart, htaken step hstep⟩

/-- A formula that can be derived is read as the expression that the grammar gives to it, or a part
of it is refused. -/
theorem parse_derivation (hc : Constructs limit memo inv good bad) (d : Derivation .sum)
    (hd : d.lexemes = tokens.lexemes) :
    Meets inv (parse limit memo ⟨tokens, 0⟩ .formula)
      (fun r => r.1 = d.expr memo ∧ ∀ part ∈ d.compounds memo 0, good part.1)
      (RefusedFirst (d.compounds memo 0) good bad ⟨tokens, 0⟩) := by
  unfold parse
  rw [read_derivation d hd]
  refine Meets.bind ((Builds.phrase d 0).meets hc (by simp)) fun stack hs => Meets.pure ?_
  obtain ⟨rfl, hgood⟩ := hs
  exact ⟨rfl, hgood⟩

/-- Tokens that are no formula are never read as one. Where they go wrong first they are faulted,
unless a part that ends there or earlier is refused. -/
theorem parse_not_grammatical (hc : Constructs limit memo inv good bad)
    (hs : .stop ∉ tokens.lexemes) (hn : ¬ Grammatical tokens.lexemes) :
    ∃ place cause, cause ≠ .unrecognized ∧ IsLeast {i | SyntaxErrorAt tokens.lexemes i} place ∧
      ∃ d : Derivation .sum, d.lexemes.take place = tokens.lexemes.take place ∧
        Meets inv (parse limit memo ⟨tokens, 0⟩ .formula) (fun _ => False) fun halt =>
          (∃ e stop, (e, stop) ∈ d.compounds memo 0 ∧ stop ≤ place ∧ bad e halt.fault) ∨
          halt = ⟨.format ⟨cause, (current ⟨tokens, place⟩).position⟩, ⟨tokens, place⟩⟩ := by
  obtain ⟨steps, place, cause, hread, hcause, hplace, d, made, last, htake, hmade, hinside⟩ :=
    read_not_grammatical memo hs hn
  refine ⟨place, cause, hcause, hplace, d, htake, ?_⟩
  unfold parse
  rw [hread]
  refine Meets.bind ((hmade.meets hc (by simp)).widen fun halt hhalt => .inl ?_) fun stack _ => ?_
  · obtain ⟨front, e, stop, behind, rfl, -, hbad, -⟩ := hhalt
    obtain ⟨hmem, hle⟩ := hinside (e, stop) (by simp)
    exact ⟨e, stop, hmem, hle, hbad⟩
  · refine Meets.throw (.inr ?_)
    simp [skip]

theorem position_current {place : Nat} (h : place ≤ tokens.items.length) :
    (tokens.items.map Token.position ++ [tokens.length])[place]? =
      some (current ⟨tokens, place⟩).position := by
  simp only [current, ahead, Nat.add_zero]
  rcases Nat.lt_or_eq_of_le h with hlt | rfl
  · rw [List.getElem?_append_left (by simpa using hlt), List.getElem?_map,
      List.getElem?_eq_getElem hlt]
    rfl
  · simp

end Cursor

variable {source : String}

/-- A grammatical formula is parsed to its expression, or the first part that is refused ends it. -/
theorem parse_grammatical (hc : Constructs limit memo inv good bad)
    (ht : tokenize source = .ok tokens) (d : Derivation .sum) (hd : d.lexemes = tokens.lexemes) :
    Meets inv (parse limit memo source)
      (fun e => e = d.expr memo ∧ ∀ part ∈ (d.expr memo).compounds, good part)
      fun fault => ∃ front part behind, (d.expr memo).compounds = front ++ part :: behind ∧
        (∀ before ∈ front, good before) ∧ bad part fault := by
  rw [parse_eq, ht]
  refine Meets.bind (Meets.adaptExcept ((Cursor.parse_derivation hc d hd).widen ?_)) ?_
  · intro halt hhalt
    obtain ⟨front, part, stop, behind, hmade, hfront, hbad, -⟩ := hhalt
    refine ⟨front.map Prod.fst, part, behind.map Prod.fst, ?_, ?_, hbad⟩
    · rw [← d.map_fst_compounds memo 0, hmade, List.map_append, List.map_cons]
    · simpa using fun e taken => hfront (e, taken)
  · intro r hr
    refine Meets.pure ⟨hr.1, fun part hpart => ?_⟩
    rw [← d.map_fst_compounds memo 0] at hpart
    obtain ⟨made, hmade, rfl⟩ := List.mem_map.mp hpart
    exact hr.2 made hmade

/-- What is no formula is never parsed to an expression. -/
theorem parse_not_grammatical (hc : Constructs limit memo inv good bad)
    (ht : tokenize source = .ok tokens) (hn : ¬ Grammatical tokens.lexemes) :
    ∃ place cause, cause ≠ .unrecognized ∧ IsLeast {i | SyntaxErrorAt tokens.lexemes i} place ∧
      ∃ d : Derivation .sum, d.lexemes.take place = tokens.lexemes.take place ∧
        Meets inv (parse limit memo source) (fun _ => False) fun fault =>
          (∃ part stop, (part, stop) ∈ d.compounds memo 0 ∧ stop ≤ place ∧ bad part fault) ∨
          fault = .format ⟨cause, (Cursor.current ⟨tokens, place⟩).position⟩ := by
  obtain ⟨place, cause, hcause, hplace, d, htake, hmeets⟩ :=
    Cursor.parse_not_grammatical hc (tokenize_ok ht).1 hn
  refine ⟨place, cause, hcause, hplace, d, htake, ?_⟩
  rw [parse_eq, ht]
  refine Meets.bind (Meets.adaptExcept (hmeets.widen fun halt hhalt => ?_)) fun _ h => h.elim
  exact hhalt.imp id fun h => congrArg Cursor.Halt.fault h

/-- The fault of a parse comes from reading its tokens. -/
theorem parse_error {store later : Store} {fault : Fault} (ht : tokenize source = .ok tokens)
    (h : parse limit memo source store = .error fault later) :
    ∃ halt : Cursor.Halt, Cursor.parse limit memo ⟨tokens, 0⟩ .formula store = .error halt later ∧
      halt.fault = fault := by
  rw [parse_eq, ht] at h
  simp only [Bind.bind, EStateM.bind, EStateM.adaptExcept] at h
  cases hr : Cursor.parse limit memo ⟨tokens, 0⟩ .formula store with
  | ok r later' =>
    rw [hr] at h
    cases h
  | error halt later' =>
    rw [hr] at h
    cases h
    exact ⟨halt, rfl, rfl⟩

end Parse

end DiceFormula
