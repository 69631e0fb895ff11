import DiceFormula.Call
import DiceFormula.Proofs.ArbitraryMemos
import DiceFormula.Proofs.Progress
import DiceFormula.Proofs.Tokenizing

namespace DiceFormula

namespace Cursor

variable {limit : Limit.Reading} {memo : MemoName} {cursor : Cursor} {rule : Rule}

/-- What is left of the tokens. -/
def left (cursor : Cursor) : List Token := cursor.tokens.items.drop cursor.index

/-- Where the reading of a rule may stop: not before the cursor and not behind the tokens, and a
fault of the text is one of the token there. -/
def StopsWell (cursor : Cursor) (halt : Halt) : Prop :=
  ∃ taken ≤ cursor.left.length, halt.cursor = cursor.skip taken ∧
    ∀ e, halt.fault = .format e → e.position = halt.cursor.current.position

/-- A part that is refused stops the reading at a token, and not for the text. -/
theorem stopsWell_of_refused {made : List (Expr × Nat)} {good : Expr → Prop} {halt : Halt}
    (h : RefusedFirst made good (fun _ fault => ¬ fault.Textual) cursor halt)
    (hmade : ∀ part ∈ made, part.2 ≤ cursor.left.length) : cursor.StopsWell halt := by
  obtain ⟨front, part, stop, behind, rfl, -, hfault, hcursor⟩ := h
  refine ⟨stop, hmade (part, stop) (by simp), hcursor, fun e he => ?_⟩
  rw [he] at hfault
  exact absurd trivial hfault

/-- A rule gives the expression of a phrase at the front of what is left, and leaves the cursor
behind the phrase, or it stops at one of the tokens. -/
theorem parse_phrase :
    Meets (fun _ => True) (parse limit memo cursor rule)
      (fun r => ∃ d : Derivation rule, r = (d.expr memo, cursor.skip d.lexemes.length) ∧
        d.lexemes <+: cursor.left.map Token.lexeme)
      cursor.StopsWell := by
  obtain ⟨d, later, hsteps, htaken, -, hinside, hdone⟩ := rule.read_along cursor.left
  have hbuilds : Builds memo [] (d.steps 0) (d.compounds memo 0) [d.expr memo] := .phrase d 0
  have hmade {made : List (Expr × Nat)} {last : List Expr}
      (h : Builds memo [] (rule.read cursor.left).steps made last) :
      ∀ part ∈ made, part.2 ≤ cursor.left.length := by
    intro part hpart
    obtain ⟨step, hstep, hstop⟩ := h.made_at_step part hpart
    exact hstop ▸ hinside step hstep
  rw [hsteps] at hbuilds
  unfold parse
  simp only
  cases hcause : (rule.read cursor.left).cause with
  | none =>
    obtain ⟨rfl, hlength, hfront⟩ := hdone hcause
    rw [List.append_nil] at hbuilds
    refine Meets.bind ((hbuilds.meets Expr.constructs_textless (by simp)).widen fun halt h => ?_) ?_
    · exact stopsWell_of_refused h (hmade hbuilds)
    · rintro stack ⟨rfl, -⟩
      rw [← left, hcause]
      exact Meets.pure ⟨d, by rw [hlength]; rfl, hfront⟩
  | some cause =>
    obtain ⟨mid, front, behind, hfront, -⟩ := hbuilds.of_append
    refine Meets.bind ((hfront.meets Expr.constructs_textless (by simp)).widen fun halt h => ?_) ?_
    · exact stopsWell_of_refused h (hmade hfront)
    · intro stack _
      rw [← left, hcause]
      exact Meets.throw ⟨_, htaken, rfl, fun e he => by cases he; rfl⟩

/-- Any number of tokens ahead stands one of them or their end. -/
theorem ended_ahead (cursor : Cursor) (offset : Nat) :
    cursor.tokens.ended[min (cursor.index + offset) cursor.tokens.items.length]? =
      some (cursor.ahead offset) := by
  simp only [Tokens.ended, ahead]
  rcases Nat.lt_or_ge (cursor.index + offset) cursor.tokens.items.length with hlt | hge
  · rw [Nat.min_eq_left (Nat.le_of_lt hlt), List.getElem?_append_left hlt,
      List.getElem?_eq_getElem hlt]
    rfl
  · rw [Nat.min_eq_right hge, List.getElem?_concat_length, List.getElem?_eq_none hge]
    rfl

/-- Where calls in any order lead from the first token, whether or not they fail. The limit and the
memos may change in between. -/
inductive Visited (memo : MemoName) (tokens : Tokens) : Cursor → Prop
  | start : Visited memo tokens ⟨tokens, 0⟩
  | call {cursor : Cursor} (before : Visited memo tokens cursor) (limit : Limit.Reading)
      (store : Store) (call : Call) :
      Visited memo tokens (cursor.call limit memo store call).cursor

/-- The cursor stands in the tokens. -/
structure Within (tokens : Tokens) (cursor : Cursor) : Prop where
  same : cursor.tokens = tokens
  inside : cursor.index ≤ tokens.items.length

/-- The cursor has not moved back, and not behind the tokens. -/
structure Forward (cursor later : Cursor) : Prop where
  same : later.tokens = cursor.tokens
  le : cursor.index ≤ later.index
  inside : later.index ≤ cursor.tokens.items.length

theorem Within.refl_forward {tokens : Tokens} (h : Within tokens cursor) : cursor.Forward cursor :=
  ⟨rfl, Nat.le_refl _, h.same ▸ h.inside⟩

theorem Within.forward_next {tokens : Tokens} (h : Within tokens cursor) :
    cursor.Forward cursor.next := by
  obtain ⟨rfl, hinside⟩ := h
  refine ⟨rfl, ?_, Nat.min_le_right _ _⟩
  simp only [next]
  omega

theorem Within.forward_skip {tokens : Tokens} (h : Within tokens cursor) {taken : Nat}
    (ht : taken ≤ cursor.left.length) : cursor.Forward (cursor.skip taken) := by
  obtain ⟨rfl, hinside⟩ := h
  rw [left, List.length_drop] at ht
  refine ⟨rfl, Nat.le_add_right _ _, ?_⟩
  simp only [skip]
  omega

/-- What a call gives: a token of the list, or the expression of a phrase that is taken. A fault of
the text is one of the token where the call stopped. -/
def Call.Gives (memo : MemoName) (cursor : Cursor) (call : Call) (later : Cursor) :
    Except Fault Find → Prop
  | .ok (.token token) => token ∈ cursor.tokens.ended
  | .ok (.expr e) => ∃ rule, call = .rule rule ∧ ∃ d : Derivation rule, e = d.expr memo ∧
      0 < d.lexemes.length ∧ later.index = cursor.index + d.lexemes.length ∧
      d.lexemes <+: cursor.left.map Token.lexeme
  | .error fault => ∀ e, fault = .format e → e.position = later.current.position

theorem Within.call_moves {tokens : Tokens} (h : Within tokens cursor) (limit : Limit.Reading)
    (memo : MemoName) (store : Store) (call : Call) :
    let after := cursor.call limit memo store call
    cursor.Forward after.cursor ∧ call.Gives memo cursor after.cursor after.result := by
  have htoken (offset : Nat) : cursor.ahead offset ∈ cursor.tokens.ended :=
    List.mem_of_getElem? (cursor.ended_ahead offset)
  cases call with
  | current => exact ⟨h.refl_forward, htoken 0⟩
  | next => exact ⟨h.forward_next, htoken 0⟩
  | peek offset => exact ⟨h.refl_forward, htoken offset⟩
  | advance expected message =>
    by_cases hkind : cursor.current.lexeme.kind = expected
    · simp only [Cursor.call, advance, if_pos hkind]
      exact ⟨h.forward_next, htoken 0⟩
    · simp only [Cursor.call, advance, if_neg hkind]
      exact ⟨h.refl_forward, fun e he => by cases he; rfl⟩
  | rule rule =>
    have hphrase : Meets (fun _ => True) (cursor.parse limit memo rule) _ _ := parse_phrase
    simp only [Cursor.call]
    cases hr : cursor.parse limit memo rule store with
    | ok r later =>
      obtain ⟨⟨d, rfl, hfront⟩, -⟩ := hphrase.of_ok trivial hr
      have hle : d.lexemes.length ≤ cursor.left.length := by simpa using hfront.length_le
      exact ⟨h.forward_skip hle, rule, rfl, d, rfl, d.length_pos, rfl, hfront⟩
    | error halt later =>
      obtain ⟨⟨taken, htaken, hcursor, hposition⟩, -⟩ := hphrase.of_error trivial hr
      refine ⟨?_, hposition⟩
      have hforward := h.forward_skip htaken
      rwa [← hcursor] at hforward

theorem Visited.within {tokens : Tokens} (h : Visited memo tokens cursor) :
    Within tokens cursor := by
  induction h with
  | start => exact ⟨rfl, Nat.zero_le _⟩
  | call _ limit store call ih =>
    have hforward := (ih.call_moves limit memo store call).1
    exact ⟨hforward.same.trans ih.same, ih.same ▸ hforward.inside⟩

theorem Within.current_at {tokens : Tokens} (h : Within tokens cursor) :
    tokens.ended[cursor.index]? = some cursor.current := by
  obtain ⟨rfl, hinside⟩ := h
  have hahead := cursor.ended_ahead 0
  rwa [Nat.add_zero, Nat.min_eq_left hinside] at hahead

/-- Wherever calls have led, also through failures, the cursor stands at a token, and one more call
does not leave the tokens and does not move back. A rule ends with the expression of the phrase it
takes or with a fault, and what it takes and builds is bounded by the tokens left. -/
theorem calls_stay_valid {tokens : Tokens} (h : Visited memo tokens cursor) (limit : Limit.Reading)
    (store : Store) (call : Call) :
    let after := cursor.call limit memo store call
    (cursor.tokens = tokens ∧ tokens.ended[cursor.index]? = some cursor.current) ∧
    (after.cursor.tokens = tokens ∧
      tokens.ended[after.cursor.index]? = some after.cursor.current) ∧
    cursor.index ≤ after.cursor.index ∧
    call.Gives memo cursor after.cursor after.result ∧
    ∀ rule, call = .rule rule →
      (rule.read cursor.left).taken ≤ cursor.left.length ∧
      (rule.read cursor.left).steps.length ≤ cursor.left.length ∧
      (∀ step ∈ (rule.read cursor.left).steps, step.taken ≤ cursor.left.length) ∧
      ((∃ e, after.result = .ok (.expr e)) ∨ ∃ fault, after.result = .error fault) := by
  have hnow := h.within
  have hlater := (h.call limit store call).within
  obtain ⟨hforward, hgives⟩ := hnow.call_moves limit memo store call
  refine ⟨⟨hnow.same, hnow.current_at⟩, ⟨hlater.same, hlater.current_at⟩, hforward.le, hgives, ?_⟩
  rintro rule rfl
  obtain ⟨d, later, -, htaken, hcount, hinside, -⟩ := rule.read_along cursor.left
  refine ⟨htaken, hcount, hinside, ?_⟩
  simp only [Cursor.call]
  cases cursor.parse limit memo rule store with
  | ok r later => exact .inl ⟨r.1, rfl⟩
  | error halt later => exact .inr ⟨halt.fault, rfl⟩

/-- A parenthesis stops the formula. Behind it a sum can be read. -/
theorem calls_stay_valid_resumed :
    ∃ tokens, tokenize "2+)-3" = .ok tokens ∧
      let failed := Cursor.call (.ok none) "" {} ⟨tokens, 0⟩ (.rule .formula)
      let passed := failed.cursor.call (.ok none) "" failed.store .next
      let after := passed.cursor.call (.ok none) "" passed.store (.rule .sum)
      failed.result = .error (.format ⟨.operandExpected, 2⟩) ∧
      Visited "" tokens passed.cursor ∧
      after.result = .ok (.expr (.number "" (-3))) ∧
      failed.cursor.index = 2 ∧ passed.cursor.index = 3 ∧ after.cursor.index = 5 ∧
      (Call.rule .sum).Gives "" passed.cursor after.cursor after.result ∧
      tokens.ended[after.cursor.index]? = some after.cursor.current := by
  have ht : ∃ tokens, tokenize "2+)-3" = .ok tokens ∧
      let failed := Cursor.call (.ok none) "" {} ⟨tokens, 0⟩ (.rule .formula)
      let passed := failed.cursor.call (.ok none) "" failed.store .next
      let after := passed.cursor.call (.ok none) "" passed.store (.rule .sum)
      failed.result = .error (.format ⟨.operandExpected, 2⟩) ∧
      after.result = .ok (.expr (.number "" (-3))) ∧
      failed.cursor.index = 2 ∧ passed.cursor.index = 3 ∧ after.cursor.index = 5 := by
    refine ⟨?_, ?_, ?_⟩
    rotate_left 1
    · cbv
      rfl
    · exact ⟨rfl, rfl, rfl, rfl, rfl⟩
  obtain ⟨tokens, ht, hfails, hresult, hfrom, hpassed, hto⟩ := ht
  have hvisited : Visited "" tokens
      ((Cursor.call (.ok none) "" {} ⟨tokens, 0⟩ (.rule .formula)).cursor.call (.ok none) ""
        (Cursor.call (.ok none) "" {} ⟨tokens, 0⟩ (.rule .formula)).store .next).cursor :=
    .call (.call .start _ _ _) _ _ _
  obtain ⟨-, ⟨-, hat⟩, -, hgives, -⟩ := calls_stay_valid hvisited (.ok none) _ (.rule .sum)
  exact ⟨tokens, ht, hfails, hvisited, hresult, hfrom, hpassed, hto, hgives, hat⟩

end Cursor

end DiceFormula
