import DiceFormula.Proofs.Formulas
import DiceFormula.Proofs.Parsing

namespace DiceFormula

namespace Derivation

def asPower (d : Derivation .operand) : Derivation .power := .bare (.single d)

def asProduct (d : Derivation .operand) : Derivation .product := .factor d.asPower

def asSum (d : Derivation .operand) : Derivation .sum := .term d.asProduct

end Derivation

namespace Expr

/-- How the text of an expression is derived. Texts without a meaning are not. -/
def derivation : Expr → Derivation .operand
  | blank _ => .literal (.unsigned 0)
  | number _ value =>
    .literal (if value < 0 then .signed true value.natAbs else .unsigned value.natAbs)
  | roll _ count faces =>
    .parens (.term (.factor (.bare (.dice count.derivation faces.derivation))))
  | binary _ op left right =>
    .parens (match op with
      | .add => .plus false left.derivation.asSum right.derivation.asProduct
      | .sub => .plus true left.derivation.asSum right.derivation.asProduct
      | .mul => .term (.times false left.derivation.asProduct right.derivation.asPower)
      | .div => .term (.times true left.derivation.asProduct right.derivation.asPower)
      | .pow => .term (.factor (.raised (.single left.derivation) right.derivation.asPower))
      | .unspecified => left.derivation.asSum)

variable {e : Expr} {memo : MemoName}

theorem derivation_expr (he : e.Concrete) : e.derivation.expr memo = e.inMemo memo := by
  induction e with
  | blank => exact he.elim
  | number _ value =>
    simp only [derivation, Derivation.expr, inMemo]
    split
    · simp only [Derivation.expr, signedValue, if_true]
      congr 1
      omega
    · simp only [Derivation.expr]
      congr 1
      omega
  | roll _ count faces ihc ihf =>
    simp only [derivation, Derivation.expr, inMemo, ihc he.1, ihf he.2]
  | binary _ op left right ihl ihr =>
    cases op with
    | unspecified => exact absurd rfl he.1
    | add | sub | mul | div | pow =>
      simp [derivation, Derivation.asSum, Derivation.asProduct, Derivation.asPower,
        Derivation.expr, inMemo, ihl he.2.1, ihr he.2.2, Op.sign, Op.scale]

/-- An operation is written and derived with its mark between the operands. -/
theorem exists_mark {op : Op} (ho : op ≠ .unspecified) (left right : Expr) :
    ∃ m : Mark, op.symbol.toList = [m.symbol] ∧
      (binary memo op left right).derivation.lexemes = .mark .lparen ::
        (left.derivation.lexemes ++ .mark m :: right.derivation.lexemes ++ [.mark .rparen]) := by
  cases op with
  | unspecified => exact absurd rfl ho
  | add => exact ⟨.plus, rfl, rfl⟩
  | sub => exact ⟨.minus, rfl, rfl⟩
  | mul => exact ⟨.star, rfl, rfl⟩
  | div => exact ⟨.slash, rfl, rfl⟩
  | pow => exact ⟨.caret, rfl, rfl⟩

/-- The text of an expression is cut into the lexemes of its derivation. -/
theorem scansBefore_render (he : e.Concrete) :
    ScansBefore e.render.toList e.derivation.lexemes := by
  induction e with
  | blank => exact he.elim
  | number _ value =>
    intro cs lexemes hn h
    rw [render_number, toList_toString_int]
    simp only [derivation, Derivation.lexemes]
    split
    · exact scans_mark .minus (scans_number value.natAbs hn h)
    · exact scans_number value.natAbs hn h
  | roll _ count faces ihc ihf =>
    intro cs lexemes _ h
    rw [toList_render_roll]
    simpa [derivation, Derivation.lexemes, Mark.symbol] using
      scansBefore_pair .die (ihc he.1) (ihf he.2) h
  | binary memo op left right ihl ihr =>
    intro cs lexemes _ h
    obtain ⟨m, hsymbol, hlex⟩ := exists_mark he.1 left right
    rw [toList_render_binary hsymbol, hlex]
    simpa using scansBefore_pair m (ihl he.2.1) (ihr he.2.2) h

theorem tokenize_render (he : e.Concrete) :
    ∃ tokens : Tokens, tokenize e.render = .ok tokens ∧
      e.derivation.asSum.lexemes = tokens.lexemes := by
  obtain ⟨items, hscan, hlex⟩ := scansBefore_render he [] [] noDigitFirst_nil scans_nil 0
  rw [List.append_nil] at hscan hlex
  refine ⟨⟨items, e.render.length⟩, tokenize_eq_ok.mpr ?_, hlex.symm⟩
  rw [tokenizeWithin, hscan]
  rfl

theorem Safe.inMemo (he : e.Safe) (memo : MemoName) : (e.inMemo memo).Safe := by
  induction e with
  | blank => exact he
  | number => exact he
  | roll _ count faces ihc ihf =>
    obtain ⟨hc, hf, hcount, hfaces⟩ := he
    refine ⟨ihc hc, ihf hf, ?_, ?_⟩
    · rwa [yields_inMemo]
    · rwa [yields_inMemo]
  | binary _ op left right ihl ihr =>
    obtain ⟨hl, hr, hw⟩ := he
    refine ⟨ihl hl, ihr hr, ?_⟩
    rwa [yields_inMemo]

/-- All rolls and operations in a safe expression are safe. -/
theorem Safe.compounds (he : e.Safe) : ∀ part ∈ e.compounds, part.Safe := by
  induction e with
  | blank | number => simp [Expr.compounds]
  | roll _ count faces ihl ihr | binary _ op count faces ihl ihr =>
    intro part hpart
    simp only [Expr.compounds, List.mem_append, List.mem_singleton] at hpart
    rcases hpart with (hpart | hpart) | rfl
    · exact ihl he.1 part hpart
    · exact ihr he.2.1 part hpart
    · exact he

theorem render_inMemo (e : Expr) (memo : MemoName) : (e.inMemo memo).render = e.render := by
  induction e with
  | blank | number => rfl
  | roll _ _ _ ihc ihf => simp only [inMemo, render_roll, ihc, ihf]
  | binary _ _ _ _ ihl ihr => simp only [inMemo, render_binary, ihl, ihr]

/-- The text of a safe expression is parsed to the expression, unless the limit stops that. -/
theorem parse_render_meets {limit : Limit.Reading} (he : e.Safe) :
    Meets Store.Truthful (parse limit memo e.render) (· = e.inMemo memo) (Limit.Stops limit) := by
  obtain ⟨tokens, ht, hlex⟩ := tokenize_render he.concrete
  have hexpr : e.derivation.asSum.expr memo = e.inMemo memo := derivation_expr he.concrete
  refine (parse_grammatical constructs_safe ht _ hlex).mono (fun r hr => hr.1.trans hexpr) ?_
  intro fault hfault
  obtain ⟨front, part, behind, hall, -, hrefused, -⟩ := hfault
  rw [hexpr] at hall
  have hpart : part.Safe := (he.inMemo memo).compounds part (by rw [hall]; simp)
  rcases hrefused with hstop | ⟨check, -, hbreaks⟩
  · exact hstop
  · exact absurd hbreaks (hpart.not_breaks check)

end Expr

variable {before : Session} {name : String} {e : Expr}

/-- An expression that was built or parsed in some session is what its text is parsed to in any
session. Expressions with that text are the same, up to the memos of their parts. -/
theorem parse_render (hb : before.Reached) (he : before.names.lookup name = some e)
    (memo : MemoName) :
    (∀ now : Session, now.Reached →
      ∃ later, parse (.ok none) memo e.render now.store = .ok (e.inMemo memo) later) ∧
    (e.inMemo memo).render = e.render ∧
    ∀ (other : Session) (name' : String) (f : Expr), other.Reached →
      other.names.lookup name' = some f → f.render = e.render →
      f.inMemo memo = e.inMemo memo := by
  have hsafe := hb.sound.safe _ (Session.mem_of_lookup he)
  refine ⟨fun now hn => ?_, e.render_inMemo memo, fun other name' f ho hf hrender => ?_⟩
  · obtain ⟨r, later, hr, rfl⟩ := hn.answers (Expr.parse_render_meets hsafe)
    exact ⟨later, hr⟩
  · have hfsafe := ho.sound.safe _ (Session.mem_of_lookup hf)
    exact Expr.inMemo_eq_of_render_eq hfsafe.concrete hsafe.concrete memo hrender

/-- A session with a negative base, built from parts in other memos under a limit. -/
def signedSession : Session :=
  let actions : List Action :=
    [.setLimit (some "0"), .build "b" "x" (.number (-2)), .build "e" "y" (.number 2),
      .build "p" "z" (.binary .pow "b" "e"), .build "s" "x" (.binary .sub "p" "b")]
  actions.foldl (fun session action => (session.step action).2) {}

theorem parse_render_signed :
    signedSession.Reached ∧ ∃ e, signedSession.names.lookup "s" = some e ∧
      e.render = "((-2^2)--2)" ∧
      (∀ now : Session, now.Reached →
        ∃ later, parse (.ok none) "m" e.render now.store = .ok (e.inMemo "m") later) ∧
      (e.inMemo "m").render = e.render ∧
      ∀ (other : Session) (name' : String) (f : Expr), other.Reached →
        other.names.lookup name' = some f → f.render = e.render →
        f.inMemo "m" = e.inMemo "m" := by
  have hreached : signedSession.Reached :=
    .step (.step (.step (.step (.step .start trivial) trivial) trivial) trivial) trivial
  have hname : (signedSession.names.lookup "s").map Expr.render = some "((-2^2)--2)" := by cbv
  obtain ⟨e, he, hrender⟩ := Option.map_eq_some_iff.mp hname
  exact ⟨hreached, e, he, hrender, parse_render hreached he "m"⟩

end DiceFormula
