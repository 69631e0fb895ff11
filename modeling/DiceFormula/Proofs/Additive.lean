import DiceFormula.Proofs.Fragments
import DiceFormula.Proofs.Parsing

namespace DiceFormula

/-- Built of numbers, dice, sums and differences. -/
def Expr.Additive : Expr → Prop
  | number _ _ => True
  | roll _ first second | binary _ .add first second | binary _ .sub first second =>
    first.Additive ∧ second.Additive
  | blank _ | binary _ _ _ _ => False

/-- A lexeme of formulas without products, quotients and powers. -/
def Lexeme.Additive : Lexeme → Prop
  | number _ | mark .plus | mark .minus | mark .lparen | mark .rparen | mark .die => True
  | mark .star | mark .slash | mark .caret | stop => False

namespace Expr

variable {e : Expr} {limit : Limit.Reading} {memo : MemoName}

theorem Additive.parts (h : e.Additive) : ∀ part ∈ e.parts, part.Additive := by
  induction e with
  | blank => exact h.elim
  | number => simpa [Expr.parts] using h
  | roll memo count faces ihc ihf => exact forall_parts_roll.mpr ⟨ihc h.1, ihf h.2, h⟩
  | binary memo op left right ihl ihr =>
    cases op with
    | add | sub => exact forall_parts_binary.mpr ⟨ihl h.1, ihr h.2, h⟩
    | mul | div | pow | unspecified => exact h.elim

/-- The values of a safe additive expression leave nothing out. -/
theorem Additive.contiguous (h : e.Additive) (he : e.Safe) : e.Contiguous := by
  induction e with
  | blank => exact h.elim
  | number memo value => exact ⟨.single value, fun v => Run.mem_single.symm⟩
  | roll memo count faces ihc ihf =>
    exact he.contiguous_roll (ihc h.1 he.1) (ihf h.2 he.2.1)
  | binary memo op left right ihl ihr =>
    cases op with
    | add | sub =>
      obtain ⟨r, hr⟩ := ihl h.1 he.1
      obtain ⟨s, hs⟩ := ihr h.2 he.2.1
      exact ⟨_, yields_of_runs rfl hr hs⟩
    | mul | div | pow | unspecified => exact h.elim

theorem Additive.not_enumerates (h : e.Additive) (he : e.Safe) : ¬ e.Enumerates := by
  cases e with
  | blank => exact he.elim
  | number | roll => exact id
  | binary memo op left right =>
    cases op with
    | add | sub =>
      exact fun hpairs => hpairs ⟨h.1.contiguous he.1, h.2.contiguous he.2.1⟩
    | mul | div | pow | unspecified => exact h.elim

/-- No limit has a say in additive expressions. -/
theorem Additive.evaluates (h : e.Additive) (he : e.Safe) :
    ∀ part ∈ e.parts, part.Evaluates limit fun _ => False := by
  intro part hpart
  refine outcomes_meets_of (he.parts part hpart) fun p hp hpairs => ?_
  have hmem := parts_subset hpart hp
  exact absurd hpairs ((h.parts p hmem).not_enumerates (he.parts p hmem))

/-- Building additive expressions fails for checks only. -/
theorem constructs_additive :
    Constructs limit memo Store.Truthful Safe fun e fault =>
      e.Additive → ∃ check, fault = .check check where
  number _ := trivial
  roll count faces hc hf := by
    by_cases h : (roll memo count faces).Additive
    · have hcn : Meets _ (count.mayBeNegative limit) _ _ :=
        mayBeNegative_meets_of hc (h.1.evaluates hc)
      have hfn : Meets _ (faces.mayBeNegative limit) _ _ :=
        mayBeNegative_meets_of hf (h.2.evaluates hf)
      refine (mkRoll_meets_of hc hf hcn hfn).widen fun fault hfault _ => ?_
      obtain ⟨check, hcheck, -⟩ := hfault.resolve_left id
      exact ⟨check, hcheck⟩
    · exact (mkRoll_meets hc hf).widen fun _ _ ha => absurd ha h
  binary op left right ho hl hr := by
    cases op with
    | add | sub => exact Meets.pure ⟨rfl, hl, hr, fun _ _ => rfl⟩
    | mul | div | pow => exact (mkBinary_meets ho hl hr).widen fun _ _ ha => ha.elim
    | unspecified => exact absurd rfl ho

end Expr

namespace Derivation

variable {rule : Rule} {memo : MemoName}

theorem expr_additive (d : Derivation rule) (h : ∀ x ∈ d.lexemes, x.Additive) :
    (d.expr memo).Additive := by
  induction d with
  | unsigned | signed => trivial
  | literal d ih | single d ih | bare d ih | factor d ih | term d ih | whole d ih => exact ih h
  | parens d ih => exact ih fun x hx => h x (by simp [lexemes, hx])
  | dice count faces ihc ihf =>
    exact ⟨ihc fun x hx => h x (by simp [lexemes, hx]),
      ihf fun x hx => h x (by simp [lexemes, hx])⟩
  | raised base exponent => exact (h (.mark .caret) (by simp [lexemes])).elim
  | times divides left right =>
    have hmark := h (.mark (.scale divides)) (by simp [lexemes])
    cases divides <;> exact hmark.elim
  | plus subtracts left right ihl ihr =>
    have hl := ihl fun x hx => h x (by simp [lexemes, hx])
    have hr := ihr fun x hx => h x (by simp [lexemes, hx])
    cases subtracts <;> exact ⟨hl, hr⟩

end Derivation

section Parse

variable {limit : Limit.Reading} {memo : MemoName} {source : String} {tokens : Tokens}

/-- Additive lexemes make additive expressions, and reading them fails for what is written only. -/
theorem parse_additive (ht : tokenize source = .ok tokens)
    (ha : ∀ x ∈ tokens.lexemes, x.Additive) :
    Meets Store.Truthful (parse limit memo source) Expr.Additive fun fault =>
      (∃ e, fault = .format e) ∨ ∃ check, fault = .check check := by
  by_cases hg : Grammatical tokens.lexemes
  · obtain ⟨d, hd⟩ := hg
    have hwhole : (d.expr memo).Additive := d.expr_additive (hd ▸ ha)
    refine (parse_grammatical Expr.constructs_additive ht d hd).mono ?_ ?_
    · rintro e ⟨rfl, -⟩
      exact hwhole
    · rintro fault ⟨front, part, behind, hall, -, hbad⟩
      have hpart : part ∈ (d.expr memo).compounds := by simp [hall]
      exact .inr (hbad (hwhole.parts part (Expr.compounds_subset _ hpart)))
  · obtain ⟨place, cause, -, -, d, htake, hmeets⟩ :=
      parse_not_grammatical Expr.constructs_additive ht hg
    refine hmeets.mono (fun _ h => h.elim) fun fault hfault => ?_
    rcases hfault with ⟨part, stop, hpart, hstop, hbad⟩ | rfl
    · obtain ⟨rule, phrase, rfl, hphrase⟩ := Derivation.phrase_before htake hpart hstop
      exact .inr (hbad (phrase.expr_additive fun x hx => ha x (hphrase x hx)))
    · exact .inl ⟨_, rfl⟩

/-- Work that cannot fail gives the one answer that is true. -/
theorem Session.Reached.gives {now : Session} (hn : now.Reached) {e : Expr} {aspect : Aspect}
    {work : Eval aspect.Answer} (hw : Meets Store.Truthful work (e.Answers aspect) fun _ => False)
    {answer : aspect.Answer} (ha : e.Answers aspect answer) :
    ∃ later, work now.store = .ok answer later := by
  obtain ⟨given, later, hr, hgiven, -⟩ := hw.returns (fun _ => id) hn.sound.truthful
  exact ⟨later, hgiven.unique ha ▸ hr⟩

variable {before : Session}

/-- A formula of numbers, dice, sums and differences is never ended by the limit, whatever that
says: not when it is read, and not when any part of it is asked for its outcomes, for zero or for a
negative number. The outcomes of each part are all integers between two bounds. -/
theorem additive_runs (hb : before.Reached) (ht : tokenize source = .ok tokens)
    (ha : ∀ x ∈ tokens.lexemes, x.Additive) :
    (∀ fault later, parse limit memo source before.store = .error fault later →
      (∃ e, fault = .format e) ∨ ∃ check, fault = .check check) ∧
    ∀ e later, parse limit memo source before.store = .ok e later →
      ∀ part ∈ e.parts, ∃ run : Run, ∀ now : Session, now.Reached → ∀ limit' : Limit.Reading,
        (∃ store, part.outcomes limit' now.store = .ok (.integers (.ofRun run)) store) ∧
        (∃ store, part.mayBeZero limit' now.store = .ok (decide (0 ∈ run)) store) ∧
        ∃ store, part.mayBeNegative limit' now.store = .ok (decide (run.lo < 0)) store := by
  refine ⟨fun fault later h => ((parse_additive ht ha).of_error hb.sound.truthful h).1, ?_⟩
  intro e later h part hpart
  have hadditive := ((parse_additive ht ha).of_ok hb.sound.truthful h).1.parts part hpart
  have hsafe := (parse_meets.of_ok hb.sound.truthful h).1.parts part hpart
  obtain ⟨run, hrun⟩ := hadditive.contiguous hsafe
  refine ⟨run, fun now hn limit' => ?_⟩
  have hall : ∀ p ∈ part.parts, p.Evaluates limit' fun _ => False := hadditive.evaluates hsafe
  have houtcomes : part.Answers .outcomes (.integers (.ofRun run)) :=
    ⟨_, rfl, fun v => Outcomes.mem_ofRun.trans (hrun v).symm⟩
  have hzero : part.Answers .zero (decide (0 ∈ run)) := by
    simp only [Expr.Answers, decide_eq_true_eq, hrun]
  have hnegative : part.Answers .negative (decide (run.lo < 0)) := by
    simp only [Expr.Answers, decide_eq_true_eq, hrun]
    constructor
    · exact fun h => ⟨run.lo, run.mem_lo, h⟩
    · intro h
      obtain ⟨v, hv, h⟩ := h
      exact Int.lt_of_le_of_lt hv.1 h
  have hself : Meets _ _ (part.Answers .outcomes) _ := hall part part.self_mem_parts
  exact ⟨hn.gives hself houtcomes, hn.gives (Expr.mayBeZero_meets_of hsafe hall) hzero,
    hn.gives (Expr.mayBeNegative_meets_of hsafe hall) hnegative⟩

end Parse

/-- Counts from zero to two of dice that can be blank, and a limit that is no number. -/
theorem additive_runs_blank :
    ∃ (tokens : Tokens) (e : Expr) (later : Store),
      tokenize "(1d3-1)d(2d2-2)+-3" = .ok tokens ∧ (∀ x ∈ tokens.lexemes, x.Additive) ∧
      parse (Limit.read (some "x")) "" "(1d3-1)d(2d2-2)+-3" {} = .ok e later ∧
      ∀ part ∈ e.parts, ∃ run : Run, ∀ now : Session, now.Reached → ∀ limit' : Limit.Reading,
        (∃ store, part.outcomes limit' now.store = .ok (.integers (.ofRun run)) store) ∧
        (∃ store, part.mayBeZero limit' now.store = .ok (decide (0 ∈ run)) store) ∧
        ∃ store, part.mayBeNegative limit' now.store = .ok (decide (run.lo < 0)) store := by
  have ht : ∃ tokens, tokenize "(1d3-1)d(2d2-2)+-3" = .ok tokens ∧
      ∀ x ∈ tokens.lexemes, x.Additive := by
    refine ⟨?_, ?_, ?_⟩
    rotate_left 1
    · cbv
      rfl
    · simp [Tokens.lexemes, Lexeme.Additive]
  have hp : ∃ e later,
      parse (Limit.read (some "x")) "" "(1d3-1)d(2d2-2)+-3" {} = .ok e later := by
    refine ⟨?_, ?_, ?_⟩
    rotate_left 2
    · cbv
      rfl
  obtain ⟨tokens, ht, ha⟩ := ht
  obtain ⟨e, later, hp⟩ := hp
  exact ⟨tokens, e, later, ht, ha, hp, (additive_runs .start ht ha).2 e later hp⟩

end DiceFormula
