import DiceFormula.Proofs.Resuming
import Mathlib.Logic.Function.Iterate

namespace DiceFormula.Cursor

/-- Reading an expression, which leads to another cursor or stops at one. -/
abbrev Attempt := EStateM Halt Store (Expr × Cursor)

/-- Makes an expression where the reading has come to. -/
def make (cursor : Cursor) (work : Eval Expr) : EStateM Halt Store Expr :=
  work.adaptExcept fun fault => ⟨fault, cursor⟩

/-- Takes the parenthesis that closes a sum. -/
def close (cursor : Cursor) : EStateM Halt Store Cursor :=
  match cursor.advance (.mark .rparen) FormatCause.unclosed.message with
  | .ok (_, next) => return next
  | .error _ => cursor.fail .unclosed

/-- The methods of a parser: one for each rule, and two that go on behind the first operand of a
product and of a sum. -/
structure Methods where
  rule : Rule → Cursor → Attempt
  factors : Expr → Cursor → Attempt
  terms : Expr → Cursor → Attempt

namespace Methods

section Bodies

variable (limit : Limit.Reading) (memo : MemoName) (methods : Methods)

/-- A sign belongs to a literal only when the number directly follows it. -/
def literal (cursor : Cursor) : Attempt :=
  match cursor.current.lexeme with
  | .number value => return (.number memo value, cursor.next)
  | .mark .plus =>
    match (cursor.ahead 1).lexeme with
    | .number value => return (.number memo value, cursor.next.next)
    | _ => cursor.fail .operandExpected
  | .mark .minus =>
    match (cursor.ahead 1).lexeme with
    | .number value => return (.number memo (-(value : Int)), cursor.next.next)
    | _ => cursor.fail .operandExpected
  | _ => cursor.fail .operandExpected

def operand (cursor : Cursor) : Attempt :=
  if cursor.current.lexeme = .mark .lparen then do
    let (content, cursor) ← methods.rule .sum cursor.next
    return (content, ← cursor.close)
  else methods.rule .literal cursor

/-- A chain of die marks is refused before the operands are looked at. -/
def roll (cursor : Cursor) : Attempt := do
  let (count, cursor) ← methods.rule .operand cursor
  if cursor.current.lexeme = .mark .die then
    let (faces, cursor) ← methods.rule .operand cursor.next
    if cursor.current.lexeme = .mark .die then cursor.fail .chained
    else return (← cursor.make (Expr.mkRoll limit memo count faces), cursor)
  else return (count, cursor)

def power (cursor : Cursor) : Attempt := do
  let (base, cursor) ← methods.rule .roll cursor
  if cursor.current.lexeme = .mark .caret then
    let (exponent, cursor) ← methods.rule .power cursor.next
    return (← cursor.make (Expr.mkBinary limit memo .pow base exponent), cursor)
  else return (base, cursor)

/-- One round of a loop. What has been read is the left operand of the operation at the cursor. -/
def round (phrase : Rule) (loop : Expr → Cursor → Attempt) (op : Op) (left : Expr)
    (cursor : Cursor) : Attempt := do
  let (right, cursor) ← methods.rule phrase cursor.next
  let e ← cursor.make (Expr.mkBinary limit memo op left right)
  loop e cursor

def nextFactor (left : Expr) (cursor : Cursor) : Attempt :=
  match cursor.current.lexeme with
  | .mark .star => methods.round limit memo .power methods.factors .mul left cursor
  | .mark .slash => methods.round limit memo .power methods.factors .div left cursor
  | _ => return (left, cursor)

def nextTerm (left : Expr) (cursor : Cursor) : Attempt :=
  match cursor.current.lexeme with
  | .mark .plus => methods.round limit memo .product methods.terms .add left cursor
  | .mark .minus => methods.round limit memo .product methods.terms .sub left cursor
  | _ => return (left, cursor)

def formula (cursor : Cursor) : Attempt := do
  let (tree, cursor) ← methods.rule .sum cursor
  if cursor.current.lexeme = .stop then return (tree, cursor)
  else cursor.fail (.trailing cursor.current.lexeme.kind)

/-- The methods by their bodies, which call the given ones. -/
def descend : Methods where
  rule
    | .literal => literal memo
    | .operand => methods.operand
    | .roll => methods.roll limit memo
    | .power => methods.power limit memo
    | .product => fun cursor => do
      let (left, cursor) ← methods.rule .power cursor
      methods.factors left cursor
    | .sum => fun cursor => do
      let (left, cursor) ← methods.rule .product cursor
      methods.terms left cursor
    | .formula => methods.formula
  factors := methods.nextFactor limit memo
  terms := methods.nextTerm limit memo

end Bodies

end Methods

section Equations

variable {limit : Limit.Reading} {memo : MemoName}

/-- Goes on for a goal behind the first operand. -/
def more (limit : Limit.Reading) (memo : MemoName) (tail : Goal) (left : Expr) (cursor : Cursor) :
    Attempt := do
  let (stack, stop) ← cursor.resume limit memo [tail] [left]
  return (stack.headD (.blank memo), stop)

/-- What the parser reads, method by method. -/
def methods (limit : Limit.Reading) (memo : MemoName) : Methods where
  rule rule cursor := cursor.parse limit memo rule
  factors := more limit memo .productTail
  terms := more limit memo .sumTail

theorem resume_rule (rule : Rule) (rest : List Expr) (cursor : Cursor) :
    cursor.resume limit memo rule.goals rest = (do
      let (e, stop) ← cursor.parse limit memo rule
      return (e :: rest, stop)) := by
  have htop := @resume_top limit memo rule.goals [] (.rule rule) rest cursor
  rw [List.nil_append] at htop
  rw [htop, parse_eq_resume, bind_assoc]
  rfl

theorem resume_nil (stack : List Expr) (cursor : Cursor) :
    cursor.resume limit memo [] stack = return (stack, cursor) :=
  resume_done rfl stack

theorem resume_build (instr : Instr) (stack : List Expr) (cursor : Cursor) :
    cursor.resume limit memo [.build instr] stack = (do
      let stack ← (instr.perform limit memo stack).adaptExcept fun fault => ⟨fault, cursor⟩
      return (stack, cursor)) := by
  rw [resume_done rfl]
  simp only [Lexeme.feed, Reading.due, List.map_cons, List.map_nil, build, bind_assoc]
  rfl

theorem resume_binary (op : Op) (left right : Expr) (cursor : Cursor) :
    cursor.resume limit memo [.build (.binary op)] [right, left] = (do
      let e ← cursor.make (Expr.mkBinary limit memo op left right)
      return ([e], cursor)) := by
  rw [resume_build, Instr.perform, adaptExcept_bind, bind_assoc]
  rfl

theorem resume_roll (count faces : Expr) (cursor : Cursor) :
    cursor.resume limit memo [.build .roll] [faces, count] = (do
      let e ← cursor.make (Expr.mkRoll limit memo count faces)
      return ([e], cursor)) := by
  rw [resume_build, Instr.perform, adaptExcept_bind, bind_assoc]
  rfl

theorem signed_goals (rule : Rule) (goals : List Goal) :
    Goal.signed (rule.goals ++ goals) = false := by
  cases rule <;> rfl

/-- A rule that ends with a repetition or an option reads another one first. -/
theorem parse_more {rule first : Rule} {tail : Goal} (h : rule.goals = first.goals ++ [tail])
    (hs : Goal.signed [tail] = false) (cursor : Cursor) :
    cursor.parse limit memo rule = (do
      let (left, cursor) ← cursor.parse limit memo first
      cursor.more limit memo tail left) := by
  rw [parse_eq_resume, h, resume_append hs, resume_rule]
  simp only [bind_assoc, pure_bind, more]

/-- The current token ends the repetition. -/
theorem more_passed {tail : Goal} {cursor : Cursor}
    (h : cursor.current.lexeme.feed [tail] = ⟨[], .done⟩) (left : Expr) :
    cursor.more limit memo tail left = return (left, cursor) := by
  rw [more, resume_done (congrArg Move.verdict h), h]
  rfl

/-- The current token stands for an operation. -/
theorem more_operation {tail : Goal} {phrase : Rule} {op : Op} {goals : List Goal}
    {cursor : Cursor} (h : cursor.current.lexeme.feed [tail] =
      .read (phrase.goals ++ .build (.binary op) :: goals))
    (hs : Goal.signed goals = false) (left : Expr) :
    cursor.more limit memo tail left = (do
      let (right, cursor) ← cursor.next.parse limit memo phrase
      let e ← cursor.make (Expr.mkBinary limit memo op left right)
      let (stack, stop) ← cursor.resume limit memo goals [e]
      return (stack.headD (.blank memo), stop)) := by
  rw [more, resume_take h (signed_goals _ _), resume_append rfl, resume_rule]
  simp only [bind_assoc, pure_bind]
  refine bind_congr fun right => ?_
  rw [← List.singleton_append, resume_append hs, resume_binary]
  simp only [bind_assoc, pure_bind]

theorem current_next {cursor : Cursor} (h : cursor.current.lexeme ≠ .stop) :
    cursor.next.current = cursor.ahead 1 := by
  rw [(left_of_ne_stop h).2]
  rfl

/-- A sign and the number behind it. -/
theorem resume_sign {cursor : Cursor} {negative : Bool}
    (h : cursor.current.lexeme = .mark (.sign negative)) :
    cursor.resume limit memo [.literal] [] =
      match (cursor.ahead 1).lexeme with
      | .number value => return ([.number memo (signedValue negative value)], cursor.next.next)
      | _ => cursor.fail .operandExpected := by
  have hstop : cursor.current.lexeme ≠ .stop := by simp [h]
  have hread : cursor.current.lexeme.feed [.literal] = ⟨[], .read [.unsigned negative]⟩ := by
    rw [h]
    cases negative <;> rfl
  obtain ⟨hleft, hnext⟩ := left_of_ne_stop hstop
  have hcurrent := current_next hstop
  -- Not by `resume_read`: a number that is missing is faulted at the sign, one place before.
  rw [resume, hleft, List.map_cons, Reading.spelled_read hread, ← hcurrent]
  cases hx : cursor.next.current.lexeme with
  | number value =>
    have hnumber : cursor.next.current.lexeme.feed [.unsigned negative] =
        ⟨[.number (signedValue negative value)], .read []⟩ := by rw [hx]; rfl
    have hmore : cursor.next.current.lexeme ≠ .stop := by simp [hx]
    obtain ⟨hrest, hlast⟩ := left_of_ne_stop hmore
    rw [hrest, List.map_cons, Reading.spelled_read hnumber, Reading.spelled_done rfl, hlast, hnext]
    rfl
  | mark | stop =>
    have hrefused : cursor.next.current.lexeme.feed [.unsigned negative] =
        .refuse .operandExpected := by rw [hx]; rfl
    rw [← headD_left] at hrefused
    rw [Reading.spelled_refused (congrArg Move.verdict hrefused), hrefused]
    rfl

theorem parse_literal (cursor : Cursor) :
    cursor.parse limit memo .literal = Methods.literal memo cursor := by
  rw [parse_eq_resume, Methods.literal]
  cases hx : cursor.current.lexeme with
  | number value =>
    have hread : cursor.current.lexeme.feed [.literal] = ⟨[.number value], .read []⟩ := by
      rw [hx]
      rfl
    rw [Rule.goals, resume_read hread rfl]
    simp only [resume_nil]
    rfl
  | stop =>
    rw [Rule.goals, resume_refused (by rw [hx]; rfl) rfl]
    rfl
  | mark m =>
    cases m with
    | plus =>
      rw [Rule.goals, @resume_sign limit memo cursor false hx]
      cases (cursor.ahead 1).lexeme <;> rfl
    | minus =>
      rw [Rule.goals, @resume_sign limit memo cursor true hx]
      cases (cursor.ahead 1).lexeme <;> rfl
    | star | slash | caret | lparen | rparen | die =>
      rw [Rule.goals, resume_refused (by rw [hx]; rfl) rfl]
      rfl

theorem resume_close (stack : List Expr) (cursor : Cursor) :
    cursor.resume limit memo [.close] stack = (do return (stack, ← cursor.close)) := by
  by_cases hx : cursor.current.lexeme = .mark .rparen
  · have hread : cursor.current.lexeme.feed [.close] = .read [] := by
      rw [hx]
      rfl
    rw [resume_take hread rfl, resume_nil, close, advance, if_pos (by rw [hx]; rfl)]
    rfl
  · have hrefused : cursor.current.lexeme.feed [.close] = .refuse .unclosed := if_neg hx
    have hkind : cursor.current.lexeme.kind ≠ .mark .rparen := by
      intro h
      cases hl : cursor.current.lexeme with
      | number | stop =>
        rw [hl] at h
        cases h
      | mark m =>
        rw [hl] at h hx
        cases h
        exact hx rfl
    rw [resume_refused hrefused rfl, close, advance, if_neg hkind]
    rfl

/-- What opens no parenthesis is read as a literal. -/
theorem resume_unopened {cursor : Cursor} (h : cursor.current.lexeme ≠ .mark .lparen)
    (stack : List Expr) :
    cursor.resume limit memo [.operand] stack = cursor.resume limit memo [.literal] stack := by
  have hfeed : cursor.current.lexeme.feed [.operand] =
      { cursor.current.lexeme.feed [.literal] with
        instrs := [] ++ (cursor.current.lexeme.feed [.literal]).instrs } := by
    rcases hx : cursor.current.lexeme with value | ⟨_ | _ | _ | _ | _ | _ | _ | _⟩ | _
    case mark.lparen => exact absurd hx h
    all_goals rfl
  rw [← headD_left] at hfeed
  rw [resume, resume, Reading.spelled_congr [] rfl rfl hfeed]
  rfl

theorem parse_operand (cursor : Cursor) :
    cursor.parse limit memo .operand = (methods limit memo).operand cursor := by
  rw [parse_eq_resume, Methods.operand]
  split
  · next hx =>
    have hread : cursor.current.lexeme.feed [.operand] = .read (Rule.sum.goals ++ [.close]) := by
      rw [hx]
      rfl
    rw [Rule.goals, resume_take hread rfl, resume_append rfl, resume_rule]
    simp only [bind_assoc, pure_bind, methods]
    refine bind_congr fun content => ?_
    rw [resume_close, bind_assoc]
    rfl
  · next hx =>
    rw [Rule.goals, resume_unopened hx]
    exact (parse_eq_resume cursor .literal).symm

/-- The faces behind a die mark, which must be the only one. -/
theorem more_die {cursor : Cursor} (h : cursor.current.lexeme = .mark .die) (count : Expr) :
    cursor.more limit memo .rollTail count = (do
      let (faces, cursor) ← cursor.next.parse limit memo .operand
      if cursor.current.lexeme = .mark .die then cursor.fail .chained
      else return (← cursor.make (Expr.mkRoll limit memo count faces), cursor)) := by
  have hread : cursor.current.lexeme.feed [.rollTail] =
      .read (Rule.operand.goals ++ [.rollEnd, .build .roll]) := by
    rw [h]
    rfl
  rw [more, resume_take hread rfl, resume_append rfl, resume_rule]
  simp only [bind_assoc, pure_bind]
  refine bind_congr fun r => ?_
  obtain ⟨faces, stop⟩ := r
  by_cases hx : stop.current.lexeme = .mark .die
  · have hrefused : stop.current.lexeme.feed [.rollEnd, .build .roll] = .refuse .chained :=
      if_pos hx
    rw [if_pos hx, resume_refused hrefused rfl]
    rfl
  · have hend : stop.current.lexeme.feed [.rollEnd] = ⟨[], .done⟩ := if_neg hx
    have hpassed : stop.resume limit memo [.rollEnd] [faces, count] =
        return ([faces, count], stop) := by
      rw [resume_done (congrArg Move.verdict hend), hend]
      rfl
    rw [if_neg hx, ← List.singleton_append, resume_append rfl, hpassed, pure_bind]
    dsimp only
    rw [resume_roll, bind_assoc]
    rfl

theorem parse_roll (cursor : Cursor) :
    cursor.parse limit memo .roll = (methods limit memo).roll limit memo cursor := by
  rw [@parse_more limit memo .roll .operand .rollTail rfl rfl]
  refine bind_congr fun r => ?_
  obtain ⟨count, stop⟩ := r
  dsimp only
  by_cases hx : stop.current.lexeme = .mark .die
  · rw [if_pos hx, more_die hx]
    rfl
  · have hend : stop.current.lexeme.feed [.rollTail] = ⟨[], .done⟩ := if_neg hx
    rw [if_neg hx, more_passed hend]

theorem parse_power (cursor : Cursor) :
    cursor.parse limit memo .power = (methods limit memo).power limit memo cursor := by
  rw [@parse_more limit memo .power .roll .powerTail rfl rfl]
  refine bind_congr fun r => ?_
  obtain ⟨base, stop⟩ := r
  dsimp only
  by_cases hx : stop.current.lexeme = .mark .caret
  · have hread : stop.current.lexeme.feed [.powerTail] =
        .read (Rule.power.goals ++ [.build (.binary .pow)]) := if_pos hx
    rw [if_pos hx, more_operation hread rfl]
    simp only [resume_nil, pure_bind]
    rfl
  · have hend : stop.current.lexeme.feed [.powerTail] = ⟨[], .done⟩ := if_neg hx
    rw [if_neg hx, more_passed hend]

theorem more_factors (left : Expr) (cursor : Cursor) :
    cursor.more limit memo .productTail left =
      (methods limit memo).nextFactor limit memo left cursor := by
  rw [Methods.nextFactor]
  split
  · next hx => exact more_operation (by rw [hx]; rfl) rfl left
  · next hx => exact more_operation (by rw [hx]; rfl) rfl left
  · next hs hd =>
    refine more_passed ?_ left
    simp only [Lexeme.feed]

theorem more_terms (left : Expr) (cursor : Cursor) :
    cursor.more limit memo .sumTail left =
      (methods limit memo).nextTerm limit memo left cursor := by
  rw [Methods.nextTerm]
  split
  · next hx => exact more_operation (by rw [hx]; rfl) rfl left
  · next hx => exact more_operation (by rw [hx]; rfl) rfl left
  · next hs hd =>
    refine more_passed ?_ left
    simp only [Lexeme.feed]

theorem parse_formula (cursor : Cursor) :
    cursor.parse limit memo .formula = (methods limit memo).formula cursor := by
  rw [@parse_more limit memo .formula .sum .finish rfl rfl]
  refine bind_congr fun r => ?_
  obtain ⟨tree, stop⟩ := r
  dsimp only
  by_cases hx : stop.current.lexeme = .stop
  · have hend : stop.current.lexeme.feed [.finish] = ⟨[], .done⟩ := if_pos hx
    rw [if_pos hx, more_passed hend]
  · have hrefused : stop.current.lexeme.feed [.finish] =
        .refuse (.trailing stop.current.lexeme.kind) := if_neg hx
    rw [if_neg hx, more, resume_refused hrefused rfl]
    rfl

/-- The methods of the parser are what their bodies make of them. -/
theorem methods_descend : (methods limit memo).descend limit memo = methods limit memo := by
  rw [Methods.descend, methods]
  congr 1
  · funext rule cursor
    cases rule with
    | literal => exact (parse_literal cursor).symm
    | operand => exact (parse_operand cursor).symm
    | roll => exact (parse_roll cursor).symm
    | power => exact (parse_power cursor).symm
    | product => exact (@parse_more limit memo .product .power .productTail rfl rfl cursor).symm
    | sum => exact (@parse_more limit memo .sum .product .sumTail rfl rfl cursor).symm
    | formula => exact (parse_formula cursor).symm
  · funext left cursor
    exact (more_factors left cursor).symm
  · funext left cursor
    exact (more_terms left cursor).symm

theorem left_next_le (cursor : Cursor) : cursor.next.left.length ≤ cursor.left.length := by
  simp only [left, next, List.length_drop]
  omega

theorem left_next_lt {cursor : Cursor} (h : cursor.current.lexeme ≠ .stop) :
    cursor.next.left.length < cursor.left.length := by
  rw [(left_of_ne_stop h).1]
  exact Nat.lt_succ_self _

/-- A phrase takes at least one token. -/
theorem parse_shortens (cursor : Cursor) (rule : Rule) :
    Meets (fun _ => True) (cursor.parse limit memo rule)
      (fun r => r.2.left.length < cursor.left.length) fun _ => True := by
  refine parse_phrase.mono (fun r hr => ?_) fun _ _ => trivial
  obtain ⟨d, rfl, hd⟩ := hr
  have hle := hd.length_le
  have hpos := d.length_pos
  rw [List.length_map] at hle
  rw [left_skip, List.length_drop]
  omega

/-- How far a rule is from the literals, which call no other rule. -/
def height : Rule → Nat
  | .literal => 0
  | .operand => 1
  | .roll => 2
  | .power => 3
  | .product => 4
  | .sum => 5
  | .formula => 6

/-- The given methods do what the parser does where that takes fewer than `n` calls inside each
other. -/
structure Methods.Agrees (limit : Limit.Reading) (memo : MemoName) (given : Methods) (n : Nat) :
    Prop where
  rule (rule : Rule) (cursor : Cursor) (h : 8 * cursor.left.length + height rule < n) :
    given.rule rule cursor = cursor.parse limit memo rule
  factors (left : Expr) (cursor : Cursor) (h : 8 * cursor.left.length < n) :
    given.factors left cursor = cursor.more limit memo .productTail left
  terms (left : Expr) (cursor : Cursor) (h : 8 * cursor.left.length < n) :
    given.terms left cursor = cursor.more limit memo .sumTail left

namespace Methods.Agrees

variable {given : Methods} {n : Nat}

/-- A call and what follows it, which has fewer tokens left. -/
theorem call {β : Type} (h : given.Agrees limit memo n) {rule : Rule} {cursor : Cursor}
    (hn : 8 * cursor.left.length + height rule < n)
    {next next' : Expr × Cursor → EStateM Halt Store β}
    (hnext : ∀ e stop, stop.left.length < cursor.left.length → next (e, stop) = next' (e, stop)) :
    given.rule rule cursor >>= next = (methods limit memo).rule rule cursor >>= next' := by
  rw [h.rule rule cursor hn]
  exact (parse_shortens cursor rule).bind_congr fun r hr => hnext r.1 r.2 hr

theorem round (h : given.Agrees limit memo n) {cursor : Cursor} {phrase : Rule}
    {loop loop' : Expr → Cursor → Attempt} (hp : height phrase ≤ 4)
    (hs : cursor.current.lexeme ≠ .stop) (hn : 8 * cursor.left.length < n + 1)
    (hloop : ∀ e stop, 8 * stop.left.length < n → loop e stop = loop' e stop) (op : Op)
    (left : Expr) :
    given.round limit memo phrase loop op left cursor =
      (methods limit memo).round limit memo phrase loop' op left cursor := by
  have hlt := left_next_lt hs
  refine h.call (by omega) fun right stop hstop => bind_congr fun e => ?_
  exact hloop e stop (by omega)

/-- A body does the same with the given methods where the methods that it calls do. -/
theorem descend_rule (h : given.Agrees limit memo n) {rule : Rule} {cursor : Cursor}
    (hn : 8 * cursor.left.length + height rule < n + 1) :
    (given.descend limit memo).rule rule cursor =
      ((methods limit memo).descend limit memo).rule rule cursor := by
  -- A call for the same tokens is for a rule of less height, any other one has fewer tokens left.
  cases rule with
  | literal => rfl
  | operand =>
    simp only [height] at hn
    simp only [Methods.descend, Methods.operand]
    by_cases hx : cursor.current.lexeme = .mark .lparen
    · have hstop : cursor.current.lexeme ≠ .stop := by simp [hx]
      have hlt := left_next_lt hstop
      rw [if_pos hx, if_pos hx]
      exact h.call (by simp only [height]; omega) fun _ _ _ => rfl
    · rw [if_neg hx, if_neg hx]
      exact h.rule _ _ (by simp only [height]; omega)
  | roll | power =>
    simp only [height] at hn
    refine h.call (by simp only [height]; omega) fun first stop hstop => ?_
    dsimp only
    have hle := stop.left_next_le
    split
    · exact h.call (by simp only [height]; omega) fun _ _ _ => rfl
    · rfl
  | product =>
    simp only [height] at hn
    refine h.call (by simp only [height]; omega) fun left stop hstop => ?_
    exact h.factors left stop (by omega)
  | sum =>
    simp only [height] at hn
    refine h.call (by simp only [height]; omega) fun left stop hstop => ?_
    exact h.terms left stop (by omega)
  | formula =>
    simp only [height] at hn
    exact h.call (by simp only [height]; omega) fun _ _ _ => rfl

theorem descend_factors (h : given.Agrees limit memo n) {cursor : Cursor}
    (hn : 8 * cursor.left.length < n + 1) (left : Expr) :
    (given.descend limit memo).factors left cursor =
      ((methods limit memo).descend limit memo).factors left cursor := by
  simp only [Methods.descend, Methods.nextFactor]
  split
  · next hx => exact h.round (by decide) (by simp [hx]) hn h.factors _ left
  · next hx => exact h.round (by decide) (by simp [hx]) hn h.factors _ left
  · rfl

theorem descend_terms (h : given.Agrees limit memo n) {cursor : Cursor}
    (hn : 8 * cursor.left.length < n + 1) (left : Expr) :
    (given.descend limit memo).terms left cursor =
      ((methods limit memo).descend limit memo).terms left cursor := by
  simp only [Methods.descend, Methods.nextTerm]
  split
  · next hx => exact h.round (by decide) (by simp [hx]) hn h.terms _ left
  · next hx => exact h.round (by decide) (by simp [hx]) hn h.terms _ left
  · rfl

/-- One more level of calls. -/
theorem descend (h : given.Agrees limit memo n) :
    (given.descend limit memo).Agrees limit memo (n + 1) where
  rule rule cursor hn := by
    rw [h.descend_rule hn, methods_descend]
    rfl
  factors left cursor hn := by
    rw [h.descend_factors hn, methods_descend]
    rfl
  terms left cursor hn := by
    rw [h.descend_terms hn, methods_descend]
    rfl

theorem iterate (given : Methods) (n : Nat) :
    ((Methods.descend limit memo)^[n] given).Agrees limit memo n := by
  induction n with
  | zero =>
    exact ⟨fun _ _ h => absurd h (Nat.not_lt_zero _), fun _ _ h => absurd h (Nat.not_lt_zero _),
      fun _ _ h => absurd h (Nat.not_lt_zero _)⟩
  | succ n ih =>
    rw [Function.iterate_succ_apply']
    exact ih.descend

end Methods.Agrees

/-- The parser reads by recursive descent: its methods are what their bodies make of them. From each
cursor the calls come to an end, at a depth that the tokens left bound: whatever a call as deep as
that would do, unfolding the bodies gives what the parser does. So no other methods are what their
bodies make of them. -/
theorem parse_by_descent (limit : Limit.Reading) (memo : MemoName) :
    (methods limit memo).descend limit memo = methods limit memo ∧
    (∀ given rule (cursor : Cursor) n, 8 * cursor.left.length + height rule < n →
      ((Methods.descend limit memo)^[n] given).rule rule cursor =
        cursor.parse limit memo rule) ∧
    ∀ given : Methods, given.descend limit memo = given →
      ∀ rule cursor, given.rule rule cursor = cursor.parse limit memo rule := by
  have hdeep (given : Methods) (rule : Rule) (cursor : Cursor) (n : Nat)
      (hn : 8 * cursor.left.length + height rule < n) :
      ((Methods.descend limit memo)^[n] given).rule rule cursor = cursor.parse limit memo rule :=
    (Methods.Agrees.iterate given n).rule rule cursor hn
  refine ⟨methods_descend, hdeep, fun given hgiven rule cursor => ?_⟩
  have hdepth := hdeep given rule cursor _ (Nat.lt_succ_self _)
  rwa [Function.iterate_fixed hgiven] at hdepth

end Equations

end DiceFormula.Cursor
