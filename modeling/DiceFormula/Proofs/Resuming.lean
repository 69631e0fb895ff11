import DiceFormula.Proofs.Calls
import DiceFormula.Proofs.Phrases

namespace DiceFormula

/-- What a move leaves undone is done by further goals. -/
def Move.andThen (move : Move) (x : Lexeme) (goals : List Goal) : Move :=
  match move.verdict with
  | .read next => ⟨move.instrs, .read (next ++ goals)⟩
  | .done => ⟨move.instrs ++ (x.feed goals).instrs, (x.feed goals).verdict⟩
  | .refuse cause => ⟨move.instrs, .refuse cause⟩

/-- Goals do the same in front of others, which come into play when these are done. -/
theorem Lexeme.feed_append (x : Lexeme) (front goals : List Goal) :
    x.feed (front ++ goals) = (x.feed front).andThen x goals := by
  induction front with
  | nil => rfl
  | cons goal front ih =>
    rw [List.cons_append]
    cases goal with
    | build instr =>
      simp only [feed, ih, Move.andThen]
      cases (x.feed front).verdict <;> rfl
    | operand | literal | unsigned =>
      rcases x with value | ⟨_ | _ | _ | _ | _ | _ | _ | _⟩ | _ <;> rfl
    | rollTail | rollEnd | powerTail =>
      simp only [feed]
      split
      · rfl
      · exact ih
    | productTail | sumTail =>
      rcases x with value | ⟨_ | _ | _ | _ | _ | _ | _ | _⟩ | _ <;> first | rfl | exact ih
    | close =>
      simp only [feed]
      split <;> rfl
    | finish =>
      simp only [feed]
      split
      · exact ih
      · rfl

theorem Goal.Reads.append {front last : List Goal} {start : Nat} {u : List Lexeme}
    {steps : List Step} (h : Reads front start u steps last) (goals : List Goal) :
    Reads (front ++ goals) start u steps (last ++ goals) := by
  induction h with
  | none => exact .none
  | one before hread ih =>
    refine ih.one ?_
    rw [Lexeme.feed_append, hread]
    rfl

theorem Goal.signed_append {front : List Goal} (h : front ≠ []) (goals : List Goal) :
    Goal.signed (front ++ goals) = Goal.signed front := by
  cases front with
  | nil => exact absurd rfl h
  | cons goal front => cases goal <;> rfl

namespace Reading

/-- The same reading, `k` tokens further on. -/
def behind (k : Nat) (reading : Reading) : Reading where
  steps := reading.steps.map fun step => ⟨step.instr, step.taken + k⟩
  taken := reading.taken + k
  cause := reading.cause

theorem map_due (taken k : Nat) (instrs : List Instr) :
    (due taken instrs).map (fun step => (⟨step.instr, step.taken + k⟩ : Step)) =
      due (taken + k) instrs := by
  simp [due, Function.comp_def]

theorem behind_after (k : Nat) (steps : List Step) (reading : Reading) :
    (reading.after steps).behind k =
      (reading.behind k).after (steps.map fun step => ⟨step.instr, step.taken + k⟩) := by
  simp [behind, after]

/-- Where a reading starts shows in the places of its steps only. A sign before it must have been
counted, as its number is refused at the sign. -/
theorem spelled_behind_of_not_read {goals : List Goal} {start : Nat} {w : List Lexeme}
    (hs : Goal.signed goals = true → 0 < start)
    (hn : ∀ next, ((w.headD .stop).feed goals).verdict ≠ .read next) (k : Nat) :
    spelled goals (start + k) w = (spelled goals start w).behind k := by
  cases hv : ((w.headD .stop).feed goals).verdict with
  | read next => exact absurd hv (hn next)
  | done => simp only [spelled_done hv, behind, map_due]
  | refuse cause =>
    simp only [spelled_refused hv, behind, map_due]
    split
    · next hsign =>
      have := hs hsign
      congr 1
      omega
    · rfl

theorem spelled_behind {goals : List Goal} {start : Nat}
    (hs : Goal.signed goals = true → 0 < start) (k : Nat) (w : List Lexeme) :
    spelled goals (start + k) w = (spelled goals start w).behind k := by
  induction w generalizing goals start with
  | nil => exact @spelled_behind_of_not_read goals start [] hs (Lexeme.stop_feed_ne_read goals) k
  | cons x w ih =>
    by_cases hx : ∃ next, (x.feed goals).verdict = .read next
    · obtain ⟨next, hx⟩ := hx
      have hread : x.feed goals = ⟨(x.feed goals).instrs, .read next⟩ := by rw [← hx]
      rw [spelled_read hread, spelled_read hread, behind_after, map_due,
        ← ih fun _ => Nat.succ_pos start, Nat.add_right_comm]
    · refine spelled_behind_of_not_read hs ?_ k
      exact fun next hnext => hx ⟨next, hnext⟩

/-- Goals in front of others are read first, and the others from there on. -/
theorem spelled_append {goals : List Goal} (hs : Goal.signed goals = false) (front : List Goal)
    (w : List Lexeme) :
    spelled (front ++ goals) 0 w =
      match (spelled front 0 w).cause with
      | some _ => spelled front 0 w
      | none =>
        ((spelled goals 0 (w.drop (spelled front 0 w).taken)).behind
          (spelled front 0 w).taken).after (spelled front 0 w).steps := by
  have hnone : Goal.Reads front 0 [] [] front := .none
  obtain ⟨u, v, steps, last, huv, hread, hnot⟩ := hnone.exists_last w
  rw [List.nil_append] at huv
  have hfront := hread.spelled v
  have hboth := (hread.append goals).spelled v
  have hfeed := Lexeme.feed_append (v.headD .stop) last goals
  rw [← huv, Nat.zero_add] at hfront hboth
  cases hv : ((v.headD .stop).feed last).verdict with
  | read next => exact absurd hv (hnot next)
  | refuse cause =>
    have hsome : last ≠ [] := by
      rintro rfl
      cases hv
    rw [Move.andThen, hv] at hfeed
    have hrefused : ((v.headD .stop).feed (last ++ goals)).verdict = .refuse cause := by rw [hfeed]
    rw [spelled_refused hv] at hfront
    rw [spelled_refused hrefused, Goal.signed_append hsome, hfeed] at hboth
    rw [hfront, hboth]
    rfl
  | done =>
    -- Only where nothing is left of `front` may `goals` decide whether a sign was read last.
    have hunsigned : Goal.signed (last ++ goals) = false := by
      by_cases hl : last = []
      · rwa [hl]
      · rw [Goal.signed_append hl, Goal.signed_of_done hv]
    have hstart : Goal.signed goals = true → 0 < 0 := by simp [hs]
    have hrest := spelled_behind hstart u.length v
    rw [Nat.zero_add] at hrest
    rw [Move.andThen, hv] at hfeed
    rw [spelled_done hv] at hfront
    rw [spelled_congr ((v.headD .stop).feed last).instrs hunsigned hs hfeed, hrest,
      after_after] at hboth
    rw [hfront, hboth, huv]
    simp [after]

end Reading

/-- Work on a stack of one height leaves one of another, and does the same on top of any other
stack. -/
def Tops {ε : Type} (n k : Nat) (work : List Expr → EStateM ε Store (List Expr)) : Prop :=
  ∀ stack, stack.length = n →
    Meets (fun _ => True) (work stack) (fun after => after.length = k) (fun _ => True) ∧
      ∀ rest, work (stack ++ rest) = (do return (← work stack) ++ rest)

namespace Tops

variable {ε : Type} {n k m : Nat} {work next : List Expr → EStateM ε Store (List Expr)}

theorem pure : Tops n n (Pure.pure : List Expr → EStateM ε Store (List Expr)) :=
  fun _ hs => ⟨Meets.pure hs, fun _ => rfl⟩

theorem bind (h : Tops n k work) (hn : Tops k m next) :
    Tops n m fun stack => work stack >>= next := by
  intro stack hs
  obtain ⟨hmeets, hrest⟩ := h stack hs
  refine ⟨Meets.bind hmeets fun after ha => (hn after ha).1, fun rest => ?_⟩
  simp only [hrest, bind_assoc]
  refine hmeets.bind_congr fun after ha => ?_
  rw [pure_bind]
  exact (hn after ha).2 rest

theorem adaptExcept {ε' : Type} (f : ε → ε') (h : Tops n k work) :
    Tops n k fun stack => (work stack).adaptExcept f := by
  intro stack hs
  obtain ⟨hmeets, hrest⟩ := h stack hs
  refine ⟨Meets.adaptExcept hmeets.anyFault, fun rest => ?_⟩
  simp only [hrest, adaptExcept_bind]
  rfl

end Tops

/-- An instruction takes its operands from the top of the stack. -/
theorem Instr.Lifts.tops {instr : Instr} {n k : Nat} (h : instr.Lifts n k)
    (limit : Limit.Reading) (memo : MemoName) : Tops n k (instr.perform limit memo) := by
  intro stack hs
  cases h with
  | number value => exact ⟨Meets.pure (by simp [hs]), fun rest => rfl⟩
  | roll n | binary _ n =>
    match stack, hs with
    | right :: left :: below, hs =>
      refine ⟨Meets.bind Meets.any fun e _ => Meets.pure (by simpa using hs), fun rest => ?_⟩
      simp only [perform, List.cons_append, bind_assoc, pure_bind]

namespace Cursor

variable {limit : Limit.Reading} {memo : MemoName}

/-- Stops the reading for the token at the cursor. -/
def fail {α : Type} (cursor : Cursor) (cause : FormatCause) : EStateM Halt Store α :=
  throw ⟨.format ⟨cause, cursor.current.position⟩, cursor⟩

/-- Builds on the stack what a reading from the cursor on says. -/
def follow (limit : Limit.Reading) (memo : MemoName) (stack : List Expr) (cursor : Cursor)
    (reading : Reading) : EStateM Halt Store (List Expr × Cursor) := do
  let stack ← cursor.build limit memo stack reading.steps
  match reading.cause with
  | some cause => (cursor.skip reading.taken).fail cause
  | none => return (stack, cursor.skip reading.taken)

/-- Reads for the goals from the cursor on, with what has been built so far. -/
def resume (limit : Limit.Reading) (memo : MemoName) (goals : List Goal) (stack : List Expr)
    (cursor : Cursor) : EStateM Halt Store (List Expr × Cursor) :=
  cursor.follow limit memo stack (.spelled goals 0 (cursor.left.map Token.lexeme))

theorem parse_eq_resume (cursor : Cursor) (rule : Rule) :
    cursor.parse limit memo rule = (do
      let (stack, stop) ← cursor.resume limit memo rule.goals []
      return (stack.headD (.blank memo), stop)) := by
  unfold parse resume follow
  rw [Rule.read_eq_spelled, bind_assoc]
  refine bind_congr fun stack => ?_
  rw [← left]
  cases (Reading.spelled rule.goals 0 (cursor.left.map Token.lexeme)).cause <;> rfl

theorem left_skip (cursor : Cursor) (taken : Nat) :
    (cursor.skip taken).left = cursor.left.drop taken := by
  simp [left, skip]

theorem skip_add (cursor : Cursor) (taken k : Nat) :
    cursor.skip (taken + k) = (cursor.skip k).skip taken := by
  simp [skip, Nat.add_comm, Nat.add_left_comm]

theorem build_append (cursor : Cursor) (stack : List Expr) (front steps : List Step) :
    cursor.build limit memo stack (front ++ steps) = (do
      let stack ← cursor.build limit memo stack front
      cursor.build limit memo stack steps) := by
  induction front generalizing stack with
  | nil => rfl
  | cons step front ih => simp only [List.cons_append, build, ih, bind_assoc]

theorem follow_after (cursor : Cursor) (stack : List Expr) (steps : List Step)
    (reading : Reading) :
    cursor.follow limit memo stack (reading.after steps) = (do
      let stack ← cursor.build limit memo stack steps
      cursor.follow limit memo stack reading) := by
  simp only [follow, Reading.after, build_append, bind_assoc]

theorem build_behind (cursor : Cursor) (stack : List Expr) (k : Nat) (steps : List Step) :
    cursor.build limit memo stack (steps.map fun step => ⟨step.instr, step.taken + k⟩) =
      (cursor.skip k).build limit memo stack steps := by
  induction steps generalizing stack with
  | nil => rfl
  | cons step steps ih => simp only [List.map_cons, build, ih, skip_add]

theorem follow_behind (cursor : Cursor) (stack : List Expr) (k : Nat) (reading : Reading) :
    cursor.follow limit memo stack (reading.behind k) =
      (cursor.skip k).follow limit memo stack reading := by
  simp only [follow, Reading.behind, build_behind, skip_add]

/-- Goals in front of others are read first, and the others where that leads to. -/
theorem resume_append {goals : List Goal} (hs : Goal.signed goals = false) (front : List Goal)
    (stack : List Expr) (cursor : Cursor) :
    cursor.resume limit memo (front ++ goals) stack = (do
      let (stack, cursor) ← cursor.resume limit memo front stack
      cursor.resume limit memo goals stack) := by
  rw [resume, Reading.spelled_append hs]
  generalize hf : Reading.spelled front 0 (cursor.left.map Token.lexeme) = first
  cases hc : first.cause with
  | some cause =>
    simp only [resume, hf, follow, hc, bind_assoc]
    rfl
  | none =>
    simp only [resume, hf, follow_after, follow_behind]
    simp only [follow, hc, bind_assoc, pure_bind, left_skip, List.map_drop]

theorem build_tops {steps : List Step} {n k : Nat} (h : Instr.Fits (steps.map Step.instr) n k)
    (cursor : Cursor) : Tops n k fun stack => cursor.build limit memo stack steps := by
  induction steps generalizing n with
  | nil =>
    cases h
    exact .pure
  | cons step steps ih =>
    cases h with
    | cons head tail => exact ((head.tops limit memo).adaptExcept _).bind (ih tail)

/-- Goals that suit the stack leave one expression in its place, and do the same on top of another
stack. -/
theorem resume_top {goals : List Goal} {stack : List Expr} (h : Goal.Ready goals stack.length)
    (rest : List Expr) (cursor : Cursor) :
    cursor.resume limit memo goals (stack ++ rest) = (do
      let (stack, stop) ← cursor.resume limit memo goals stack
      return (stack.headD (.blank memo) :: rest, stop)) := by
  obtain ⟨m, hfits, hend⟩ := Reading.run_fits h 0 cursor.left
  rw [Reading.run_eq_spelled] at hfits hend
  obtain ⟨hmeets, hrest⟩ := @build_tops limit memo _ _ _ hfits cursor stack rfl
  simp only [resume, follow, hrest, bind_assoc, pure_bind]
  refine hmeets.bind_congr fun built hbuilt => ?_
  cases hc : (Reading.spelled goals 0 (cursor.left.map Token.lexeme)).cause with
  | some cause => rfl
  | none =>
    obtain ⟨e, rfl⟩ := List.length_eq_one_iff.mp (hbuilt.trans (hend hc))
    rfl

theorem headD_left (cursor : Cursor) :
    (cursor.left.map Token.lexeme).headD .stop = cursor.current.lexeme := by
  simp only [left, current, ahead, Nat.add_zero, List.head?_drop, List.headD_eq_head?_getD,
    List.head?_map]
  cases cursor.tokens.items[cursor.index]? <;> rfl

/-- The goals stop before the current token. -/
theorem resume_done {goals : List Goal} {cursor : Cursor}
    (h : (cursor.current.lexeme.feed goals).verdict = .done) (stack : List Expr) :
    cursor.resume limit memo goals stack = (do
      let stack ← cursor.build limit memo stack
        (Reading.due 0 (cursor.current.lexeme.feed goals).instrs)
      return (stack, cursor)) := by
  rw [← headD_left] at h ⊢
  rw [resume, Reading.spelled_done h]
  rfl

/-- The goals refuse the current token. -/
theorem resume_refused {goals : List Goal} {cursor : Cursor} {cause : FormatCause}
    (h : cursor.current.lexeme.feed goals = .refuse cause) (hs : Goal.signed goals = false)
    (stack : List Expr) : cursor.resume limit memo goals stack = cursor.fail cause := by
  rw [← headD_left] at h
  rw [resume, Reading.spelled_refused (congrArg Move.verdict h), h, hs]
  rfl

/-- The token at the cursor, which the goals read. -/
theorem left_of_ne_stop {cursor : Cursor} (h : cursor.current.lexeme ≠ .stop) :
    cursor.left = cursor.current :: cursor.next.left ∧ cursor.next = cursor.skip 1 := by
  have hin : cursor.index < cursor.tokens.items.length := by
    by_contra hout
    refine h ?_
    simp [current, ahead, List.getElem?_eq_none (Nat.le_of_not_lt hout)]
  have hnext : cursor.next = cursor.skip 1 := by
    simp [next, skip, Nat.succ_le_of_lt hin]
  refine ⟨?_, hnext⟩
  rw [hnext, left_skip, List.drop_one, left, List.drop_eq_getElem_cons hin]
  simp [current, ahead, List.getElem?_eq_getElem hin]

/-- The goals read the current token. -/
theorem resume_read {goals next : List Goal} {instrs : List Instr} {cursor : Cursor}
    (h : cursor.current.lexeme.feed goals = ⟨instrs, .read next⟩)
    (hn : Goal.signed next = false) (stack : List Expr) :
    cursor.resume limit memo goals stack = (do
      let stack ← cursor.build limit memo stack (Reading.due 0 instrs)
      cursor.next.resume limit memo next stack) := by
  have hstop : cursor.current.lexeme ≠ .stop := by
    intro hx
    rw [hx] at h
    exact Lexeme.stop_feed_ne_read goals next (congrArg Move.verdict h)
  obtain ⟨hleft, hnext⟩ := left_of_ne_stop hstop
  have hstart : Goal.signed next = true → 0 < 0 := by simp [hn]
  rw [resume, hleft, List.map_cons, Reading.spelled_read h, Reading.spelled_behind hstart,
    follow_after]
  simp only [follow_behind, ← hnext, resume]

theorem resume_take {goals next : List Goal} {cursor : Cursor}
    (h : cursor.current.lexeme.feed goals = .read next) (hn : Goal.signed next = false)
    (stack : List Expr) :
    cursor.resume limit memo goals stack = cursor.next.resume limit memo next stack := by
  rw [resume_read h hn]
  rfl

end Cursor

end DiceFormula
