import DiceFormula.Proofs.Lookups

namespace DiceFormula

namespace Outline.Descends

variable {ε α : Type} {allowed : Entry → Prop}

theorem ite {c : Prop} [i : Decidable c] {yes no : EStateM ε Store α} {first : Outline yes}
    {second : Outline no} (hf : first.Descends allowed) (hs : second.Descends allowed) :
    (Outline.ite first second : Outline (if c then yes else no)).Descends allowed := by
  cases i with
  | isTrue h => exact hf
  | isFalse h => exact hs

theorem ofExcept {r : Except ε α} : (Outline.ofExcept r).Descends allowed := by
  cases r with
  | ok a | error e => trivial

theorem ofNumber {r : Except Number.Fault α} : (Outline.ofNumber r).Descends allowed := ofExcept

theorem guard {c : Prop} [Decidable c] {e : ε} {next : Unit → EStateM ε Store α}
    {rest : Outline (next ())} (h : rest.Descends allowed) :
    (Outline.guard rest :
      Outline (if c then MonadExcept.throw e >>= next else next ())).Descends allowed :=
  ite ⟨trivial, fun _ => h⟩ h

end Outline.Descends

/-- An entry that a question about an expression can ask for: that of the expression itself, or one
with a shorter text. -/
def Entry.Under (e : Expr) (aspect : Aspect) (x : Entry) : Prop :=
  x = ⟨e.memo, aspect, e.render⟩ ∨ x.key.length < e.render.length

namespace Expr

variable {limit : Limit.Reading} {memo : MemoName} {e operand : Expr} {aspect aspect' : Aspect}
  {allowed : Entry → Prop}

/-- The text of a roll or an operation has parentheses around those of its operands. -/
theorem length_between (first mid last : String) :
    first.length < ("(" ++ first ++ mid ++ last ++ ")").length ∧
      last.length < ("(" ++ first ++ mid ++ last ++ ")").length := by
  have hopen : "(".length = 1 := rfl
  simp only [String.length_append]
  omega

theorem count_shorter {count faces : Expr} :
    count.render.length < (roll memo count faces).render.length :=
  render_roll ▸ (length_between count.render "d" faces.render).1

theorem faces_shorter {count faces : Expr} :
    faces.render.length < (roll memo count faces).render.length :=
  render_roll ▸ (length_between count.render "d" faces.render).2

theorem left_shorter {op : Op} {left right : Expr} :
    left.render.length < (binary memo op left right).render.length :=
  render_binary ▸ (length_between left.render op.symbol right.render).1

theorem right_shorter {op : Op} {left right : Expr} :
    right.render.length < (binary memo op left right).render.length :=
  render_binary ▸ (length_between left.render op.symbol right.render).2

/-- What is asked of an operand has a shorter text than the whole. -/
theorem under_operand (hs : operand.render.length < e.render.length)
    (h : ∀ x, Entry.Under e aspect x → allowed x) :
    ∀ x, Entry.Under operand aspect' x → allowed x := by
  rintro x (rfl | hx)
  · exact h _ (.inr hs)
  · exact h x (.inr (Nat.lt_trans hx hs))

theorem inside_operand (hs : operand.render.length < e.render.length) :
    ∀ x, Entry.Under operand aspect' x → x.Inside ⟨memo, aspect, e.render⟩ := by
  rintro x (rfl | hx)
  · exact .inl hs
  · exact .inl (Nat.lt_trans hx hs)

/-- A predicate of an expression may ask for its outcomes. -/
theorem inside_predicate (ha : aspect ≠ .outcomes) :
    ∀ x, Entry.Under e .outcomes x → x.Inside ⟨e.memo, aspect, e.render⟩ := by
  rintro x (rfl | hx)
  · exact .inr ⟨ha, rfl⟩
  · exact .inl hx

theorem pairs_descends {lefts rights : Eval Support}
    {results : Support → Support → Except Fault Support} {first : Outline lefts}
    {second : Outline rights} (hf : first.Descends allowed) (hs : second.Descends allowed) :
    (pairsOutline first second :
      Outline (do MonadExcept.ofExcept (results (← lefts) (← rights)))).Descends allowed :=
  ⟨hf, fun _ => ⟨hs, fun _ => .ofExcept⟩⟩

theorem outcomes_descends (h : ∀ x, Entry.Under e .outcomes x → allowed x) :
    (e.outcomesOutline limit).Descends allowed := by
  induction e generalizing allowed with
  | blank | number => trivial
  | roll memo count faces ihc ihf =>
    refine ⟨h _ (.inl rfl), ihf (inside_operand faces_shorter), fun _ => ?_⟩
    refine ⟨.ofExcept, fun _ => .ite trivial ⟨?_, fun _ => .ofExcept⟩⟩
    exact ihc (inside_operand count_shorter)
  | binary memo op left right ihl ihr =>
    refine ⟨h _ (.inl rfl), ?_⟩
    let inside (x : Entry) := x.Inside ⟨memo, .outcomes, (binary memo op left right).render⟩
    have hleft : (left.outcomesOutline limit).Descends inside := ihl (inside_operand left_shorter)
    have hright : (right.outcomesOutline limit).Descends inside :=
      ihr (inside_operand right_shorter)
    cases op with
    | add | sub =>
      refine ⟨hleft, fun _ => ⟨hright, fun _ => ⟨.ofExcept, fun quick => ?_⟩⟩⟩
      -- When there is a gap in the operands, they are asked again.
      cases quick with
      | some results => trivial
      | none => exact pairs_descends hleft hright
    | mul | div | pow | unspecified => exact pairs_descends hleft hright

theorem least_descends (h : ∀ x, Entry.Under e .outcomes x → allowed x) (possible : Bool) :
    (e.leastOutline limit possible).Descends allowed :=
  .ite ⟨outcomes_descends h, fun _ => ⟨.ofExcept, fun _ => .ofNumber⟩⟩ trivial

theorem mayBeNegative_descends (h : ∀ x, Entry.Under e .negative x → allowed x) :
    (e.mayBeNegativeOutline limit).Descends allowed := by
  induction e generalizing allowed with
  | blank | number | roll => trivial
  | binary memo op left right ihl ihr =>
    refine ⟨h _ (.inl rfl), ?_⟩
    let e := binary memo op left right
    let inside (x : Entry) := x.Inside ⟨memo, .negative, e.render⟩
    have hleft : (left.mayBeNegativeOutline limit).Descends inside :=
      ihl (inside_operand left_shorter)
    have hright : (right.mayBeNegativeOutline limit).Descends inside :=
      ihr (inside_operand right_shorter)
    have hlook : ∀ possible, (e.leastOutline limit possible).Descends inside :=
      least_descends (inside_predicate (by decide))
    cases op with
    | add | mul | div => exact ⟨hleft, fun _ => .ite ⟨trivial, hlook⟩ ⟨hright, hlook⟩⟩
    | pow => exact ⟨hleft, hlook⟩
    | sub | unspecified => exact ⟨trivial, hlook⟩

theorem bothPositive_descends {left right : Expr}
    (hl : ∀ x, Entry.Under left .outcomes x → allowed x)
    (hr : ∀ x, Entry.Under right .outcomes x → allowed x) :
    (bothPositiveOutline limit left right).Descends allowed := by
  refine ⟨outcomes_descends hl, fun _ => ⟨.ofExcept, fun _ => ⟨.ofNumber, fun _ => ?_⟩⟩⟩
  exact .ite ⟨outcomes_descends hr, fun _ => ⟨.ofExcept, fun _ => .ofNumber⟩⟩ trivial

theorem zero_descends (h : ∀ x, Entry.Under e .outcomes x → allowed x) (possible : Bool) :
    (e.zeroOutline limit possible).Descends allowed :=
  .ite ⟨outcomes_descends h, fun _ => trivial⟩ trivial

theorem mayBeZero_descends (h : ∀ x, Entry.Under e .zero x → allowed x) :
    (e.mayBeZeroOutline limit).Descends allowed := by
  induction e generalizing allowed with
  | blank | number => trivial
  | roll memo count faces ihc ihf =>
    exact ⟨ihc (under_operand count_shorter h), fun _ =>
      .ite trivial (ihf (under_operand faces_shorter h))⟩
  | binary memo op left right ihl ihr =>
    refine ⟨h _ (.inl rfl), ?_⟩
    let e := binary memo op left right
    let inside (x : Entry) := x.Inside ⟨memo, .zero, e.render⟩
    have hleft : (left.mayBeZeroOutline limit).Descends inside :=
      ihl (inside_operand left_shorter)
    have hright : (right.mayBeZeroOutline limit).Descends inside :=
      ihr (inside_operand right_shorter)
    have hlefts : (left.outcomesOutline limit).Descends inside :=
      outcomes_descends (inside_operand left_shorter)
    have hrights : (right.outcomesOutline limit).Descends inside :=
      outcomes_descends (inside_operand right_shorter)
    have hlook : ∀ possible, (e.zeroOutline limit possible).Descends inside :=
      zero_descends (inside_predicate (by decide))
    cases op with
    | div =>
      exact ⟨hlefts, fun _ => ⟨.ofExcept, fun _ => ⟨hrights, fun _ => ⟨.ofExcept, fun _ =>
        .ofNumber⟩⟩⟩⟩
    | add =>
      refine ⟨bothPositive_descends ?_ ?_, fun _ => ⟨trivial, hlook⟩⟩
      · exact inside_operand left_shorter
      · exact inside_operand right_shorter
    | mul | pow => exact ⟨hleft, fun _ => .ite ⟨trivial, hlook⟩ ⟨hright, hlook⟩⟩
    | sub | unspecified => exact ⟨trivial, hlook⟩

theorem outcomes_ordered : (e.outcomesOutline limit).Ordered := outcomes_descends fun _ _ => trivial

theorem mayBeNegative_ordered : (e.mayBeNegativeOutline limit).Ordered :=
  mayBeNegative_descends fun _ _ => trivial

theorem mayBeZero_ordered : (e.mayBeZeroOutline limit).Ordered :=
  mayBeZero_descends fun _ _ => trivial

theorem mkRoll_ordered {count faces : Expr} : (mkRollOutline limit memo count faces).Ordered :=
  ⟨mayBeNegative_ordered, fun _ => .guard ⟨mayBeNegative_ordered, fun _ => .guard trivial⟩⟩

theorem mkBinary_ordered {op : Op} {left right : Expr} :
    (mkBinaryOutline limit memo op left right).Ordered := by
  cases op with
  | div =>
    refine ⟨mayBeZero_ordered, fun _ => .ite ⟨mayBeZero_ordered, fun _ => .guard ?_⟩ ?_⟩
    · exact ⟨mayBeZero_ordered, fun _ => .guard trivial⟩
    · exact ⟨mayBeZero_ordered, fun _ => .guard trivial⟩
  | pow => exact ⟨mayBeNegative_ordered, fun _ => .guard trivial⟩
  | add | sub | mul | unspecified => trivial

theorem low_ordered : (e.lowOutline limit).Ordered := by
  induction e with
  | blank | number => trivial
  | roll _ count faces ihc ihf => exact ihc
  | binary memo op left right ihl ihr =>
    cases op with
    | div =>
      refine ⟨ihr, fun _ => .ite ?_ ⟨ihl, fun _ => ⟨ihr, fun _ => .ofExcept⟩⟩⟩
      exact ⟨outcomes_ordered, fun _ => .ofExcept⟩
    | add | sub | mul | pow | unspecified => exact ⟨ihl, fun _ => ⟨ihr, fun _ => .ofExcept⟩⟩

theorem high_ordered : (e.highOutline limit).Ordered := by
  induction e with
  | blank | number => trivial
  | roll _ count faces ihc ihf => exact ⟨ihc, fun _ => ⟨ihf, fun _ => .ofNumber⟩⟩
  | binary memo op left right ihl ihr =>
    cases op with
    | div =>
      refine ⟨ihr, fun _ => .ite ?_ ⟨ihl, fun _ => ⟨ihr, fun _ => .ofExcept⟩⟩⟩
      exact ⟨outcomes_ordered, fun _ => .ofExcept⟩
    | add | sub | mul | pow | unspecified => exact ⟨ihl, fun _ => ⟨ihr, fun _ => .ofExcept⟩⟩

theorem median_ordered : (e.medianOutline limit).Ordered := by
  induction e with
  | blank | number => trivial
  | roll memo count faces =>
    exact ⟨low_ordered, fun _ => ⟨high_ordered, fun _ => ⟨.ofNumber, fun _ => .ofNumber⟩⟩⟩
  | binary memo op left right ihl ihr =>
    exact ⟨ihl, fun _ => ⟨.ofNumber, fun _ => ⟨ihr, fun _ => .ofExcept⟩⟩⟩

theorem ask_ordered {query : Query} : (e.askOutline limit query).Ordered := by
  cases query with
  | render | label | describe => trivial
  | low => exact ⟨low_ordered, fun _ => trivial⟩
  | high => exact ⟨high_ordered, fun _ => trivial⟩
  | median => exact ⟨median_ordered, fun _ => trivial⟩
  | outcomes => exact ⟨outcomes_ordered, fun _ => trivial⟩
  | mayBeZero => exact ⟨mayBeZero_ordered, fun _ => trivial⟩
  | mayBeNegative => exact ⟨mayBeNegative_ordered, fun _ => trivial⟩
  | sample script times => exact ⟨.ofExcept, fun _ => trivial⟩

end Expr

section Parse

variable {limit : Limit.Reading} {memo : MemoName}

theorem Instr.perform_ordered {stack : List Expr} {instr : Instr} :
    (instr.performOutline limit memo stack).Ordered := by
  cases instr with
  | number value => trivial
  | roll =>
    match stack with
    | [] | [_] => trivial
    | _ :: _ :: _ => exact ⟨Expr.mkRoll_ordered, fun _ => trivial⟩
  | binary op =>
    match stack with
    | [] | [_] => trivial
    | _ :: _ :: _ => exact ⟨Expr.mkBinary_ordered, fun _ => trivial⟩

theorem Cursor.build_ordered {cursor : Cursor} {stack : List Expr} {steps : List Step} :
    (cursor.buildOutline limit memo stack steps).Ordered := by
  induction steps generalizing stack with
  | nil => trivial
  | cons step steps ih => exact ⟨Instr.perform_ordered, fun _ => ih⟩

theorem Cursor.parse_ordered {cursor : Cursor} {rule : Rule} :
    (cursor.parseOutline limit memo rule).Ordered := by
  have hstop {stop : Cursor} {stack : List Expr} {cause : Option FormatCause} :
      (stopOutline memo stop stack cause).Ordered := by
    cases cause with
    | none | some cause => trivial
  exact ⟨build_ordered, fun _ => hstop⟩

theorem parse_ordered {source : String} : (parseOutline limit memo source).Ordered :=
  ⟨.ofExcept, fun _ => ⟨Cursor.parse_ordered, fun _ => trivial⟩⟩

end Parse

/-- Work on the memos with its outline. -/
structure Task where
  {α : Type}
  work : Eval α
  outline : Outline work

/-- An action that asks a memo itself, with a computation of its own. -/
def Action.Direct : Action → Prop
  | .memoize .. => True
  | .parse .. | .build .. | .part .. | .ask .. | .memoOf _ | .setLimit _ | .clear _ | .dump _ =>
    False

namespace Session

def plantedOutline (memo : MemoName) (aspect : Aspect) (key : String) (value : aspect.Answer) :
    (inner : Option aspect.Answer) → (failure : Option Fault) →
      Outline (planted memo aspect key value inner failure)
  | none, none => .pure _
  | none, some _ => .throw _
  | some _, none => .bind (.memoize (.pure _)) fun _ => .pure _
  | some _, some _ => .bind (.memoize (.pure _)) fun _ => .throw _

/-- What an action does on the memos, but for clearing one. -/
def task? (session : Session) : Action → Option Task
  | .parse _ memo source => some ⟨_, parseOutline session.limit memo source⟩
  | .build _ memo (.roll count faces) =>
    match session.names.lookup count, session.names.lookup faces with
    | some count, some faces => some ⟨_, Expr.mkRollOutline session.limit memo count faces⟩
    | _, _ => none
  | .build _ memo (.binary op left right) =>
    match session.names.lookup left, session.names.lookup right with
    | some left, some right => some ⟨_, Expr.mkBinaryOutline session.limit memo op left right⟩
    | _, _ => none
  | .ask name query =>
    match session.names.lookup name with
    | some e => some ⟨_, e.askOutline session.limit query⟩
    | none => none
  | .memoize memo aspect key value inner failure =>
    some ⟨DiceFormula.memoize memo aspect key _,
      .memoize (plantedOutline memo aspect key value inner failure)⟩
  | .build _ _ .blank | .build _ _ (.number _) | .part .. | .memoOf _ | .setLimit _ | .clear _
  | .dump _ => none

/-- The lookups that an action makes. -/
def lookups (session : Session) (action : Action) : List Lookup :=
  match session.task? action with
  | some task => task.outline.lookups session.store
  | none => []

/-- The lookups that actions make one after the other. -/
def journal (session : Session) : List Action → List Lookup
  | [] => []
  | action :: actions => session.lookups action ++ (session.step action).2.journal actions

variable {session : Session} {action : Action}

/-- The task of an action is what it does on the memos. -/
theorem step_task (h : ∀ memo, action ≠ .clear memo) :
    (session.step action).2.store =
      match session.task? action with
      | some task => leaves task.work session.store
      | none => session.store := by
  rw [step_store]
  cases action with
  | parse | memoize | part | memoOf | setLimit | dump => rfl
  | clear memo => exact absurd rfl (h memo)
  | build name memo shape =>
    cases shape with
    | blank | number => rfl
    | roll count faces =>
      simp only [storeAfter, task?]
      cases session.names.lookup count with
      | none => rfl
      | some count =>
        cases session.names.lookup faces with
        | none | some faces => rfl
    | binary op left right =>
      simp only [storeAfter, task?]
      cases session.names.lookup left with
      | none => rfl
      | some left =>
        cases session.names.lookup right with
        | none | some right => rfl
  | ask name query =>
    simp only [storeAfter, task?]
    cases session.names.lookup name with
    | none | some e => rfl

theorem task_ordered (h : ¬ action.Direct) {task : Task} (ht : session.task? action = some task) :
    task.outline.Ordered := by
  cases action with
  | memoize => exact absurd trivial h
  | parse name memo source =>
    cases ht
    exact parse_ordered
  | build name memo shape =>
    cases shape with
    | blank | number => cases ht
    | roll count faces =>
      simp only [task?] at ht
      split at ht
      · cases ht
        exact Expr.mkRoll_ordered
      · cases ht
    | binary op left right =>
      simp only [task?] at ht
      split at ht
      · cases ht
        exact Expr.mkBinary_ordered
      · cases ht
  | ask name query =>
    simp only [task?] at ht
    split at ht
    · cases ht
      exact Expr.ask_ordered
    · cases ht
  | part | memoOf | setLimit | clear | dump => cases ht

/-- The lookups of one action. -/
theorem step_orderly (session : Session) (h : ¬ action.Direct) (hc : ∀ memo, action ≠ .clear memo) :
    Orderly (fun _ => True) (session.lookups action) session.store
      (session.step action).2.store := by
  rw [step_task hc, lookups]
  cases ht : session.task? action with
  | some task => exact (task_ordered h ht).orderly (fun _ _ _ _ => trivial) session.store
  | none => exact .nil

/-- Clearing other memos leaves the entry. -/
theorem step_counts (session : Session) (h : ¬ action.Direct) {x : Entry}
    (hc : action ≠ .clear x.memo) :
    completions x (session.lookups action) + (session.store.has x).toNat =
      ((session.step action).2.store.has x).toNat := by
  by_cases hother : ∃ other, action = .clear other
  · obtain ⟨other, rfl⟩ := hother
    have hne : x.memo ≠ other := fun he => hc (he ▸ rfl)
    rw [step_store, storeAfter, Store.has, Store.has, Store.memo_set, if_neg hne]
    exact Nat.zero_add _
  · exact (session.step_orderly h fun other he => hother ⟨other, he⟩).counts x

theorem step_descends (session : Session) (h : ¬ action.Direct) :
    ∀ l ∈ session.lookups action,
      l.ending ≠ .discarded ∧ ∀ outer ∈ l.around, l.entry.Inside outer := by
  by_cases hclear : ∃ memo, action = .clear memo
  · obtain ⟨memo, rfl⟩ := hclear
    exact fun _ hl => nomatch hl
  · have hstep := session.step_orderly h fun memo he => hclear ⟨memo, he⟩
    exact fun l hl => ⟨hstep.keeps l hl, hstep.inside l hl⟩

theorem journal_counts (session : Session) {actions : List Action}
    (hd : ∀ action ∈ actions, ¬ action.Direct) {x : Entry} (hc : .clear x.memo ∉ actions) :
    completions x (session.journal actions) + (session.store.has x).toNat ≤ 1 := by
  induction actions generalizing session with
  | nil => simpa [journal, completions] using Bool.toNat_le _
  | cons action actions ih =>
    obtain ⟨hne, hrest⟩ := List.ne_and_not_mem_of_not_mem_cons hc
    have hstep := session.step_counts (hd action (by simp)) hne.symm
    have hlater := ih (session.step action).2 (fun next hn => hd next (by simp [hn])) hrest
    rw [journal, completions, List.countP_append]
    simp only [completions] at hstep hlater
    omega

theorem journal_descends (session : Session) {actions : List Action}
    (hd : ∀ action ∈ actions, ¬ action.Direct) :
    ∀ l ∈ session.journal actions,
      l.ending ≠ .discarded ∧ ∀ outer ∈ l.around, l.entry.Inside outer := by
  induction actions generalizing session with
  | nil => exact fun _ hl => nomatch hl
  | cons action actions ih =>
    intro l hl
    rcases List.mem_append.mp hl with hl | hl
    · exact session.step_descends (hd action (by simp)) l hl
    · exact ih _ (fun next hn => hd next (by simp [hn])) l hl

/-- Nothing is computed twice. As long as its memo is not cleared, an entry is computed to its end
at most once, and not at all when it is there already. No answer is discarded after it has been
computed, and what is looked up in a computation has a shorter text, or is the outcomes for a
predicate under the same text. What an action computes is what is new in the memos. Where an answer
that has been given is asked for again, and no entry is lost, nothing is computed. -/
theorem computed_once (session : Session) {actions : List Action}
    (hd : ∀ action ∈ actions, ¬ action.Direct) :
    (∀ x : Entry, .clear x.memo ∉ actions →
      completions x (session.journal actions) ≤ 1 ∧
      (session.store.has x → completions x (session.journal actions) = 0)) ∧
    (∀ l ∈ session.journal actions,
      l.ending ≠ .discarded ∧ ∀ outer ∈ l.around, l.entry.Inside outer) ∧
    (∀ (now : Session) (action : Action) (x : Entry), ¬ action.Direct → action ≠ .clear x.memo →
      completions x (now.lookups action) + (now.store.has x).toNat =
        ((now.step action).2.store.has x).toNat) ∧
    ∀ (task : Task) (old new later : Store) (answer : task.α), task.work old = .ok answer new →
      new.Kept later → ∀ l ∈ task.outline.lookups later, l.ending = .found ∧ l.around = [] := by
  refine ⟨fun x hc => ?_, session.journal_descends hd, fun now _ _ h hc => now.step_counts h hc,
    fun task _ _ _ _ h hk => task.outline.found_again h hk⟩
  have hcounts := session.journal_counts hd hc
  refine ⟨by omega, fun hthere => ?_⟩
  rw [hthere, Bool.toNat_true] at hcounts
  omega

/-- A quotient of two rolls is too large for the limit at first. The roll is looked up four times
and computed once. A sum looks up its first operand, which has gaps, twice. It is there already. -/
theorem computed_once_retried :
    let doubled : Memo :=
      { outcomes := [("((1d2)*2)", .integers (.ofRuns [.single 2, .single 4])),
          ("(1d2)", .integers (.ofRuns [.single 1, .single 2]))] }
    let session : Session := { store := ({} : Store).set "" doubled }
    let actions : List Action := [.parse "a" "" "(2d2)/(2d2)", .setLimit (some "3"),
      .ask "a" .outcomes, .setLimit none, .ask "a" .outcomes, .ask "a" .outcomes, .clear "b",
      .parse "b" "" "1d2*2+1", .ask "b" .outcomes]
    let journal := session.journal actions
    let endings (key : String) :=
      (journal.filter fun l => l.entry = ⟨"", .outcomes, key⟩).map Lookup.ending
    (∀ action ∈ actions, ¬ action.Direct) ∧
      endings "(2d2)" = [.kept, .found, .found, .found] ∧
      endings "((2d2)/(2d2))" = [.failed, .kept, .found] ∧
      endings "((1d2)*2)" = [.found, .found] ∧
      completions ⟨"", .outcomes, "((2d2)/(2d2))"⟩ journal ≤ 1 ∧
      ∀ l ∈ journal, l.ending ≠ .discarded ∧ ∀ outer ∈ l.around, l.entry.Inside outer := by
  intro doubled session actions journal endings
  have hd : ∀ action ∈ actions, ¬ action.Direct := by simp [actions, Action.Direct]
  have hc : .clear "" ∉ actions := by simp [actions]
  obtain ⟨honce, hdescends, -⟩ := computed_once session hd
  refine ⟨hd, ?_, ?_, ?_, (honce _ hc).1, hdescends⟩
  · decide +kernel
  · decide +kernel
  · decide +kernel

end Session

end DiceFormula
