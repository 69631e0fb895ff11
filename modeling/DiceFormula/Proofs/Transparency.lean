import DiceFormula.Proofs.Sessions
import Mathlib

namespace DiceFormula

namespace Expr

/-- Built from the bottom up, each part alone: on empty memos and without a limit. -/
inductive Built : Expr → Prop
  | number {memo : MemoName} {value : Int} : Built (number memo value)
  | roll {memo : MemoName} {count faces : Expr} (hc : Built count) (hf : Built faces)
      (passes : (mkRoll (.ok none) memo count faces).run' {} = some (roll memo count faces)) :
      Built (roll memo count faces)
  | binary {memo : MemoName} {op : Op} {left right : Expr} (meaning : op ≠ .unspecified)
      (hl : Built left) (hr : Built right)
      (passes : (mkBinary (.ok none) memo op left right).run' {} = some (binary memo op left right)) :
      Built (binary memo op left right)

end Expr

/-- What work gives alone: on empty memos. -/
theorem Meets.alone {work : Eval α} {post : α → Prop} {fail : Fault → Prop}
    (h : Meets Store.Truthful work post fail) (hf : ∀ fault, ¬ fail fault) :
    ∃ a, work.run' {} = some a ∧ post a := by
  obtain ⟨a, store, hr, ha, -⟩ := h.returns hf Store.truthful_empty
  exact ⟨a, by simp only [EStateM.run', EStateM.run, hr], ha⟩

theorem Meets.post_of_alone {work : Eval α} {post : α → Prop} {fail : Fault → Prop}
    (h : Meets Store.Truthful work post fail) {a : α} (hr : work.run' {} = some a) : post a := by
  simp only [EStateM.run', EStateM.run] at hr
  cases hw : work {} with
  | ok b store =>
    rw [hw] at hr
    cases hr
    exact (h.of_ok Store.truthful_empty hw).1
  | error fault store =>
    rw [hw] at hr
    cases hr

namespace Expr

theorem Safe.not_refused {e : Expr} (he : e.Safe) (fault : Fault) :
    ¬ e.Refused (.ok none) fault := by
  intro h
  rcases h with hstop | ⟨check, -, hbreaks⟩
  · exact Limit.not_stops_none hstop
  · exact he.not_breaks check hbreaks

theorem Safe.built {e : Expr} (he : e.Safe) : e.Built := by
  induction e with
  | blank => exact he.elim
  | number => exact .number
  | roll memo count faces ihc ihf =>
    have hmeets : Meets Store.Truthful (mkRoll (.ok none) memo count faces) _ _ :=
      mkRoll_meets he.1 he.2.1
    obtain ⟨e, hr, rfl, -⟩ := hmeets.alone he.not_refused
    exact .roll (ihc he.1) (ihf he.2.1) hr
  | binary memo op left right ihl ihr =>
    have hmeets : Meets Store.Truthful (mkBinary (.ok none) memo op left right) _ _ :=
      mkBinary_meets he.op_ne he.1 he.2.1
    obtain ⟨e, hr, rfl, -⟩ := hmeets.alone he.not_refused
    exact .binary he.op_ne (ihl he.1) (ihr he.2.1) hr

theorem Built.safe {e : Expr} (h : e.Built) : e.Safe := by
  induction h with
  | number => trivial
  | roll _ _ passes ihc ihf => exact ((mkRoll_meets ihc ihf).post_of_alone passes).2
  | binary meaning _ _ passes ihl ihr =>
    exact ((mkBinary_meets meaning ihl ihr).post_of_alone passes).2

/-- The checks in building pass exactly the expressions of which no part can go wrong. -/
theorem built_iff_safe {e : Expr} : e.Built ↔ e.Safe := ⟨Built.safe, Safe.built⟩

end Expr

namespace Aspect

/-- The question about an aspect. -/
def query : Aspect → Query
  | outcomes => .outcomes
  | zero => .mayBeZero
  | negative => .mayBeNegative

def reply : (aspect : Aspect) → aspect.Answer → DiceFormula.Answer
  | outcomes, s => .outcomes s
  | zero, b => .truth b
  | negative, b => .truth b

/-- What an answer says of a set of outcomes. -/
def Says (o : Outcomes) : (aspect : Aspect) → aspect.Answer → Prop
  | outcomes, s => s = .integers o
  | zero, b => b = true ↔ 0 ∈ o
  | negative, b => b = true ↔ ∃ v, v ∈ o ∧ v < 0

end Aspect

namespace Expr

variable {e : Expr} {limit : Limit.Reading}

theorem Answers.says {o : Outcomes} (ho : ∀ v, v ∈ o ↔ e.Yields v) {aspect : Aspect}
    {answer : aspect.Answer} (ha : e.Answers aspect answer) : aspect.Says o answer := by
  cases aspect with
  | outcomes => exact Answers.unique ha ⟨o, rfl, ho⟩
  | zero => exact Iff.trans ha (ho 0).symm
  | negative =>
    simp only [Aspect.Says, ho]
    exact ha

theorem ask_meets (he : e.Safe) (aspect : Aspect) :
    Meets Store.Truthful (e.ask limit aspect.query)
      (fun a => ∃ answer, a = aspect.reply answer ∧ e.Answers aspect answer)
      (Limit.Stops limit) := by
  cases aspect with
  | outcomes => exact Meets.bind (outcomes_meets he) fun s hs => Meets.pure ⟨s, rfl, hs⟩
  | zero => exact Meets.bind (mayBeZero_meets he) fun b hb => Meets.pure ⟨b, rfl, hb⟩
  | negative => exact Meets.bind (mayBeNegative_meets he) fun b hb => Meets.pure ⟨b, rfl, hb⟩

/-- A question about an aspect has one answer, which it has alone too, unless the limit stops it. -/
theorem ask_meets_alone (he : e.Safe) (aspect : Aspect) :
    ∃ answer, (e.ask (.ok none) aspect.query).run' {} = some answer ∧ ∀ limit,
      Meets Store.Truthful (e.ask limit aspect.query) (· = answer) (Limit.Stops limit) := by
  obtain ⟨_, hr, answer, rfl, ha⟩ := (ask_meets he aspect).alone fun _ => Limit.not_stops_none
  refine ⟨_, hr, fun limit => (ask_meets he aspect).weaken ?_⟩
  intro a ha
  obtain ⟨answer', rfl, ha'⟩ := ha
  rw [ha'.unique ha]

end Expr

namespace Session

variable {session : Session} {name : String} {e : Expr}

/-- A question about a named expression reports what evaluation on the memos gives. -/
theorem step_ask (h : session.names.lookup name = some e) {query : Query} :
    (session.step (.ask name query)).1 = .ok (.answer
      (match e.ask session.limit query session.store with
      | .ok answer _ => .ok answer
      | .error fault _ => .error fault)) := by
  simp only [step, perform, Bind.bind, EStateM.bind, find_run, h]
  cases e.ask session.limit query session.store with
  | ok answer store => rfl
  | error fault store => rfl

/-- A question about an aspect is answered as it is alone, or ended by the limit. -/
theorem step_ask_alone (aspect : Aspect) (hs : session.Sound)
    (h : session.names.lookup name = some e) {answer : Answer}
    (ha : Meets Store.Truthful (e.ask session.limit aspect.query) (· = answer)
      (Limit.Stops session.limit)) :
    (session.step (.ask name aspect.query)).1 = .ok (.answer (.ok answer)) ∨
      ∃ fault, (session.step (.ask name aspect.query)).1 = .ok (.answer (.error fault)) ∧
        Limit.Stops session.limit fault := by
  rw [step_ask h]
  cases hr : e.ask session.limit aspect.query session.store with
  | ok answer' store => exact .inl (by rw [(ha.of_ok hs.truthful hr).1])
  | error fault store => exact .inr ⟨fault, rfl, (ha.of_error hs.truthful hr).1⟩

end Session

/-- Whatever was done before in a session, and whether or not it failed: the entries of all memos
say what the outcomes of an expression with this text are alone, without a limit. So each question
about an aspect of a named expression is answered as it is alone or is ended by the limit, and it
is answered once the limit is lifted. -/
theorem memos_transparent {session : Session} (h : session.Reached) :
    (∀ memo aspect key answer, (key, answer) ∈ (session.store.memo memo).entries aspect →
      ∃ (e : Expr) (o : Outcomes), e.Built ∧ e.render = key ∧
        (e.outcomes (.ok none)).run' {} = some (.integers o) ∧ aspect.Says o answer) ∧
    ∀ (name : String) (e : Expr) (aspect : Aspect), session.names.lookup name = some e →
      ∃ answer, (e.ask (.ok none) aspect.query).run' {} = some answer ∧
        ((session.step (.ask name aspect.query)).1 = .ok (.answer (.ok answer)) ∨
          ∃ fault, (session.step (.ask name aspect.query)).1 = .ok (.answer (.error fault)) ∧
            Limit.Stops session.limit fault) ∧
        ((session.step (.setLimit none)).2.step (.ask name aspect.query)).1 =
          .ok (.answer (.ok answer)) := by
  have hs := h.sound
  constructor
  · intro memo aspect key answer hm
    obtain ⟨e, he, hkey, ha⟩ := hs.truthful memo aspect key answer hm
    obtain ⟨_, hr, o, rfl, ho⟩ := (Expr.outcomes_meets he).alone fun _ => Limit.not_stops_none
    exact ⟨e, o, he.built, hkey, hr, ha.says ho⟩
  · intro name e aspect hname
    have he := hs.safe _ (Session.mem_of_lookup hname)
    obtain ⟨answer, hr, ha⟩ := Expr.ask_meets_alone he aspect
    refine ⟨answer, hr, Session.step_ask_alone aspect hs hname (ha _), ?_⟩
    have hlifted : (session.step (.setLimit none)).2.Sound := Session.step_sound hs trivial
    rcases Session.step_ask_alone aspect hlifted hname (ha _) with hok | ⟨f, -, hstop⟩
    · exact hok
    · exact absurd hstop Limit.not_stops_none

/-- A session with operands in another memo, a division that is refused, and an enumeration that
the limit stops at first. -/
def mixedSession : Session :=
  let actions : List Action :=
    [.parse "a" "x" "2d3-4", .build "q" "y" (.binary .div "a" "a"), .build "n" "y" (.number 2),
      .build "b" "y" (.binary .mul "a" "n"), .setLimit (some "3"), .ask "b" .outcomes,
      .setLimit (some "9"), .ask "b" .mayBeZero]
  actions.foldl (fun session action => (session.step action).2) {}

theorem memos_transparent_mixed :
    mixedSession.Reached ∧
      ("(((2d3)-4)*2)", true) ∈ (mixedSession.store.memo "y").entries .zero ∧
      (∃ (e : Expr) (o : Outcomes), e.Built ∧ e.render = "(((2d3)-4)*2)" ∧
        (e.outcomes (.ok none)).run' {} = some (.integers o) ∧ Aspect.zero.Says o true) ∧
      ∃ e, mixedSession.names.lookup "b" = some e ∧ ∃ answer,
        (e.ask (.ok none) Aspect.outcomes.query).run' {} = some answer ∧
        ((mixedSession.step (.ask "b" Aspect.outcomes.query)).1 = .ok (.answer (.ok answer)) ∨
          ∃ fault,
            (mixedSession.step (.ask "b" Aspect.outcomes.query)).1 =
              .ok (.answer (.error fault)) ∧
            Limit.Stops mixedSession.limit fault) ∧
        ((mixedSession.step (.setLimit none)).2.step (.ask "b" Aspect.outcomes.query)).1 =
          .ok (.answer (.ok answer)) := by
  have hreached : mixedSession.Reached :=
    .step (.step (.step (.step (.step (.step (.step (.step .start trivial) trivial) trivial)
      trivial) trivial) trivial) trivial) trivial
  have hentry : ("(((2d3)-4)*2)", true) ∈ (mixedSession.store.memo "y").entries .zero := by
    have hzero : (mixedSession.store.memo "y").zero = [("(((2d3)-4)*2)", true)] := by cbv
    simp only [Memo.entries, hzero, List.mem_singleton]
  have hname : (mixedSession.names.lookup "b").isSome = true := by cbv
  obtain ⟨e, he⟩ := Option.isSome_iff_exists.mp hname
  have h := memos_transparent hreached
  exact ⟨hreached, hentry, h.1 _ _ _ _ hentry, e, he, h.2 _ _ _ he⟩

end DiceFormula
