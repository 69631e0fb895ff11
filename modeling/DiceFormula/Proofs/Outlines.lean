import DiceFormula.Session

namespace DiceFormula

/-- One answer to be remembered: of which memo, of which kind, and under which text. -/
structure Entry where
  memo : MemoName
  aspect : Aspect
  key : String
  deriving DecidableEq

/-- How work on the memos is put together, and in which of its parts a memo is asked. There is no
other way for it to look at them. -/
inductive Outline : {ε α : Type} → EStateM ε Store α → Type 1
  | pure {ε α : Type} (a : α) : Outline (Pure.pure a : EStateM ε Store α)
  | throw {ε α : Type} (e : ε) : Outline (MonadExcept.throw e : EStateM ε Store α)
  | bind {ε α β : Type} {work : EStateM ε Store α} {next : α → EStateM ε Store β}
      (first : Outline work) (rest : ∀ a, Outline (next a)) : Outline (work >>= next)
  | adapt {ε ε' α : Type} {work : EStateM ε Store α} (f : ε → ε') (inner : Outline work) :
      Outline (work.adaptExcept f)
  | memoize {memo : MemoName} {aspect : Aspect} {key : String} {work : Eval aspect.Answer}
      (inner : Outline work) : Outline (DiceFormula.memoize memo aspect key work)

namespace Outline

variable {ε α : Type}

def ite {c : Prop} [i : Decidable c] {yes no : EStateM ε Store α} (first : Outline yes)
    (second : Outline no) : Outline (if c then yes else no) :=
  match i with
  | .isTrue _ => first
  | .isFalse _ => second

def ofExcept : (r : Except ε α) → Outline (MonadExcept.ofExcept r : EStateM ε Store α)
  | .ok a => .pure a
  | .error e => .throw e

/-- A guard that throws, and the work behind it. -/
def guard {c : Prop} [Decidable c] {e : ε} {next : Unit → EStateM ε Store α}
    (rest : Outline (next ())) :
    Outline (if c then MonadExcept.throw e >>= next else next ()) :=
  .ite (.bind (.throw e) fun _ => rest) rest

def ofNumber (r : Except Number.Fault α) : Outline (Eval.ofNumber r) := ofExcept _

end Outline

namespace Expr

/-- The visit to all pairs of what the operands can be. -/
def pairsOutline {lefts rights : Eval Support} {results : Support → Support → Except Fault Support}
    (first : Outline lefts) (second : Outline rights) :
    Outline (do
      let left ← lefts
      let right ← rights
      MonadExcept.ofExcept (results left right)) :=
  .bind first fun _ => .bind second fun _ => .ofExcept _

def outcomesOutline (limit : Limit.Reading) : (e : Expr) → Outline (e.outcomes limit)
  | blank _ => .throw _
  | number _ _ => .pure _
  | roll _ count faces =>
    .memoize <| .bind (faces.outcomesOutline limit) fun _ => .bind (.ofExcept _) fun _ =>
      .ite (.pure _) <| .bind (count.outcomesOutline limit) fun _ => .ofExcept _
  | binary _ op left right =>
    .memoize <|
      match op with
      | .add | .sub =>
        .bind (left.outcomesOutline limit) fun _ => .bind (right.outcomesOutline limit) fun _ =>
          .bind (.ofExcept _) fun
          | some _ => .pure _
          | none => pairsOutline (left.outcomesOutline limit) (right.outcomesOutline limit)
      | .mul | .div | .pow | .unspecified =>
        pairsOutline (left.outcomesOutline limit) (right.outcomesOutline limit)

/-- The look at the least outcome where the operands leave it open. -/
def leastOutline (limit : Limit.Reading) (e : Expr) (possible : Bool) :
    Outline (if possible then do
        let least ← MonadExcept.ofExcept (← e.outcomes limit).least
        Eval.ofNumber least.isNegative
      else return false) :=
  .ite (.bind (e.outcomesOutline limit) fun _ => .bind (.ofExcept _) fun _ => .ofNumber _) (.pure _)

def mayBeNegativeOutline (limit : Limit.Reading) : (e : Expr) → Outline (e.mayBeNegative limit)
  | blank _ => .throw _
  | number _ _ => .pure _
  | roll _ _ _ => .pure _
  | binary _ op left right =>
    .memoize <|
      match op with
      | .add | .mul | .div =>
        .bind (left.mayBeNegativeOutline limit) fun _ =>
          .ite (.bind (.pure _) (leastOutline limit _))
            (.bind (right.mayBeNegativeOutline limit) (leastOutline limit _))
      | .pow => .bind (left.mayBeNegativeOutline limit) (leastOutline limit _)
      | .sub | .unspecified => .bind (.pure _) (leastOutline limit _)

def bothPositiveOutline (limit : Limit.Reading) (left right : Expr) :
    Outline (bothPositive limit left right) :=
  .bind (left.outcomesOutline limit) fun _ => .bind (.ofExcept _) fun _ =>
    .bind (.ofNumber _) fun _ => .ite (.bind (right.outcomesOutline limit) fun _ =>
      .bind (.ofExcept _) fun _ => .ofNumber _) (.pure _)

/-- The look for zero in the outcomes where the operands leave it open. -/
def zeroOutline (limit : Limit.Reading) (e : Expr) (possible : Bool) :
    Outline (if possible then do return (← e.outcomes limit).hasZero else return false) :=
  .ite (.bind (e.outcomesOutline limit) fun _ => .pure _) (.pure _)

def mayBeZeroOutline (limit : Limit.Reading) : (e : Expr) → Outline (e.mayBeZero limit)
  | blank _ => .throw _
  | number _ _ => .pure _
  | roll _ count faces =>
    .bind (count.mayBeZeroOutline limit) fun _ => .ite (.pure _) (faces.mayBeZeroOutline limit)
  | binary _ op left right =>
    .memoize <|
      match op with
      | .div =>
        .bind (left.outcomesOutline limit) fun _ => .bind (.ofExcept _) fun _ =>
          .bind (right.outcomesOutline limit) fun _ => .bind (.ofExcept _) fun _ => .ofNumber _
      | .add =>
        .bind (bothPositiveOutline limit left right) fun _ => .bind (.pure _) (zeroOutline limit _)
      | .mul | .pow =>
        .bind (left.mayBeZeroOutline limit) fun _ =>
          .ite (.bind (.pure _) (zeroOutline limit _))
            (.bind (right.mayBeZeroOutline limit) (zeroOutline limit _))
      | .sub | .unspecified => .bind (.pure _) (zeroOutline limit _)

def mkRollOutline (limit : Limit.Reading) (memo : MemoName) (count faces : Expr) :
    Outline (mkRoll limit memo count faces) :=
  .bind (count.mayBeNegativeOutline limit) fun _ => .guard <|
    .bind (faces.mayBeNegativeOutline limit) fun _ => .guard (.pure _)

def mkBinaryOutline (limit : Limit.Reading) (memo : MemoName) :
    (op : Op) → (left right : Expr) → Outline (mkBinary limit memo op left right)
  | .div, left, right =>
    .bind (left.mayBeZeroOutline limit) fun _ =>
      let divisor : Outline (do
          if ← right.mayBeZero limit then throw (.check .zeroDivisor)
          return binary memo .div left right) :=
        .bind (right.mayBeZeroOutline limit) fun _ => .guard (.pure _)
      .ite (.bind (right.mayBeZeroOutline limit) fun _ => .guard divisor) divisor
  | .pow, _, right => .bind (right.mayBeNegativeOutline limit) fun _ => .guard (.pure _)
  | .add, _, _ | .sub, _, _ | .mul, _, _ | .unspecified, _, _ => .pure _

def lowOutline (limit : Limit.Reading) : (e : Expr) → Outline (e.low limit)
  | blank _ => .throw _
  | number _ _ => .pure _
  | roll _ count _ => count.lowOutline limit
  | binary memo .div left right =>
    .bind (right.lowOutline limit) fun _ => .ite
      (.bind ((binary memo .div left right).outcomesOutline limit) fun _ => .ofExcept _)
      (.bind (left.lowOutline limit) fun _ => .bind (right.lowOutline limit) fun _ => .ofExcept _)
  | binary _ .add left right | binary _ .sub left right | binary _ .mul left right
  | binary _ .pow left right | binary _ .unspecified left right =>
    .bind (left.lowOutline limit) fun _ => .bind (right.lowOutline limit) fun _ => .ofExcept _

def highOutline (limit : Limit.Reading) : (e : Expr) → Outline (e.high limit)
  | blank _ => .throw _
  | number _ _ => .pure _
  | roll _ count faces =>
    .bind (count.highOutline limit) fun _ => .bind (faces.highOutline limit) fun _ => .ofNumber _
  | binary memo .div left right =>
    .bind (right.highOutline limit) fun _ => .ite
      (.bind ((binary memo .div left right).outcomesOutline limit) fun _ => .ofExcept _)
      (.bind (left.highOutline limit) fun _ => .bind (right.highOutline limit) fun _ => .ofExcept _)
  | binary _ .add left right | binary _ .sub left right | binary _ .mul left right
  | binary _ .pow left right | binary _ .unspecified left right =>
    .bind (left.highOutline limit) fun _ => .bind (right.highOutline limit) fun _ => .ofExcept _

def medianOutline (limit : Limit.Reading) : (e : Expr) → Outline (e.median limit)
  | blank _ => .throw _
  | number _ _ => .pure _
  | roll memo count faces =>
    .bind ((roll memo count faces).lowOutline limit) fun _ =>
      .bind ((roll memo count faces).highOutline limit) fun _ =>
        .bind (.ofNumber _) fun _ => .ofNumber _
  | binary _ _ left right =>
    .bind (left.medianOutline limit) fun _ => .bind (.ofNumber _) fun _ =>
      .bind (right.medianOutline limit) fun _ => .ofExcept _

def askOutline (limit : Limit.Reading) (e : Expr) : (query : Query) → Outline (e.ask limit query)
  | .render | .label | .describe => .pure _
  | .low => .bind (e.lowOutline limit) fun _ => .pure _
  | .high => .bind (e.highOutline limit) fun _ => .pure _
  | .median => .bind (e.medianOutline limit) fun _ => .pure _
  | .outcomes => .bind (e.outcomesOutline limit) fun _ => .pure _
  | .mayBeZero => .bind (e.mayBeZeroOutline limit) fun _ => .pure _
  | .mayBeNegative => .bind (e.mayBeNegativeOutline limit) fun _ => .pure _
  | .sample _ _ => .bind (.ofExcept _) fun _ => .pure _

end Expr

def Instr.performOutline (limit : Limit.Reading) (memo : MemoName) :
    (stack : List Expr) → (instr : Instr) → Outline (instr.perform limit memo stack)
  | _, .number _ => .pure _
  | _ :: _ :: _, .roll => .bind (Expr.mkRollOutline limit memo _ _) fun _ => .pure _
  | _ :: _ :: _, .binary op => .bind (Expr.mkBinaryOutline limit memo op _ _) fun _ => .pure _
  | [], .roll | [_], .roll | [], .binary _ | [_], .binary _ => .pure _

namespace Cursor

def buildOutline (limit : Limit.Reading) (memo : MemoName) (cursor : Cursor) :
    (stack : List Expr) → (steps : List Step) → Outline (cursor.build limit memo stack steps)
  | _, [] => .pure _
  | stack, step :: steps =>
    .bind (.adapt _ (step.instr.performOutline limit memo stack)) fun stack =>
      buildOutline limit memo cursor stack steps

/-- What is left to do when a phrase has been read. -/
def stopOutline (memo : MemoName) (stop : Cursor) (stack : List Expr) :
    (cause : Option FormatCause) → Outline (match cause with
      | some cause => throw ⟨.format ⟨cause, stop.current.position⟩, stop⟩
      | none => return (stack.headD (.blank memo), stop) : EStateM Halt Store (Expr × Cursor))
  | some _ => .throw _
  | none => .pure _

def parseOutline (limit : Limit.Reading) (memo : MemoName) (cursor : Cursor) (rule : Rule) :
    Outline (cursor.parse limit memo rule) :=
  .bind (cursor.buildOutline limit memo [] _) fun stack => stopOutline memo _ stack _

end Cursor

def parseOutline (limit : Limit.Reading) (memo : MemoName) (source : String) :
    Outline (parse limit memo source) :=
  .bind (.ofExcept _) fun tokens =>
    .bind (.adapt _ (Cursor.parseOutline limit memo ⟨tokens, 0⟩ .formula)) fun _ => .pure _

end DiceFormula
