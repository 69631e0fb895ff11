import DiceFormula.Expr
import DiceFormula.Support

namespace DiceFormula

/-- What is remembered of an expression: its outcomes, whether zero is one, and whether a negative
number is one. -/
inductive Aspect
  | outcomes
  | zero
  | negative
  deriving DecidableEq

@[reducible]
def Aspect.Answer : Aspect → Type
  | outcomes => Support
  | zero => Bool
  | negative => Bool

/-- The answers worked out so far, by the text of the expression. The newest stands first. -/
structure Memo where
  outcomes : List (String × Support) := []
  zero : List (String × Bool) := []
  negative : List (String × Bool) := []

namespace Memo

def entries (memo : Memo) : (aspect : Aspect) → List (String × aspect.Answer)
  | .outcomes => memo.outcomes
  | .zero => memo.zero
  | .negative => memo.negative

def find? (memo : Memo) (aspect : Aspect) (key : String) : Option aspect.Answer :=
  (memo.entries aspect).lookup key

def insert (memo : Memo) (key : String) : (aspect : Aspect) → aspect.Answer → Memo
  | .outcomes, answer => { memo with outcomes := (key, answer) :: memo.outcomes }
  | .zero, answer => { memo with zero := (key, answer) :: memo.zero }
  | .negative, answer => { memo with negative := (key, answer) :: memo.negative }

/-- An answer that is there already stays. -/
def keep (memo : Memo) (aspect : Aspect) (key : String) (answer : aspect.Answer) :
    aspect.Answer × Memo :=
  match memo.find? aspect key with
  | some first => (first, memo)
  | none => (answer, memo.insert key aspect answer)

end Memo

/-- The memos by name. A memo that was never written to is empty. -/
structure Store where
  memos : List (MemoName × Memo) := []

namespace Store

def memo (store : Store) (name : MemoName) : Memo := (store.memos.lookup name).getD {}

def set (store : Store) (name : MemoName) (memo : Memo) : Store :=
  ⟨(name, memo) :: store.memos.filter fun entry => entry.1 != name⟩

def keep (store : Store) (name : MemoName) (aspect : Aspect) (key : String)
    (answer : aspect.Answer) : aspect.Answer × Store :=
  let (kept, memo) := (store.memo name).keep aspect key answer
  (kept, store.set name memo)

end Store

/-- Work that reads and fills memos. What it kept stays when it fails. -/
abbrev Eval := EStateM Fault Store

/-- The remembered answer. Without one it is worked out and kept, unless the work has kept one
itself. -/
def memoize (name : MemoName) (aspect : Aspect) (key : String) (work : Eval aspect.Answer) :
    Eval aspect.Answer := do
  match ((← get).memo name).find? aspect key with
  | some answer => return answer
  | none =>
    let answer ← work
    modifyGet fun store => store.keep name aspect key answer

end DiceFormula
