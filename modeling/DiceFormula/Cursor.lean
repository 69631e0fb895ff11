import DiceFormula.Expr.Build
import DiceFormula.Reading
import DiceFormula.Scan

namespace DiceFormula

/-- Performs an instruction. What a rule reads never takes more from the stack than it put there. -/
def Instr.perform (limit : Limit.Reading) (memo : MemoName) (stack : List Expr) :
    Instr → Eval (List Expr)
  | number value => return .number memo value :: stack
  | roll =>
    match stack with
    | faces :: count :: rest => return (← Expr.mkRoll limit memo count faces) :: rest
    | _ => return stack
  | binary op =>
    match stack with
    | right :: left :: rest => return (← Expr.mkBinary limit memo op left right) :: rest
    | _ => return stack

/-- A place in a list of tokens, counted in tokens. -/
structure Cursor where
  tokens : Tokens
  index : Nat

namespace Cursor

/-- The token a number of places ahead, which is the end of the formula from there on. -/
def ahead (cursor : Cursor) (offset : Nat) : Token :=
  (cursor.tokens.items[cursor.index + offset]?).getD ⟨.stop, cursor.tokens.length⟩

def current (cursor : Cursor) : Token := cursor.ahead 0

/-- The cursor behind the current token. It stays at the end. -/
def next (cursor : Cursor) : Cursor :=
  { cursor with index := min (cursor.index + 1) cursor.tokens.items.length }

/-- Takes a token of the expected kind. -/
def advance (cursor : Cursor) (expected : Kind) (message : String) :
    Except FormatError (Token × Cursor) :=
  let token := cursor.current
  if token.lexeme.kind = expected then .ok (token, cursor.next)
  else .error ⟨.stated message, token.position⟩

/-- The place that a number of taken tokens leads to. -/
def skip (cursor : Cursor) (taken : Nat) : Cursor :=
  { cursor with index := cursor.index + taken }

/-- A fault and the place where it stopped the reading. -/
structure Halt where
  fault : Fault
  cursor : Cursor

/-- Builds the expression of a phrase step by step, so that a fault in building comes before one in
what is read later. -/
def build (limit : Limit.Reading) (memo : MemoName) (cursor : Cursor) (stack : List Expr) :
    List Step → EStateM Halt Store (List Expr)
  | [] => return stack
  | step :: steps => do
    let halt (fault : Fault) : Halt := ⟨fault, cursor.skip step.taken⟩
    let stack ← (step.instr.perform limit memo stack).adaptExcept halt
    build limit memo cursor stack steps

/-- Reads the phrase of a rule and builds its expression. -/
def parse (limit : Limit.Reading) (memo : MemoName) (cursor : Cursor) (rule : Rule) :
    EStateM Halt Store (Expr × Cursor) := do
  let reading := rule.read (cursor.tokens.items.drop cursor.index)
  let stack ← build limit memo cursor [] reading.steps
  let stop := cursor.skip reading.taken
  match reading.cause with
  | some cause => throw ⟨.format ⟨cause, stop.current.position⟩, stop⟩
  | none => return (stack.headD (.blank memo), stop)

end Cursor

/-- The expression of a formula on a host that reads numbers of at most so many digits. -/
def parseWithin (most : Option Nat) (limit : Limit.Reading) (memo : MemoName) (source : String) :
    Eval Expr := do
  let tokens ← MonadExcept.ofExcept ((tokenizeWithin most source).mapError Refusal.fault)
  let (e, _) ← (Cursor.parse limit memo ⟨tokens, 0⟩ .formula).adaptExcept Cursor.Halt.fault
  return e

/-- The expression of a formula on a host that reads numbers of any length. -/
def parse (limit : Limit.Reading) (memo : MemoName) (source : String) : Eval Expr :=
  parseWithin none limit memo source

theorem parse_eq {limit : Limit.Reading} {memo : MemoName} {source : String} :
    parse limit memo source =
      match tokenize source with
      | .error e => throw (.format e)
      | .ok tokens => do
        let (e, _) ← (Cursor.parse limit memo ⟨tokens, 0⟩ .formula).adaptExcept Cursor.Halt.fault
        return e := by
  unfold parse parseWithin tokenize
  cases tokenizeWithin none source with
  | ok tokens => rfl
  | error refusal =>
    cases refusal with
    | character position => rfl

end DiceFormula
