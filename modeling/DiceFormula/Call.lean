import DiceFormula.Cursor

namespace DiceFormula.Cursor

/-- What a cursor can be asked for: the token where it stands, that token with a move behind it, a
token further on, a token of an expected kind, or the expression of a rule. -/
inductive Call
  | current
  | next
  | peek (offset : Nat)
  | advance (expected : Kind) (message : String)
  | rule (rule : Rule)

inductive Find
  | token (token : Token)
  | expr (e : Expr)

/-- What a call gives, where it leaves the cursor, and the memos behind it. -/
structure Called where
  result : Except Fault Find
  cursor : Cursor
  store : Store

/-- A failed call leaves the cursor where it stopped. -/
def call (limit : Limit.Reading) (memo : MemoName) (store : Store) (cursor : Cursor) :
    Call → Called
  | .current => ⟨.ok (.token cursor.current), cursor, store⟩
  | .next => ⟨.ok (.token cursor.current), cursor.next, store⟩
  | .peek offset => ⟨.ok (.token (cursor.ahead offset)), cursor, store⟩
  | .advance expected message =>
    match cursor.advance expected message with
    | .ok (token, next) => ⟨.ok (.token token), next, store⟩
    | .error e => ⟨.error (.format e), cursor, store⟩
  | .rule rule =>
    match cursor.parse limit memo rule store with
    | .ok (e, next) later => ⟨.ok (.expr e), next, later⟩
    | .error halt later => ⟨.error halt.fault, halt.cursor, later⟩

end DiceFormula.Cursor
