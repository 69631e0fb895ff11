import DiceFormula.Query

namespace DiceFormula

/-- One roll of a formula. -/
def roll (script : Script) (source : String) : Except Fault Rolled :=
  match (parse (.ok none) "" source).run {} with
  | .ok e _ => e.rolls script 1
  | .error fault _ => .error fault

/-- An expression to be built from named operands. -/
inductive Shape
  | blank
  | number (value : Int)
  | roll (count faces : String)
  | binary (op : Op) (left right : String)

/-- An operand of an expression. -/
inductive Part
  | left
  | right
  | base
  | exponent
  | count
  | faces

/-- The operand of an expression that has one of this kind. A power calls its operands base and
exponent too. -/
def Expr.part? : Expr → Part → Option Expr
  | binary _ _ e _, .left | binary _ _ _ e, .right => some e
  | binary _ .pow e _, .base | binary _ .pow _ e, .exponent => some e
  | roll _ e _, .count | roll _ _ e, .faces => some e
  | _, _ => none

/-- Expressions by name, the memos, and the limit in force. -/
structure Session where
  names : List (String × Expr) := []
  store : Store := {}
  limit : Limit.Reading := .ok none

/-- What can be done in a session. -/
inductive Action
  | parse (name : String) (memo : MemoName) (source : String)
  | build (name : String) (memo : MemoName) (shape : Shape)
  | part (name whole : String) (part : Part)
  | ask (name : String) (query : Query)
  | memoOf (name : String)
  | setLimit (value : Option String)
  | clear (memo : MemoName)
  | dump (memo : MemoName)
  | memoize (memo : MemoName) (aspect : Aspect) (key : String) (value : aspect.Answer)
      (inner : Option aspect.Answer) (failure : Option Fault)

inductive Report
  | nothing
  | text (text : String)
  | answer (result : Except Fault Answer)
  | memo (memo : Memo)
  | memoized (aspect : Aspect) (value : aspect.Answer) (computed : Bool)

namespace Session

/-- Work in a session. What it changed stays when it fails. -/
abbrev Work := EStateM Fault Session

/-- Evaluation on the memos of the session. -/
def eval (work : Eval α) : Work α := fun session =>
  match work session.store with
  | .ok value store => .ok value { session with store }
  | .error fault store => .error fault { session with store }

def find (name : String) : Work Expr := do
  match (← get).names.lookup name with
  | some e => return e
  | none => throw (.given ("No expression is named " ++ name ++ "."))

/-- Names an expression and reports its text. -/
def bind (name : String) (e : Expr) : Work Report := do
  modify fun session => { session with names := (name, e) :: session.names }
  return .text e.render

/-- A computation for a memo: it may first memoize the same key with a value of its own, then fails
or gives its value. -/
def planted (memo : MemoName) (aspect : Aspect) (key : String) (value : aspect.Answer)
    (inner : Option aspect.Answer) (failure : Option Fault) : Eval aspect.Answer := do
  if let some first := inner then
    let _ ← DiceFormula.memoize memo aspect key (pure first)
  match failure with
  | some fault => throw fault
  | none => return value

def perform : Action → Work Report
  | .parse name memo source => do
    bind name (← eval (DiceFormula.parse (← get).limit memo source))
  | .build name memo shape => do
    let limit := (← get).limit
    match shape with
    | .blank => bind name (.blank memo)
    | .number value => bind name (.number memo value)
    | .roll count faces =>
      let count ← find count
      let faces ← find faces
      bind name (← eval (Expr.mkRoll limit memo count faces))
    | .binary op left right =>
      let left ← find left
      let right ← find right
      bind name (← eval (Expr.mkBinary limit memo op left right))
  | .part name whole part => do
    match (← find whole).part? part with
    | some e => bind name e
    | none => throw (.given ("The expression named " ++ whole ++ " has no such part."))
  | .ask name query => do
    let e ← find name
    fun session =>
      match e.ask session.limit query session.store with
      | .ok answer store => .ok (.answer (.ok answer)) { session with store }
      | .error fault store => .ok (.answer (.error fault)) { session with store }
  | .memoOf name => return .text (← find name).memo
  | .setLimit value => do
    modify fun session => { session with limit := Limit.read value }
    return .nothing
  | .clear memo => do
    modify fun session => { session with store := session.store.set memo {} }
    return .nothing
  | .dump memo => return .memo ((← get).store.memo memo)
  | .memoize memo aspect key value inner failure => do
    let known := ((← get).store.memo memo).find? aspect key
    let value ← eval (DiceFormula.memoize memo aspect key
      (planted memo aspect key value inner failure))
    return .memoized aspect value known.isNone

/-- Performs an action and hands on the session, whether or not the action failed. -/
def step (session : Session) (action : Action) : Except Fault Report × Session :=
  match perform action session with
  | .ok report session => (.ok report, session)
  | .error fault session => (.error fault, session)

/-- The reports of actions in order, each with the session behind it. -/
def run (session : Session) : List Action → List (Except Fault Report × Session)
  | [] => []
  | action :: actions =>
    let (report, session) := session.step action
    (report, session) :: session.run actions

end Session

end DiceFormula
