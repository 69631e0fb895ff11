import DiceFormula.Fault
import DiceFormula.Number

namespace DiceFormula

/-- Work that draws dice from a source, which it may change. -/
abbrev Sampling (σ : Type) := EStateM Fault σ

/-- A source of dice. A draw between two bounds may depend on, and changes, what the source
remembers. -/
structure Roller (σ : Type) where
  draw : (low : Int) → (high : Number) → Sampling σ Number

namespace Roller

/-- The same source, with the bounds of all draws written down, the last one first. -/
def logged (roller : Roller σ) : Roller (σ × List (Int × Number)) where
  draw low high state :=
    match roller.draw low high state.1 with
    | .ok value inner => .ok value (inner, (low, high) :: state.2)
    | .error fault inner => .error fault (inner, (low, high) :: state.2)

end Roller

/-- A roller that follows a rule: always the lower or the upper bound, given values in turn, values
of a linear congruential generator, or the one value that the bounds leave. -/
inductive Script
  | low
  | high
  | cycle (values : List Int)
  | congruential (seed : Int)
  | forced

namespace Script

/-- The number of draws so far, and the word of the generator. -/
structure State where
  draws : Nat
  word : UInt64

def start : Script → State
  | congruential seed => ⟨0, UInt64.ofInt seed⟩
  | _ => ⟨0, 0⟩

def advance (word : UInt64) : UInt64 := word * 6364136223846793005 + 1442695040888963407

/-- The value brought between the bounds by its remainder. -/
def wrap (low : Int) (high : Number) (value : Int) : Except Number.Fault Number := do
  let span ← (← high.sub (.integer low)).add (.integer 1)
  let rest ← (Number.integer value).floorMod span
  (Number.integer low).add rest

/-- The one value between the bounds, where the place behind the upper one must be an integer. -/
def sole (low : Int) (high : Number) : Except Fault Number := do
  match ← (high.add (.integer 1)).mapError .number with
  | .integer stop => between stop
  | .real x =>
    if x.isInf then throw (.number .overflow)
    else (Double.toInt? x).elim (throw .noOutcome) between
  | .undefined _ => throw .noOutcome
  | .complex _ => throw (.number .unsupported)
where
  between (stop : Int) : Except Fault Number :=
    if low < stop then .ok (.integer low) else .error .noOutcome

/-- What the rule answers to a draw. -/
def answer (script : Script) (state : State) (low : Int) (high : Number) : Except Fault Number :=
  match script with
  | .low => .ok (.integer low)
  | .high => .ok high
  | .cycle values =>
    (wrap low high ((values[state.draws % values.length]?).getD 0)).mapError .number
  | .congruential _ => (wrap low high (advance state.word >>> 33).toNat).mapError .number
  | .forced => sole low high

def roller (script : Script) : Roller State where
  draw low high := do
    let value ← MonadExcept.ofExcept (script.answer (← get) low high)
    modify fun state => ⟨state.draws + 1, advance state.word⟩
    return value

end Script

end DiceFormula
