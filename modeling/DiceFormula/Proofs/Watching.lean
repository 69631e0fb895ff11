import DiceFormula.Expr.Sample

namespace DiceFormula

/-- What a sample meets on its way: the count of a roll, the faces of each of its dice, the second
operand of an operator, and the bounds of a draw. -/
inductive Event
  | count (value : Number)
  | faces (value : Number)
  | operand (op : Op) (value : Number)
  | draw (low : Int) (high : Number)

/-- Sampling that writes down what it meets, the last event first. -/
abbrev Watched (σ : Type) := Sampling (σ × List Event)

def note (event : Event) : Watched σ Unit :=
  modify fun state => (state.1, event :: state.2)

/-- The same source, with the bounds of all draws written down. -/
def Roller.watched (roller : Roller σ) : Roller (σ × List Event) where
  draw low high state :=
    match roller.draw low high state.1 with
    | .ok value inner => .ok value (inner, .draw low high :: state.2)
    | .error fault inner => .error fault (inner, .draw low high :: state.2)

/-- One outcome, sampled under watch. -/
def Expr.watch (roller : Roller σ) : Expr → Watched σ Number
  | blank _ => throw (.missing .sampling)
  | number _ value => return .integer value
  | roll _ count faces => do
    let n ← count.watch roller
    note (.count n)
    match n with
    | .integer n =>
      let die := do
        let f ← faces.watch roller
        note (.faces f)
        roller.watched.single f
      Sampling.total die (.integer 0) n.toNat
    | _ => throw (.number .unsupported)
  | binary _ op left right => do
    let x ← left.watch roller
    let y ← right.watch roller
    note (.operand op y)
    MonadExcept.ofExcept (op.apply x y)

/-- What is left of a result when the events are dropped. -/
def dropEvents : EStateM.Result Fault (σ × List Event) α → EStateM.Result Fault σ α
  | .ok a state => .ok a state.1
  | .error fault state => .error fault state.1

/-- Without its events the watched work is the plain one. -/
def Erases (watched : Watched σ α) (plain : Sampling σ α) : Prop :=
  ∀ state events, dropEvents (watched (state, events)) = plain state

namespace Erases

variable {watched : Watched σ α} {plain : Sampling σ α}

theorem pure {a : α} : Erases (Pure.pure a : Watched σ α) (Pure.pure a) := fun _ _ => rfl

theorem throw {fault : Fault} : Erases (throw fault : Watched σ α) (throw fault) :=
  fun _ _ => rfl

theorem ofExcept {r : Except Fault α} :
    Erases (MonadExcept.ofExcept r : Watched σ α) (MonadExcept.ofExcept r) := by
  cases r with
  | ok a => exact pure
  | error fault => exact throw

theorem bind {next : α → Watched σ β} {plainNext : α → Sampling σ β} (h : Erases watched plain)
    (hn : ∀ a, Erases (next a) (plainNext a)) :
    Erases (watched >>= next) (plain >>= plainNext) := by
  intro state events
  have hw := h state events
  simp only [Bind.bind, EStateM.bind]
  cases hr : watched (state, events) with
  | ok a inner =>
    rw [hr] at hw
    rw [← hw]
    exact hn a inner.1 inner.2
  | error fault inner =>
    rw [hr] at hw
    rw [← hw]
    rfl

/-- A note leaves no trace but the event. -/
theorem note_bind {event : Event} (h : Erases watched plain) :
    Erases (note event >>= fun _ => watched) plain :=
  fun state events => h state (event :: events)

theorem single {roller : Roller σ} {faces : Number} :
    Erases (roller.watched.single faces) (roller.single faces) := by
  unfold Roller.single
  split
  · exact pure
  · intro state events
    simp only [Roller.watched]
    cases roller.draw 1 faces state <;> rfl

theorem total {die : Watched σ Number} {plainDie : Sampling σ Number} (h : Erases die plainDie)
    {sum : Number} {n : Nat} :
    Erases (Sampling.total die sum n) (Sampling.total plainDie sum n) := by
  induction n generalizing sum with
  | zero => exact pure
  | succ n ih => exact h.bind fun shown => ofExcept.bind fun sum => ih

end Erases

/-- Watching a sample does not change it. -/
theorem Expr.watch_erases {roller : Roller σ} {e : Expr} :
    Erases (e.watch roller) (e.sample roller) := by
  induction e with
  | blank => exact Erases.throw
  | number => exact Erases.pure
  | roll _ count faces ihc ihf =>
    refine ihc.bind fun n => Erases.note_bind ?_
    cases n with
    | integer n => exact Erases.total (ihf.bind fun f => Erases.note_bind Erases.single)
    | real | undefined | complex => exact Erases.throw
  | binary _ op left right ihl ihr =>
    exact ihl.bind fun x => ihr.bind fun y => Erases.note_bind Erases.ofExcept

end DiceFormula
