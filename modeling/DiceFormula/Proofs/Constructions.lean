import DiceFormula.Cursor
import DiceFormula.Proofs.Contract
import DiceFormula.Proofs.Recognition

namespace DiceFormula

/-- The rolls and operations of the expression, from left to right and operands before the whole. -/
def Expr.compounds : Expr → List Expr
  | blank _ | number _ _ => []
  | roll memo count faces => count.compounds ++ faces.compounds ++ [roll memo count faces]
  | binary memo op left right => left.compounds ++ right.compounds ++ [binary memo op left right]

theorem Derivation.map_fst_compounds {rule : Rule} (d : Derivation rule) (memo : MemoName)
    (start : Nat) : (d.compounds memo start).map Prod.fst = (d.expr memo).compounds := by
  induction d generalizing start with
  | unsigned | signed => rfl
  | literal d ih | single d ih | bare d ih | factor d ih | term d ih | whole d ih => exact ih start
  | parens d ih => exact ih (start + 1)
  | dice _ _ hl hr | raised _ _ hl hr | times _ _ _ hl hr | plus _ _ _ hl hr =>
    simp [Derivation.compounds, Expr.compounds, Derivation.expr, hl, hr]

/-- The steps take the first stack to the last one when no operand is refused. The rolls and
operations that they make are listed in order, each with the number of lexemes up to its end. -/
inductive Builds (memo : MemoName) :
    List Expr → List Step → List (Expr × Nat) → List Expr → Prop
  | none (stack : List Expr) : Builds memo stack [] [] stack
  | number {stack last : List Expr} {steps : List Step} {made : List (Expr × Nat)} (value : Int)
      (taken : Nat) (rest : Builds memo (.number memo value :: stack) steps made last) :
      Builds memo stack (⟨.number value, taken⟩ :: steps) made last
  | roll {stack last : List Expr} {steps : List Step} {made : List (Expr × Nat)}
      (count faces : Expr) (taken : Nat)
      (rest : Builds memo (.roll memo count faces :: stack) steps made last) :
      Builds memo (faces :: count :: stack) (⟨.roll, taken⟩ :: steps)
        ((.roll memo count faces, taken) :: made) last
  | binary {stack last : List Expr} {steps : List Step} {made : List (Expr × Nat)} {op : Op}
      (meaning : op ≠ .unspecified) (left right : Expr) (taken : Nat)
      (rest : Builds memo (.binary memo op left right :: stack) steps made last) :
      Builds memo (right :: left :: stack) (⟨.binary op, taken⟩ :: steps)
        ((.binary memo op left right, taken) :: made) last

namespace Builds

variable {memo : MemoName} {stack last : List Expr} {steps : List Step}
  {made : List (Expr × Nat)}

/-- The steps of a phrase put its expression on the stack. -/
theorem derivation {rule : Rule} (d : Derivation rule) (start : Nat)
    (h : Builds memo (d.expr memo :: stack) steps made last) :
    Builds memo stack (d.steps start ++ steps) (d.compounds memo start ++ made) last := by
  induction d generalizing stack steps made start with
  | unsigned value => exact .number value start h
  | signed negative value => exact .number _ (start + 1) h
  | literal d ih | single d ih | bare d ih | factor d ih | term d ih | whole d ih =>
    exact ih start h
  | parens d ih => exact ih (start + 1) h
  | dice count faces ihc ihf =>
    simp only [Derivation.steps, Derivation.compounds, List.append_assoc]
    exact ihc start (ihf _ (.roll _ _ _ h))
  | raised base exponent ihb ihe =>
    simp only [Derivation.steps, Derivation.compounds, List.append_assoc]
    exact ihb start (ihe _ (.binary (by decide) _ _ _ h))
  | times divides left right ihl ihr =>
    simp only [Derivation.steps, Derivation.compounds, List.append_assoc]
    exact ihl start (ihr _ (.binary (Op.scale_ne_unspecified divides) _ _ _ h))
  | plus subtracts left right ihl ihr =>
    simp only [Derivation.steps, Derivation.compounds, List.append_assoc]
    exact ihl start (ihr _ (.binary (Op.sign_ne_unspecified subtracts) _ _ _ h))

/-- The steps of a phrase alone. -/
theorem phrase {rule : Rule} (d : Derivation rule) (start : Nat) :
    Builds memo [] (d.steps start) (d.compounds memo start) [d.expr memo] := by
  simpa using derivation d start (.none [d.expr memo])

/-- The first steps make the first ones of what all make. -/
theorem of_append {later : List Step} (h : Builds memo stack (steps ++ later) made last) :
    ∃ mid front behind, Builds memo stack steps front mid ∧ made = front ++ behind := by
  induction steps generalizing stack made with
  | nil => exact ⟨stack, [], made, .none stack, rfl⟩
  | cons step steps ih =>
    cases h with
    | number value taken rest =>
      obtain ⟨mid, front, behind, hfront, rfl⟩ := ih rest
      exact ⟨mid, front, behind, .number value taken hfront, rfl⟩
    | roll count faces taken rest =>
      obtain ⟨mid, front, behind, hfront, rfl⟩ := ih rest
      exact ⟨mid, _ :: front, behind, .roll count faces taken hfront, rfl⟩
    | binary meaning left right taken rest =>
      obtain ⟨mid, front, behind, hfront, rfl⟩ := ih rest
      exact ⟨mid, _ :: front, behind, .binary meaning left right taken hfront, rfl⟩

/-- Where a part ends is where a step makes it. -/
theorem made_at_step (h : Builds memo stack steps made last) :
    ∀ part ∈ made, ∃ step ∈ steps, part.2 = step.taken := by
  have hlater {step : Step} {steps : List Step} {part : Expr × Nat}
      (h : ∃ later ∈ steps, part.2 = later.taken) :
      ∃ later ∈ step :: steps, part.2 = later.taken := by
    obtain ⟨later, hmem, heq⟩ := h
    exact ⟨later, .tail _ hmem, heq⟩
  induction h with
  | none => simp
  | number value taken rest ih => exact fun part hpart => hlater (ih part hpart)
  | roll _ _ taken rest ih | binary _ _ _ taken rest ih =>
    exact List.forall_mem_cons.mpr
      ⟨⟨_, .head _, rfl⟩, fun part hpart => hlater (ih part hpart)⟩

end Builds

/-- From good operands, in states with `inv`, rolls and operations are good or refused as `bad`
says. -/
structure Constructs (limit : Limit.Reading) (memo : MemoName) (inv : Store → Prop)
    (good : Expr → Prop) (bad : Expr → Fault → Prop) : Prop where
  number : ∀ value, good (.number memo value)
  roll : ∀ count faces, good count → good faces →
    Meets inv (Expr.mkRoll limit memo count faces)
      (fun e => e = .roll memo count faces ∧ good e) (bad (.roll memo count faces))
  binary : ∀ op left right, op ≠ .unspecified → good left → good right →
    Meets inv (Expr.mkBinary limit memo op left right)
      (fun e => e = .binary memo op left right ∧ good e) (bad (.binary memo op left right))

/-- One of the parts is refused. Those in front of it are good. -/
def RefusedFirst (made : List (Expr × Nat)) (good : Expr → Prop) (bad : Expr → Fault → Prop)
    (cursor : Cursor) (halt : Cursor.Halt) : Prop :=
  ∃ front e stop behind, made = front ++ (e, stop) :: behind ∧ (∀ part ∈ front, good part.1) ∧
    bad e halt.fault ∧ halt.cursor = cursor.skip stop

section Build

variable {limit : Limit.Reading} {memo : MemoName} {inv : Store → Prop} {good : Expr → Prop}
  {bad : Expr → Fault → Prop} {cursor : Cursor} {stack last : List Expr} {steps : List Step}
  {made : List (Expr × Nat)}

theorem RefusedFirst.cons {e : Expr} {stop : Nat} {halt : Cursor.Halt} (he : good e)
    (h : RefusedFirst made good bad cursor halt) :
    RefusedFirst ((e, stop) :: made) good bad cursor halt := by
  obtain ⟨front, e', stop', behind, rfl, hfront, hbad, hcursor⟩ := h
  exact ⟨(e, stop) :: front, e', stop', behind, rfl, List.forall_mem_cons.mpr ⟨he, hfront⟩, hbad,
    hcursor⟩

/-- The work of a step puts an expression on the stack, and the steps behind it go on from there. -/
theorem Meets.build_step {rest : List Expr} {step : Step} {work : Eval Expr} {mid : Expr → Prop}
    {post : List Expr → Prop} {fail : Cursor.Halt → Prop}
    (hp : step.instr.perform limit memo stack = do return (← work) :: rest)
    (hw : Meets inv work mid fun fault => fail ⟨fault, cursor.skip step.taken⟩)
    (hn : ∀ e, mid e → Meets inv (Cursor.build limit memo cursor (e :: rest) steps) post fail) :
    Meets inv (Cursor.build limit memo cursor stack (step :: steps)) post fail := by
  have hfirst : Meets inv (step.instr.perform limit memo stack) (fun r => ∃ e, r = e :: rest ∧ mid e)
      fun fault => fail ⟨fault, cursor.skip step.taken⟩ := by
    rw [hp]
    exact Meets.bind hw fun e he => Meets.pure ⟨e, rfl, he⟩
  refine Meets.bind (Meets.adaptExcept hfirst) fun r hr => ?_
  obtain ⟨e, rfl, he⟩ := hr
  exact hn e he

/-- A roll or operation that is made, and the steps behind it. -/
theorem Meets.build_next {e : Expr} {rest : List Expr} {step : Step} {work : Eval Expr}
    (hw : Meets inv work (fun r => r = e ∧ good r) (bad e))
    (hn : good e → Meets inv (Cursor.build limit memo cursor (e :: rest) steps)
      (fun r => r = last ∧ ∀ part ∈ made, good part.1) (RefusedFirst made good bad cursor))
    (hp : step.instr.perform limit memo stack = do return (← work) :: rest) :
    Meets inv (Cursor.build limit memo cursor stack (step :: steps))
      (fun r => r = last ∧ ∀ part ∈ (e, step.taken) :: made, good part.1)
      (RefusedFirst ((e, step.taken) :: made) good bad cursor) := by
  refine Meets.build_step hp (hw.widen fun fault hbad => ?_) fun r hr => ?_
  · exact ⟨[], e, step.taken, made, rfl, by simp, hbad, rfl⟩
  · obtain ⟨rfl, hgood⟩ := hr
    refine (hn hgood).mono (fun r hr => ?_) fun halt => .cons hgood
    obtain ⟨rfl, hmade⟩ := hr
    exact ⟨rfl, List.forall_mem_cons.mpr ⟨hgood, hmade⟩⟩

/-- Building ends with the stack that the steps lead to, or with the first part that is refused. -/
theorem Builds.meets (hc : Constructs limit memo inv good bad)
    (h : Builds memo stack steps made last) (hs : ∀ e ∈ stack, good e) :
    Meets inv (Cursor.build limit memo cursor stack steps)
      (fun r => r = last ∧ ∀ part ∈ made, good part.1) (RefusedFirst made good bad cursor) := by
  induction h with
  | none => exact Meets.pure ⟨rfl, by simp⟩
  | number value taken rest ih =>
    exact ih (by simpa using ⟨hc.number value, hs⟩)
  | roll count faces taken rest ih =>
    simp only [List.forall_mem_cons] at hs
    obtain ⟨hf, hcount, hrest⟩ := hs
    refine Meets.build_next (hc.roll count faces hcount hf) (fun he => ih ?_) rfl
    exact List.forall_mem_cons.mpr ⟨he, hrest⟩
  | binary meaning left right taken rest ih =>
    simp only [List.forall_mem_cons] at hs
    obtain ⟨hr, hl, hrest⟩ := hs
    refine Meets.build_next (hc.binary _ left right meaning hl hr) (fun he => ih ?_) rfl
    exact List.forall_mem_cons.mpr ⟨he, hrest⟩

end Build

end DiceFormula
