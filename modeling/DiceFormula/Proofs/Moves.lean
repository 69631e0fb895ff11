import DiceFormula.Proofs.Grammar

namespace DiceFormula

/-- Goals that need not read anything. -/
inductive Goal.GivesWay : Goal → Prop
  | rollTail : GivesWay .rollTail
  | rollEnd : GivesWay .rollEnd
  | powerTail : GivesWay .powerTail
  | productTail : GivesWay .productTail
  | sumTail : GivesWay .sumTail
  | finish : GivesWay .finish

/-- The lexeme is one that the goal reads. It is due to be built by the instructions, and further
goals take the place of this one. -/
inductive Lexeme.Fills : Lexeme → Goal → List Instr → List Goal → Prop
  | value {goal : Goal} (value : Nat) (hg : goal = .operand ∨ goal = .literal) :
      Fills (.number value) goal [.number value] []
  | signed (negative : Bool) (value : Nat) :
      Fills (.number value) (.unsigned negative) [.number (signedValue negative value)] []
  | sign {goal : Goal} (negative : Bool) (hg : goal = .operand ∨ goal = .literal) :
      Fills (.mark (.sign negative)) goal [] [.unsigned negative]
  | lparen : Fills (.mark .lparen) .operand [] (Rule.sum.goals ++ [.close])
  | rparen : Fills (.mark .rparen) .close [] []
  | die : Fills (.mark .die) .rollTail [] [.operand, .rollEnd, .build .roll]
  | caret : Fills (.mark .caret) .powerTail [] (Rule.power.goals ++ [.build (.binary .pow)])
  | scale (divides : Bool) : Fills (.mark (.scale divides)) .productTail []
      (Rule.power.goals ++ [.build (.binary (.scale divides)), .productTail])
  | plus (subtracts : Bool) : Fills (.mark (.sign subtracts)) .sumTail []
      (Rule.product.goals ++ [.build (.binary (.sign subtracts)), .sumTail])

namespace Lexeme

variable {x : Lexeme} {goal : Goal} {goals next : List Goal} {instrs : List Instr}

/-- What becomes of a lexeme at the first goal. -/
inductive Fed (x : Lexeme) (goal : Goal) (goals : List Goal) : Prop
  | built (instr : Instr) (hg : goal = .build instr)
  | passed (way : goal.GivesWay) (last : goal = .finish → x = .stop)
      (h : x.feed (goal :: goals) = x.feed goals)
  | refused (cause : FormatCause) (hc : cause ≠ .unrecognized)
      (h : x.feed (goal :: goals) = .refuse cause)
  | filled {instrs : List Instr} {front : List Goal} (fills : x.Fills goal instrs front)
      (h : x.feed (goal :: goals) = ⟨instrs, .read (front ++ goals)⟩)

theorem operand_cases (x : Lexeme) (hg : goal = .operand ∨ goal = .literal) :
    x.Fed goal goals := by
  have hsign (negative : Bool) : (Lexeme.mark (.sign negative)).Fed goal goals := by
    refine .filled (.sign negative hg) ?_
    rcases hg with rfl | rfl <;> cases negative <;> rfl
  have hvalue (value : Nat) : (Lexeme.number value).Fed goal goals := by
    refine .filled (.value value hg) ?_
    rcases hg with rfl | rfl <;> rfl
  have hrefuse (h : x.feed (goal :: goals) = .refuse .operandExpected) : x.Fed goal goals :=
    .refused .operandExpected nofun h
  cases x with
  | number value => exact hvalue value
  | mark m =>
    cases m with
    | plus => exact hsign false
    | minus => exact hsign true
    | lparen =>
      rcases hg with rfl | rfl
      · exact .filled .lparen rfl
      · exact hrefuse rfl
    | star | slash | caret | rparen | die => exact hrefuse (by rcases hg with rfl | rfl <;> rfl)
  | stop => exact hrefuse (by rcases hg with rfl | rfl <;> rfl)

theorem feed_cases (x : Lexeme) (goal : Goal) (goals : List Goal) : x.Fed goal goals := by
  cases goal with
  | build instr => exact .built instr rfl
  | operand => exact x.operand_cases (.inl rfl)
  | literal => exact x.operand_cases (.inr rfl)
  | unsigned negative =>
    cases x with
    | number value => exact .filled (.signed negative value) rfl
    | mark | stop => exact .refused .operandExpected nofun rfl
  | rollTail =>
    by_cases hx : x = .mark .die
    · subst hx
      exact .filled .die rfl
    · exact .passed .rollTail nofun (if_neg hx)
  | rollEnd =>
    by_cases hx : x = .mark .die
    · exact .refused .chained nofun (if_pos hx)
    · exact .passed .rollEnd nofun (if_neg hx)
  | powerTail =>
    by_cases hx : x = .mark .caret
    · subst hx
      exact .filled .caret rfl
    · exact .passed .powerTail nofun (if_neg hx)
  | productTail =>
    rcases x with value | ⟨_ | _ | _ | _ | _ | _ | _ | _⟩ | _
    case mark.star => exact .filled (.scale false) rfl
    case mark.slash => exact .filled (.scale true) rfl
    all_goals exact .passed .productTail nofun rfl
  | sumTail =>
    rcases x with value | ⟨_ | _ | _ | _ | _ | _ | _ | _⟩ | _
    case mark.plus => exact .filled (.plus false) rfl
    case mark.minus => exact .filled (.plus true) rfl
    all_goals exact .passed .sumTail nofun rfl
  | close =>
    by_cases hx : x = .mark .rparen
    · subst hx
      exact .filled .rparen rfl
    · exact .refused .unclosed nofun (if_neg hx)
  | finish =>
    by_cases hx : x = .stop
    · exact .passed .finish (fun _ => hx) (if_pos hx)
    · exact .refused (.trailing x.kind) nofun (if_neg hx)

/-- An instruction does not stand in the way of a lexeme. -/
theorem feed_build {instr : Instr} (h : x.feed (.build instr :: goals) = ⟨instrs, .read next⟩) :
    ∃ others, instrs = instr :: others ∧ x.feed goals = ⟨others, .read next⟩ := by
  simp only [feed, Move.mk.injEq] at h
  obtain ⟨rfl, hv⟩ := h
  exact ⟨(x.feed goals).instrs, rfl, by rw [← hv]⟩

/-- Nothing is read behind the end. -/
theorem stop_feed_ne_read (goals next : List Goal) :
    (Lexeme.stop.feed goals).verdict ≠ .read next := by
  induction goals with
  | nil => simp [feed]
  | cons goal goals ih =>
    cases stop.feed_cases goal goals with
    | built instr hg =>
      subst hg
      exact ih
    | passed _ _ h => rwa [h]
    | refused cause _ h => simp [h, Move.refuse]
    | filled fills h => cases fills

/-- One of the goals reads the lexeme. Those in front of it are done, which the end of the formula
never is. -/
def ReadAmong (x : Lexeme) (goals next : List Goal) : Prop :=
  ∃ front goal goals' instrs front', goals = front ++ goal :: goals' ∧ .finish ∉ front ∧
    x.Fills goal instrs front' ∧ next = front' ++ goals'

theorem ReadAmong.behind (hg : goal ≠ .finish) (h : x.ReadAmong goals next) :
    x.ReadAmong (goal :: goals) next := by
  obtain ⟨front, goal', goals', instrs, front', rfl, hfront, hfills, hnext⟩ := h
  refine ⟨goal :: front, goal', goals', instrs, front', rfl, ?_, hfills, hnext⟩
  simpa using ⟨hg.symm, hfront⟩

theorem readAmong_of_feed (h : (x.feed goals).verdict = .read next) : x.ReadAmong goals next := by
  induction goals with
  | nil => cases h
  | cons goal goals ih =>
    cases x.feed_cases goal goals with
    | built instr hg =>
      subst hg
      exact (ih h).behind nofun
    | passed way last hp =>
      rw [hp] at h
      refine (ih h).behind fun hfinish => ?_
      obtain rfl := last hfinish
      exact stop_feed_ne_read goals next h
    | refused cause _ hp =>
      rw [hp] at h
      cases h
    | filled fills hp =>
      rw [hp] at h
      cases h
      exact ⟨[], goal, goals, _, _, rfl, by simp, fills, rfl⟩

/-- A refusal says what is wrong with the order of the lexemes, not with a character. -/
theorem feed_refuse {cause : FormatCause} (h : (x.feed goals).verdict = .refuse cause) :
    cause ≠ .unrecognized := by
  induction goals with
  | nil => cases h
  | cons goal goals ih =>
    cases x.feed_cases goal goals with
    | built instr hg =>
      subst hg
      exact ih h
    | passed _ _ hp => exact ih (hp ▸ h)
    | refused cause' hc hp =>
      rw [hp] at h
      cases h
      exact hc
    | filled fills hp =>
      rw [hp] at h
      cases h

/-- Only the end of the lexemes ends a formula. -/
theorem feed_done (hf : .finish ∈ goals) (h : (x.feed goals).verdict = .done) : x = .stop := by
  induction goals with
  | nil => cases hf
  | cons goal goals ih =>
    cases x.feed_cases goal goals with
    | built instr hg =>
      subst hg
      exact ih (by simpa using hf) h
    | passed way last hp =>
      by_cases hg : goal = .finish
      · exact last hg
      · exact ih (by simpa [Ne.symm hg] using hf) (hp ▸ h)
    | refused cause _ hp =>
      rw [hp] at h
      cases h
    | filled fills hp =>
      rw [hp] at h
      cases h

end Lexeme

namespace Goal

/-- A goal that an operand starts with. -/
def StartsOperand : Goal → Prop
  | operand | literal | unsigned _ => True
  | _ => False

/-- All goals are met behind an operand. -/
def Behind (goals : List Goal) : Prop := ∀ goal ∈ goals, ¬ goal.StartsOperand

/-- An operand is awaited first of all or not before something else is read. -/
def Ordered (goals : List Goal) : Prop := Behind goals.tail

theorem Ordered.first {front goals : List Goal} {goal : Goal}
    (ho : Ordered (front ++ goal :: goals)) (hg : goal.StartsOperand) : front = [] := by
  cases front with
  | nil => rfl
  | cons => exact absurd hg (ho goal (by simp))

end Goal

namespace Lexeme

variable {x : Lexeme} {goals next : List Goal}

/-- The end of the formula is awaited until it is met. -/
theorem finish_mem_of_feed (hf : .finish ∈ goals) (h : (x.feed goals).verdict = .read next) :
    .finish ∈ next := by
  obtain ⟨front, goal, goals', _, front', rfl, hfront, hfills, rfl⟩ := readAmong_of_feed h
  have hg : goal ≠ .finish := by
    rintro rfl
    cases hfills with
    | value _ hg | sign _ hg => simp at hg
  simp only [List.mem_append, List.mem_cons] at hf ⊢
  rcases hf with hf | hf | hf
  · exact absurd hf hfront
  · exact absurd hf.symm hg
  · exact .inr hf

theorem ordered_of_feed (ho : Goal.Ordered goals) (h : (x.feed goals).verdict = .read next) :
    Goal.Ordered next := by
  obtain ⟨front, goal, goals', _, front', rfl, -, hfills, rfl⟩ := readAmong_of_feed h
  have hbehind : Goal.Behind goals' := by
    intro g hg
    cases front with
    | nil => exact ho g hg
    | cons => exact ho g (by simp [hg])
  have htail {a : Goal} {tail : List Goal} (ht : Goal.Behind tail) :
      Goal.Ordered (a :: tail ++ goals') := by
    intro g hg
    rcases List.mem_append.mp hg with hg | hg
    · exact ht g hg
    · exact hbehind g hg
  cases hfills with
  | value | signed | rparen => exact fun g hg => hbehind g (List.mem_of_mem_tail hg)
  | sign => exact htail (by simp [Goal.Behind])
  | lparen | die | caret | scale | plus =>
    exact htail (by simp [Goal.Behind, Goal.StartsOperand])

/-- A number is awaited behind a sign only, and where the sign stands it could stand as well. -/
theorem sign_of_feed {negative : Bool} {rest : List Goal} (ho : Goal.Ordered goals)
    (h : (x.feed goals).verdict = .read (.unsigned negative :: rest)) :
    x = .mark (.sign negative) ∧
      ∀ value, (Lexeme.number value).feed goals = ⟨[.number value], .read rest⟩ := by
  obtain ⟨front, goal, goals', _, front', rfl, -, hfills, hnext⟩ := readAmong_of_feed h
  cases hfills with
  | value | signed | rparen =>
    subst hnext
    exact absurd trivial (ho (.unsigned negative) (by cases front <;> simp))
  | sign _ hg =>
    cases hnext
    obtain rfl : front = [] := ho.first (by rcases hg with rfl | rfl <;> trivial)
    refine ⟨rfl, fun value => ?_⟩
    rcases hg with rfl | rfl <;> rfl
  | lparen | die | caret | scale | plus => cases hnext

/-- A sign where a number could stand belongs to a number. -/
theorem feed_sign {value : Nat} {negative : Bool} {others : List Goal} (ho : Goal.Ordered goals)
    (hv : ((Lexeme.number value).feed goals).verdict = .read others)
    (h : ((Lexeme.mark (.sign negative)).feed goals).verdict = .read next) :
    next = .unsigned negative :: others := by
  obtain ⟨front, goal, goals', _, front', rfl, -, hfills, rfl⟩ := readAmong_of_feed hv
  cases hfills with
  | value _ hg =>
    obtain rfl : front = [] := ho.first (by rcases hg with rfl | rfl <;> trivial)
    rcases hg with rfl | rfl <;> cases negative <;> cases h <;> rfl
  | signed =>
    obtain rfl : front = [] := ho.first trivial
    cases negative <;> cases h

end Lexeme

end DiceFormula
