import DiceFormula.Diagnostic
import DiceFormula.Proofs.Calls
import Mathlib.Data.List.Forall2
import Mathlib.Data.List.TakeWhile

namespace DiceFormula

/-- What keeps the column of a character on the line below. -/
def Aligned (c below : Char) : Prop := c = '\t' ∧ below = '\t' ∨ c ≠ '\t' ∧ below = ' '

/-- The line of a text around a place, cut there, and what stands in front of and behind it. -/
structure LineAt (cs : List Char) (place : Nat) (front before after behind : List Char) : Prop where
  text : cs = front ++ (before ++ (after ++ behind))
  here : place = front.length + before.length
  unbroken : '\n' ∉ before ++ after
  starts : front = [] ∨ ∃ above, front = above ++ ['\n']
  stops : behind = [] ∨ ∃ below, behind = '\n' :: below

/-- The text is the source with one line more, directly below the line of the place. It ends with a
pointer, and what stands before that keeps the columns. -/
def PointsAt (text source : List Char) (place : Nat) : Prop :=
  ∃ front before after behind padding, LineAt source place front before after behind ∧
    List.Forall₂ Aligned before padding ∧
    text = front ++ (before ++ (after ++ ('\n' :: padding ++ '^' :: behind)))

theorem aligned_iff {c below : Char} : Aligned c below ↔ below = underlay c := by
  simp only [Aligned, underlay]
  split <;> simp_all

theorem forall₂_aligned {cs padding : List Char} :
    List.Forall₂ Aligned cs padding ↔ padding = cs.map underlay := by
  induction cs generalizing padding with
  | nil => simp
  | cons c cs ih =>
    cases padding with
    | nil => simp
    | cons below padding => simp [aligned_iff, ih]

theorem newline_not_mem_underlay (cs : List Char) : '\n' ∉ cs.map underlay := by
  intro h
  obtain ⟨c, -, hc⟩ := List.mem_map.mp h
  simp only [underlay] at hc
  split at hc <;> cases hc

/-- What can be swapped with a text that has its first character nowhere else repeats the text. -/
theorem exists_replicate_of_swap {α : Type} {x : α} {tail : List α} (hx : x ∉ tail) (cs : List α)
    (h : cs ++ x :: tail = x :: tail ++ cs) : ∃ n, cs = (List.replicate n (x :: tail)).flatten := by
  rcases List.append_eq_append_iff.mp h with ⟨rest, hbehind, hfront⟩ | ⟨rest, hfront, hbehind⟩
  · cases cs with
    | nil => exact ⟨0, rfl⟩
    | cons y cs =>
      cases rest with
      | nil => exact ⟨1, by simpa using hbehind.symm⟩
      | cons z rest =>
        -- The longer text begins with both parts, so that its first character stands in its tail.
        obtain ⟨rfl, -⟩ := List.cons.inj hbehind
        obtain ⟨-, rfl⟩ := List.cons.inj hfront
        exact absurd (by simp) hx
  · have hshorter : rest.length < cs.length := by
      rw [hfront, List.length_append, List.length_cons]
      omega
    obtain ⟨n, hn⟩ := exists_replicate_of_swap hx rest (hbehind.symm.trans hfront)
    refine ⟨n + 1, ?_⟩
    rw [hfront, List.replicate_succ, List.flatten_cons, ← hn]
termination_by cs.length

/-- The line with the pointer for what stands before the place on its line. -/
def pointerLine (before : List Char) : List Char := '\n' :: (before.map underlay ++ ['^'])

theorem pointAt_eq (source : String) (place : Nat) :
    (pointAt source place).toList = source.toList ++ pointerLine (source.toList.take place) := by
  simp [pointAt, pointerLine]

/-- The text from the end of the line of a place on. -/
def fromLineEnd (source : List Char) (place : Nat) : List Char :=
  (source.drop place).dropWhile fun c => c != '\n'

section

variable {source : List Char} {place : Nat}

theorem LineAt.cut {front before after behind : List Char}
    (h : LineAt source place front before after behind) :
    source.take place = front ++ before ∧ fromLineEnd source place = behind := by
  obtain ⟨rfl, rfl, hunbroken, -, hstops⟩ := h
  have hlength : front.length + before.length = (front ++ before).length := by simp
  rw [fromLineEnd, ← List.append_assoc, hlength]
  refine ⟨List.take_left, ?_⟩
  rw [List.drop_left, List.dropWhile_append_of_pos]
  · rcases hstops with rfl | ⟨below, rfl⟩ <;> rfl
  · intro c hc
    have hne : c ≠ '\n' := fun h => hunbroken (List.mem_append_right _ (h ▸ hc))
    simpa using hne

/-- Below the first line, the pointer has to change places with the lines that follow. -/
theorem LineAt.below_iff {before after behind : List Char}
    (h : LineAt source place [] before after behind) :
    source ++ pointerLine before =
        [] ++ (before ++ (after ++ ('\n' :: before.map underlay ++ '^' :: behind))) ↔
      behind ++ pointerLine before = pointerLine before ++ behind := by
  rw [h.text]
  simp [pointerLine]

theorem lineAt_of_unbroken (hp : place ≤ source.length) (h : '\n' ∉ source.take place) :
    LineAt source place [] (source.take place) ((source.drop place).takeWhile fun c => c != '\n')
      (fromLineEnd source place) := by
  refine ⟨?_, by simp [Nat.min_eq_left hp], ?_, .inl rfl, ?_⟩
  · rw [fromLineEnd, List.takeWhile_append_dropWhile]
    exact (List.take_append_drop place source).symm
  · intro hmem
    rcases List.mem_append.mp hmem with hmem | hmem
    · exact h hmem
    · simpa using List.mem_takeWhile_imp hmem
  · rw [fromLineEnd]
    cases hrest : (source.drop place).dropWhile fun c => c != '\n' with
    | nil => exact .inl rfl
    | cons c below =>
      have hc := List.head?_dropWhile_not (fun c => c != '\n') (source.drop place)
      rw [hrest] at hc
      have hc : c = '\n' := by simpa using hc
      exact .inr ⟨below, by rw [hc]⟩

/-- A pointer behind the whole source stands below the line of the place only where no line is
before that one, and the lines behind it look like the line of the pointer. -/
theorem pointsAt_iff (hp : place ≤ source.length) :
    PointsAt (source ++ pointerLine (source.take place)) source place ↔
      '\n' ∉ source.take place ∧
        ∃ n, fromLineEnd source place =
          (List.replicate n (pointerLine (source.take place))).flatten := by
  constructor
  · rintro ⟨front, before, after, behind, padding, hline, haligned, htext⟩
    obtain ⟨htake, hbehind⟩ := hline.cut
    rw [forall₂_aligned] at haligned
    -- The padding is as long as all of the source before the place, so that all of it is one line.
    have hlength := congrArg List.length htext
    have hfront : front = [] := by
      have hsource := congrArg List.length hline.text
      apply List.eq_nil_of_length_eq_zero
      simp only [pointerLine, htake, haligned, List.length_append, List.length_cons,
        List.length_map, List.length_nil] at hlength hsource
      omega
    subst hfront
    rw [List.nil_append] at htake
    have hunbroken : '\n' ∉ before := fun h => hline.unbroken (List.mem_append_left _ h)
    rw [htake, haligned, hline.below_iff] at htext
    rw [htake, hbehind]
    exact ⟨hunbroken, exists_replicate_of_swap (by simp [newline_not_mem_underlay]) _ htext⟩
  · rintro ⟨hunbroken, n, hn⟩
    have hline := lineAt_of_unbroken hp hunbroken
    refine ⟨_, _, _, _, _, hline, forall₂_aligned.mpr rfl, hline.below_iff.mpr ?_⟩
    rw [hn, ← List.flatten_concat, ← List.flatten_cons, ← List.replicate_succ,
      List.replicate_succ']

/-- One line is pointed at as it should be. -/
theorem pointsAt_of_unbroken (hp : place ≤ source.length) (h : '\n' ∉ source) :
    PointsAt (source ++ pointerLine (source.take place)) source place := by
  refine (pointsAt_iff hp).mpr ⟨fun hmem => h (List.mem_of_mem_take hmem), 0, ?_⟩
  rw [List.replicate_zero, List.flatten_nil, fromLineEnd, List.dropWhile_eq_nil_iff]
  intro c hc
  have hne : c ≠ '\n' := fun heq => h (heq ▸ List.mem_of_mem_drop hc)
  simpa using hne

end

section Parse

variable {limit : Limit.Reading} {memo : MemoName} {source : String} {store later : Store}
  {e : FormatError}

theorem TokenAt.position_le {cs : List Char} {token : Token} (h : TokenAt cs token) :
    token.position ≤ cs.length := by
  cases h with
  | mark front m behind text => simp [text]
  | number front ds behind text => simp [text]
  | stop => exact Nat.le_refl _

theorem FirstIllegible.place_lt {cs : List Char} {place : Nat} (h : FirstIllegible cs place) :
    place < cs.length := by
  obtain ⟨front, c, behind, rfl, -, -, rfl⟩ := h
  simp

theorem parse_fault_within (h : parse limit memo source store = .error (.format e) later) :
    e.position ≤ source.toList.length := by
  cases ht : tokenize source with
  | error lexical =>
    rw [parse_illegible ht] at h
    cases h
    exact Nat.le_of_lt (tokenize_error_iff.mp ht).2.place_lt
  | ok tokens =>
    obtain ⟨halt, hparse, hfault⟩ := parse_error ht h
    obtain ⟨⟨taken, -, hcursor, hposition⟩, -⟩ := Cursor.parse_phrase.of_error trivial hparse
    have hcurrent : halt.cursor.current ∈ tokens.ended := by
      rw [hcursor]
      exact List.mem_of_getElem? (Cursor.ended_ahead ⟨tokens, 0 + taken⟩ 0)
    rw [hposition e hfault]
    exact (((tokenize_ended ht).2 _).mp hcurrent).position_le

/-- A fault of the text is one of a place in it, and the pointer has as many characters before it as
the place, with the same tabs. A formula of one line is pointed at below the place. One of more
lines is not, unless the place is on the first and the others look like the line of the pointer. -/
theorem pointer_below_source (h : parse limit memo source store = .error (.format e) later) :
    e.position ≤ source.length ∧
    (∃ padding, List.Forall₂ Aligned (source.toList.take e.position) padding ∧
      (pointAt source e.position).toList = source.toList ++ ('\n' :: (padding ++ ['^']))) ∧
    ('\n' ∉ source.toList →
      PointsAt (pointAt source e.position).toList source.toList e.position) ∧
    (PointsAt (pointAt source e.position).toList source.toList e.position ↔
      '\n' ∉ source.toList.take e.position ∧
        ∃ n, fromLineEnd source.toList e.position =
          (List.replicate n (pointerLine (source.toList.take e.position))).flatten) := by
  have hp := parse_fault_within h
  rw [pointAt_eq]
  refine ⟨by rwa [← String.length_toList], ?_, pointsAt_of_unbroken hp, pointsAt_iff hp⟩
  exact ⟨_, forall₂_aligned.mpr rfl, rfl⟩

/-- The tab before the parenthesis is kept. -/
theorem pointer_below_source_tab :
    parse (.ok none) "" "1+\t)" {} = .error (.format ⟨.operandExpected, 3⟩) {} ∧
      pointAt "1+\t)" 3 = "1+\t)\n  \t^" ∧
      PointsAt (pointAt "1+\t)" 3).toList "1+\t)".toList 3 := by
  have ht : tokenize "1+\t)" =
      .ok ⟨[⟨.number 1, 0⟩, ⟨.mark .plus, 1⟩, ⟨.mark .rparen, 3⟩], 4⟩ := by
    cbv
  have hp : parse (.ok none) "" "1+\t)" {} = .error (.format ⟨.operandExpected, 3⟩) {} := by
    rw [parse_eq, ht]
    rfl
  exact ⟨hp, by decide, (pointer_below_source hp).2.2.1 (by decide)⟩

/-- On the second line the pointer stands below the end of the formula, but not under it. -/
theorem pointer_beside_second_line :
    parse (.ok none) "" "1\n+" {} = .error (.format ⟨.operandExpected, 3⟩) {} ∧
      pointAt "1\n+" 3 = "1\n+\n   ^" ∧
      ¬ PointsAt (pointAt "1\n+" 3).toList "1\n+".toList 3 := by
  have ht : tokenize "1\n+" = .ok ⟨[⟨.number 1, 0⟩, ⟨.mark .plus, 2⟩], 3⟩ := by
    cbv
  refine ⟨?_, by decide, ?_⟩
  · rw [parse_eq, ht]
    rfl
  · change ¬ PointsAt (pointAt "1\n+" (3 : Nat)).toList _ _
    rw [pointAt_eq, pointsAt_iff (by decide)]
    exact fun h => h.1 (by decide)

end Parse

end DiceFormula
