import DiceFormula.Proofs.Values

namespace DiceFormula

/-- The text does not go on with a digit. -/
def NoDigitFirst (cs : List Char) : Prop := ∀ c ∈ cs.head?, c.isDigit = false

theorem noDigitFirst_nil : NoDigitFirst [] := by simp [NoDigitFirst]

theorem noDigitFirst_cons {c : Char} {cs : List Char} (h : c.isDigit = false) :
    NoDigitFirst (c :: cs) := by
  simpa [NoDigitFirst] using h

/-- Digits end where no digit follows. -/
theorem digits_append_inj {ds es r s : List Char} (hd : ∀ c ∈ ds, c.isDigit = true)
    (he : ∀ c ∈ es, c.isDigit = true) (hr : NoDigitFirst r) (hs : NoDigitFirst s)
    (h : ds ++ r = es ++ s) : ds = es ∧ r = s := by
  induction ds generalizing es with
  | nil =>
    cases es with
    | nil => exact ⟨rfl, h⟩
    | cons e es =>
      have h0 := hr e (by simp [show r = e :: (es ++ s) from h])
      rw [he e List.mem_cons_self] at h0
      cases h0
  | cons d ds ih =>
    cases es with
    | nil =>
      have h0 := hs d (by simp [show s = d :: (ds ++ r) from h.symm])
      rw [hd d List.mem_cons_self] at h0
      cases h0
    | cons e es =>
      obtain ⟨rfl, htail⟩ := List.cons.inj h
      obtain ⟨rfl, hrest⟩ := ih (fun c hc => hd c (List.mem_cons_of_mem d hc))
        (fun c hc => he c (List.mem_cons_of_mem d hc)) htail
      exact ⟨rfl, hrest⟩

theorem isDigit_of_mem_toDigits {n : Nat} : ∀ c ∈ Nat.toDigits 10 n, c.isDigit = true :=
  fun _ hc => Nat.isDigit_of_mem_toDigits (by omega) (by omega) hc

theorem toDigits_append_inj {m n : Nat} {r s : List Char} (hr : NoDigitFirst r)
    (hs : NoDigitFirst s) (h : Nat.toDigits 10 m ++ r = Nat.toDigits 10 n ++ s) :
    m = n ∧ r = s := by
  obtain ⟨hd, hrest⟩ := digits_append_inj isDigit_of_mem_toDigits isDigit_of_mem_toDigits hr hs h
  have hm : Nat.ofDigitChars 10 (Nat.toDigits 10 m) 0 = m := Nat.ofDigitChars_ten_toDigits
  rw [hd, Nat.ofDigitChars_ten_toDigits] at hm
  exact ⟨hm.symm, hrest⟩

/-- Digits do not start with a character that is none. -/
theorem digits_append_ne {ds r s : List Char} {c : Char} (hne : ds ≠ [])
    (hd : ∀ d ∈ ds, d.isDigit = true) (hc : c.isDigit = false) : ds ++ r ≠ c :: s := by
  intro h
  cases ds with
  | nil => exact hne rfl
  | cons d ds =>
    have hdigit := hd d List.mem_cons_self
    rw [(List.cons.inj h).1, hc] at hdigit
    cases hdigit

theorem toDigits_ne_nil {n : Nat} : Nat.toDigits 10 n ≠ [] :=
  List.ne_nil_of_length_pos Nat.length_toDigits_pos

theorem toDigits_append_ne {n : Nat} {c : Char} {r s : List Char} (hc : c.isDigit = false) :
    Nat.toDigits 10 n ++ r ≠ c :: s :=
  digits_append_ne toDigits_ne_nil isDigit_of_mem_toDigits hc

theorem toList_toString_int (v : Int) : (toString v).toList =
    if v < 0 then '-' :: Nat.toDigits 10 v.natAbs else Nat.toDigits 10 v.natAbs := by
  rw [Int.toString_eq_repr, Int.repr_eq_if]
  by_cases h : v < 0
  · have hn : (-v).toNat = v.natAbs := by omega
    rw [if_neg (by omega), if_pos h, hn]
    simp
  · have hn : v.toNat = v.natAbs := by omega
    rw [if_pos (by omega), if_neg h, hn]
    simp

theorem int_append_inj {v w : Int} {r s : List Char} (hr : NoDigitFirst r) (hs : NoDigitFirst s)
    (h : (toString v).toList ++ r = (toString w).toList ++ s) : v = w ∧ r = s := by
  rw [toList_toString_int, toList_toString_int] at h
  have hminus : ('-' : Char).isDigit = false := by decide
  split at h
  · split at h
    · obtain ⟨hvw, hrest⟩ := toDigits_append_inj hr hs (List.cons.inj h).2
      exact ⟨by omega, hrest⟩
    · exact absurd h.symm (toDigits_append_ne hminus)
  · split at h
    · exact absurd h (toDigits_append_ne hminus)
    · obtain ⟨hvw, hrest⟩ := toDigits_append_inj hr hs h
      exact ⟨by omega, hrest⟩

theorem int_append_ne_paren {v : Int} {r s : List Char} :
    (toString v).toList ++ r ≠ '(' :: s := by
  rw [toList_toString_int]
  split
  · intro h
    cases (List.cons.inj h).1
  · exact toDigits_append_ne (by decide)

namespace Op

theorem symbol_injective {op op' : Op} (h : op.symbol = op'.symbol) : op = op' := by
  cases op <;> cases op' <;> first | rfl | exact absurd h (by decide)

/-- The symbol of an operator with a meaning is one character, neither a digit nor the die mark. -/
theorem symbol_toList {op : Op} (h : op ≠ .unspecified) :
    ∃ c, op.symbol.toList = [c] ∧ c.isDigit = false ∧ c ≠ 'd' := by
  cases op with
  | add => exact ⟨'+', by decide⟩
  | sub => exact ⟨'-', by decide⟩
  | mul => exact ⟨'*', by decide⟩
  | div => exact ⟨'/', by decide⟩
  | pow => exact ⟨'^', by decide⟩
  | unspecified => exact absurd rfl h

end Op

namespace Expr

/-- The same expression with all parts in one memo. -/
def inMemo (memo : MemoName) : Expr → Expr
  | blank _ => blank memo
  | number _ value => number memo value
  | roll _ count faces => roll memo (count.inMemo memo) (faces.inMemo memo)
  | binary _ op left right => binary memo op (left.inMemo memo) (right.inMemo memo)

/-- Every part has a meaning. -/
def Concrete : Expr → Prop
  | blank _ => False
  | number _ _ => True
  | roll _ count faces => count.Concrete ∧ faces.Concrete
  | binary _ op left right => op ≠ .unspecified ∧ left.Concrete ∧ right.Concrete

theorem render_number {memo : MemoName} {value : Int} :
    (number memo value).render = toString value := by
  simp [render, renderAfter]

theorem render_roll {memo : MemoName} {count faces : Expr} :
    (roll memo count faces).render = "(" ++ count.render ++ "d" ++ faces.render ++ ")" := by
  rw [render, renderAfter, renderAfter_eq, renderAfter_eq]
  simp [String.append_assoc]

theorem render_binary {memo : MemoName} {op : Op} {left right : Expr} :
    (binary memo op left right).render =
      "(" ++ left.render ++ op.symbol ++ right.render ++ ")" := by
  rw [render, renderAfter, renderAfter_eq, renderAfter_eq]
  simp [String.append_assoc]

theorem toList_render_roll {memo : MemoName} {count faces : Expr} {r : List Char} :
    (roll memo count faces).render.toList ++ r =
      '(' :: (count.render.toList ++ 'd' :: (faces.render.toList ++ ')' :: r)) := by
  simp [render_roll]

theorem toList_render_binary {memo : MemoName} {op : Op} {left right : Expr} {r : List Char}
    {c : Char} (hc : op.symbol.toList = [c]) :
    (binary memo op left right).render.toList ++ r =
      '(' :: (left.render.toList ++ c :: (right.render.toList ++ ')' :: r)) := by
  simp [render_binary, hc]

/-- Text that starts with an expression starts with one expression only. -/
theorem render_append_inj {e f : Expr} (he : e.Concrete) (hf : f.Concrete) {memo : MemoName}
    {r s : List Char} (hr : NoDigitFirst r) (hs : NoDigitFirst s)
    (h : e.render.toList ++ r = f.render.toList ++ s) :
    e.inMemo memo = f.inMemo memo ∧ r = s := by
  have hparen : (')' : Char).isDigit = false := by decide
  have hdie : ('d' : Char).isDigit = false := by decide
  induction e generalizing f r s with
  | blank => exact he.elim
  | number _ v =>
    rw [render_number] at h
    cases f with
    | blank => exact hf.elim
    | number _ w =>
      rw [render_number] at h
      obtain ⟨rfl, hrest⟩ := int_append_inj hr hs h
      exact ⟨rfl, hrest⟩
    | roll =>
      rw [toList_render_roll] at h
      exact absurd h int_append_ne_paren
    | binary _ op =>
      obtain ⟨c, hc, -, -⟩ := Op.symbol_toList hf.1
      rw [toList_render_binary hc] at h
      exact absurd h int_append_ne_paren
  | roll _ count faces ihc ihf =>
    rw [toList_render_roll] at h
    cases f with
    | blank => exact hf.elim
    | number =>
      rw [render_number] at h
      exact absurd h.symm int_append_ne_paren
    | roll _ count' faces' =>
      rw [toList_render_roll] at h
      obtain ⟨hcount, hrest⟩ := ihc he.1 hf.1 (noDigitFirst_cons hdie) (noDigitFirst_cons hdie)
        (List.cons.inj h).2
      obtain ⟨hfaces, hrest⟩ := ihf he.2 hf.2 (noDigitFirst_cons hparen)
        (noDigitFirst_cons hparen) (List.cons.inj hrest).2
      exact ⟨by simp only [inMemo, hcount, hfaces], (List.cons.inj hrest).2⟩
    | binary _ op left right =>
      obtain ⟨c, hc, hdigit, hd⟩ := Op.symbol_toList hf.1
      rw [toList_render_binary hc] at h
      obtain ⟨-, hrest⟩ := ihc he.1 hf.2.1 (noDigitFirst_cons hdie) (noDigitFirst_cons hdigit)
        (List.cons.inj h).2
      exact absurd (List.cons.inj hrest).1.symm hd
  | binary _ op left right ihl ihr =>
    obtain ⟨c, hc, hdigit, hd⟩ := Op.symbol_toList he.1
    rw [toList_render_binary hc] at h
    cases f with
    | blank => exact hf.elim
    | number =>
      rw [render_number] at h
      exact absurd h.symm int_append_ne_paren
    | roll _ count' faces' =>
      rw [toList_render_roll] at h
      obtain ⟨-, hrest⟩ := ihl he.2.1 hf.1 (noDigitFirst_cons hdigit) (noDigitFirst_cons hdie)
        (List.cons.inj h).2
      exact absurd (List.cons.inj hrest).1 hd
    | binary _ op' left' right' =>
      obtain ⟨c', hc', hdigit', -⟩ := Op.symbol_toList hf.1
      rw [toList_render_binary hc'] at h
      obtain ⟨hleft, hrest⟩ := ihl he.2.1 hf.2.1 (noDigitFirst_cons hdigit)
        (noDigitFirst_cons hdigit') (List.cons.inj h).2
      obtain ⟨hchar, hrest⟩ := List.cons.inj hrest
      obtain ⟨hright, hrest⟩ := ihr he.2.2 hf.2.2 (noDigitFirst_cons hparen)
        (noDigitFirst_cons hparen) hrest
      have hop : op = op' := Op.symbol_injective (String.toList_inj.mp (by rw [hc, hc', hchar]))
      exact ⟨by simp only [inMemo, hop, hleft, hright], (List.cons.inj hrest).2⟩

/-- The text determines the expression up to the memos of its parts. -/
theorem inMemo_eq_of_render_eq {e f : Expr} (he : e.Concrete) (hf : f.Concrete)
    (memo : MemoName) (h : e.render = f.render) : e.inMemo memo = f.inMemo memo :=
  (render_append_inj he hf noDigitFirst_nil noDigitFirst_nil (by rw [h])).1

theorem inMemo_eq_self {e : Expr} {memo : MemoName} (h : ∀ part ∈ e.parts, part.memo = memo) :
    e.inMemo memo = e := by
  induction e with
  | blank | number => simpa [inMemo, parts, Expr.memo, eq_comm] using h
  | roll _ count faces ihc ihf =>
    obtain ⟨hc, hf, rfl⟩ := forall_parts_roll.mp h
    rw [inMemo, ihc hc, ihf hf, Expr.memo]
  | binary _ op left right ihl ihr =>
    obtain ⟨hl, hr, rfl⟩ := forall_parts_binary.mp h
    rw [inMemo, ihl hl, ihr hr, Expr.memo]

theorem yields_inMemo (e : Expr) (memo : MemoName) : (e.inMemo memo).Yields = e.Yields := by
  induction e with
  | blank => rfl
  | number => rfl
  | roll _ count faces ihc ihf => funext v; simp only [inMemo, Yields, ihc, ihf]
  | binary _ op left right ihl ihr => funext v; simp only [inMemo, Yields, ihl, ihr]

theorem Safe.concrete {e : Expr} (h : e.Safe) : e.Concrete := by
  induction e with
  | blank => exact h
  | number => trivial
  | roll _ count faces ihc ihf => exact ⟨ihc h.1, ihf h.2.1⟩
  | binary _ op left right ihl ihr => exact ⟨h.op_ne, ihl h.1, ihr h.2.1⟩

/-- Expressions with one text have the same values. -/
theorem yields_eq_of_render_eq {e f : Expr} (he : e.Concrete) (hf : f.Concrete)
    (h : e.render = f.render) : e.Yields = f.Yields := by
  rw [← yields_inMemo e "", inMemo_eq_of_render_eq he hf "" h, yields_inMemo]

/-- The text determines an expression that keeps to one memo. -/
theorem eq_of_render_eq {e f : Expr} (he : e.Safe) (hf : f.Safe) {memo : MemoName}
    (hem : ∀ part ∈ e.parts, part.memo = memo) (hfm : ∀ part ∈ f.parts, part.memo = memo)
    (h : e.render = f.render) : e = f := by
  rw [← inMemo_eq_self hem, ← inMemo_eq_self hfm]
  exact inMemo_eq_of_render_eq he.concrete hf.concrete memo h

end Expr

end DiceFormula
