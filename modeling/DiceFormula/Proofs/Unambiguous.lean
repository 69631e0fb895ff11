import DiceFormula.Proofs.Grammar

namespace DiceFormula.Derivation

theorem looseness_scale (divides : Bool) : (Lexeme.mark (.scale divides)).looseness = 2 := by
  cases divides <;> rfl

theorem looseness_sign (negative : Bool) : (Lexeme.mark (.sign negative)).looseness = 3 := by
  cases negative <;> rfl

theorem scale_injective {a b : Bool} (h : Mark.scale a = Mark.scale b) : a = b := by
  cases a <;> cases b <;> first | rfl | cases h

theorem sign_injective {a b : Bool} (h : Mark.sign a = Mark.sign b) : a = b := by
  cases a <;> cases b <;> first | rfl | cases h

theorem ends_nil (rule : Rule) : rule.Ends [] := by
  cases rule <;> simp [Rule.Ends, Rule.bar, Lexeme.looseness]

theorem not_ends_roll_die (w : List Lexeme) : ¬ Rule.roll.Ends (.mark .die :: w) :=
  Nat.not_succ_le_zero 0

theorem ends_roll_caret (w : List Lexeme) : Rule.roll.Ends (.mark .caret :: w) := Nat.le_refl 1

theorem not_ends_power_caret (w : List Lexeme) : ¬ Rule.power.Ends (.mark .caret :: w) :=
  Nat.not_succ_le_self 1

theorem ends_product_scale (divides : Bool) (w : List Lexeme) :
    Rule.product.Ends (.mark (.scale divides) :: w) :=
  Nat.le_of_eq (looseness_scale divides).symm

theorem ends_sum_sign (negative : Bool) (w : List Lexeme) :
    Rule.sum.Ends (.mark (.sign negative) :: w) :=
  Nat.le_of_eq (looseness_sign negative).symm

/-- A phrase is the start of another one that goes on with further factors or terms, or it is the
same. -/
inductive Leads : {rule : Rule} → Derivation rule → Derivation rule → Prop
  | refl {rule : Rule} (d : Derivation rule) : Leads d d
  | times {d left : Derivation .product} (divides : Bool) (right : Derivation .power)
      (h : Leads d left) : Leads d (.times divides left right)
  | plus {d left : Derivation .sum} (subtracts : Bool) (right : Derivation .product)
      (h : Leads d left) : Leads d (.plus subtracts left right)

variable {rule : Rule}

/-- The longer phrase goes on with a mark that the rule leaves to what is around its phrases. -/
theorem Leads.lexemes {d d' : Derivation rule} (h : d.Leads d') :
    d = d' ∨ ∃ m more, d'.lexemes = d.lexemes ++ .mark m :: more ∧
      (Lexeme.mark m).looseness = rule.bar := by
  induction h with
  | refl => exact .inl rfl
  | times divides right _ ih =>
    rcases ih with rfl | ⟨m, more, hlex, hm⟩
    · exact .inr ⟨_, _, rfl, looseness_scale divides⟩
    · exact .inr ⟨m, _, by rw [Derivation.lexemes, hlex, List.append_assoc]; rfl, hm⟩
  | plus subtracts right _ ih =>
    rcases ih with rfl | ⟨m, more, hlex, hm⟩
    · exact .inr ⟨_, _, rfl, looseness_sign subtracts⟩
    · exact .inr ⟨m, _, by rw [Derivation.lexemes, hlex, List.append_assoc]; rfl, hm⟩

/-- Nothing longer is there when something looser, or nothing, stands behind the phrase. -/
theorem Leads.eq {d d' : Derivation rule} (h : d.Leads d') {w w' : List Lexeme}
    (hw : rule.bar < (w.headD .stop).looseness) (hl : d.lexemes ++ w = d'.lexemes ++ w') :
    d = d' := by
  rcases h.lexemes with rfl | ⟨m, more, hlex, hm⟩
  · rfl
  · rw [hlex, List.append_assoc, List.append_cancel_left_eq] at hl
    rw [hl, List.cons_append, List.headD_cons, hm] at hw
    exact absurd hw (Nat.lt_irrefl _)

/-- The first further factor of a product that goes on. -/
theorem Leads.next_factor {d : Derivation .product} :
    ∀ {d' : Derivation .product}, d.Leads d' →
      d = d' ∨ ∃ divides right, (Derivation.times divides d right).Leads d'
  | _, .refl _ => .inl rfl
  | _, .times divides right h =>
    match h.next_factor with
    | .inl h => .inr ⟨divides, right, h ▸ .refl _⟩
    | .inr ⟨first, next, h⟩ => .inr ⟨first, next, .times divides right h⟩

/-- The first further term of a sum that goes on. -/
theorem Leads.next_term {d : Derivation .sum} :
    ∀ {d' : Derivation .sum}, d.Leads d' →
      d = d' ∨ ∃ subtracts right, (Derivation.plus subtracts d right).Leads d'
  | _, .refl _ => .inl rfl
  | _, .plus subtracts right h =>
    match h.next_term with
    | .inl h => .inr ⟨subtracts, right, h ▸ .refl _⟩
    | .inr ⟨first, next, h⟩ => .inr ⟨first, next, .plus subtracts right h⟩

/-- Phrases of which nothing can be left to read do not go on. -/
theorem eq_of_leads_or_leads (hr : rule.rest = []) {d d' : Derivation rule}
    (h : d.Leads d' ∨ d'.Leads d) : d = d' := by
  have hself {d d' : Derivation rule} (h : d.Leads d') : d = d' := by
    cases h with
    | refl => rfl
    | times | plus => cases hr
  rcases h with h | h
  · exact hself h
  · exact (hself h).symm

/-- A literal does not start with a parenthesis. -/
theorem literal_ne_paren (d : Derivation .literal) (w w' : List Lexeme) :
    d.lexemes ++ w ≠ .mark .lparen :: w' := by
  cases d with
  | unsigned => simp [lexemes]
  | signed negative => cases negative <;> simp [lexemes, Mark.sign]

/-- What follows the shorter phrase does not extend it, if nothing extends the longer one. -/
theorem Leads.exists_more {d d' : Derivation rule} (h : d.Leads d') :
    ∃ more, d'.lexemes = d.lexemes ++ more ∧ ∀ w, rule.Ends w → rule.Ends (more ++ w) := by
  rcases h.lexemes with rfl | ⟨m, more, hlex, hm⟩
  · exact ⟨[], by simp, fun _ hw => hw⟩
  · exact ⟨_, hlex, fun _ _ => Nat.le_of_eq hm.symm⟩

/-- Phrases before something looser do not go on. -/
theorem eq_of_looser {d d' : Derivation rule} (hd : d.Leads d' ∨ d'.Leads d) {w w' : List Lexeme}
    (hw : rule.bar < (w.headD .stop).looseness) (hw' : rule.bar < (w'.headD .stop).looseness)
    (h : d.lexemes ++ w = d'.lexemes ++ w') : d = d' := by
  rcases hd with hd | hd
  · exact hd.eq hw h
  · exact (hd.eq hw' h.symm).symm

/-- A first factor that can be told from all others leads to every product that starts like it. -/
theorem factor_leads {d : Derivation .power} {w : List Lexeme}
    (hd : ∀ (d' : Derivation .power) {v : List Lexeme}, Rule.power.Ends v →
      d.lexemes ++ w = d'.lexemes ++ v → d = d') :
    ∀ (p : Derivation .product) {v : List Lexeme}, Rule.product.Ends v →
      d.lexemes ++ w = p.lexemes ++ v → (factor d).Leads p
  | factor d', _, hv, h => hd d' hv h ▸ .refl _
  | times divides left right, _, _, h => by
    simp only [lexemes, List.append_assoc, List.cons_append] at h
    exact .times divides right (factor_leads hd left (ends_product_scale _ _) h)

/-- A first term that can be told from all others leads to every sum that starts like it. -/
theorem term_leads {d : Derivation .product} {w : List Lexeme}
    (hd : ∀ (d' : Derivation .product) {v : List Lexeme}, Rule.sum.Ends v →
      d.lexemes ++ w = d'.lexemes ++ v → d = d') :
    ∀ (s : Derivation .sum) {v : List Lexeme}, Rule.sum.Ends v →
      d.lexemes ++ w = s.lexemes ++ v → (term d).Leads s
  | term d', _, hv, h => hd d' hv h ▸ .refl _
  | plus subtracts left right, _, _, h => by
    simp only [lexemes, List.append_assoc, List.cons_append] at h
    exact .plus subtracts right (term_leads hd left (ends_sum_sign _ _) h)

/-- Two phrases of a rule at the front of a text, where neither is extended by what stands behind
it: one leads to the other. -/
theorem leads_or_leads (d : Derivation rule) (d' : Derivation rule) {w w' : List Lexeme}
    (hw : rule.Ends w) (hw' : rule.Ends w') (h : d.lexemes ++ w = d'.lexemes ++ w') :
    d.Leads d' ∨ d'.Leads d := by
  -- by induction on one phrase; the other one is taken apart by its own last rule, except where
  -- that is a repetition, whose first part is found by `factor_leads` and `term_leads`
  induction d generalizing w w' with
  | unsigned value =>
    cases d' with
    | unsigned => cases h; exact .inl (.refl _)
    | signed => cases h
  | signed negative value =>
    cases d' with
    | unsigned => cases h
    | signed negative' value' =>
      simp only [lexemes, List.cons_append, List.cons.injEq, Lexeme.mark.injEq,
        Lexeme.number.injEq] at h
      obtain ⟨hsign, rfl, -⟩ := h
      exact .inl (sign_injective hsign ▸ .refl _)
  | literal d ih =>
    cases d' with
    | literal d' =>
      obtain rfl := eq_of_leads_or_leads rfl (ih d' hw hw' h)
      exact .inl (.refl _)
    | parens d' => exact absurd h (literal_ne_paren d _ _)
  | parens d ih =>
    cases d' with
    | literal d' => exact absurd h.symm (literal_ne_paren d' _ _)
    | parens d' =>
      simp only [lexemes, List.cons_append, List.append_assoc, List.cons.injEq, true_and] at h
      have hclose : ∀ v, Rule.sum.bar < ((Lexeme.mark .rparen :: v).headD .stop).looseness :=
        fun v => Nat.lt_succ_self 3
      have hd := ih d' (Nat.le_of_lt (hclose _)) (Nat.le_of_lt (hclose _)) h
      obtain rfl := eq_of_looser hd (hclose _) (hclose _) h
      exact .inl (.refl _)
  | single d ih =>
    cases d' with
    | single d' =>
      obtain rfl := eq_of_leads_or_leads rfl (ih d' (Nat.zero_le _) (Nat.zero_le _) h)
      exact .inl (.refl _)
    | dice count faces =>
      simp only [lexemes, List.append_assoc, List.cons_append] at h
      obtain rfl := eq_of_leads_or_leads rfl (ih count (Nat.zero_le _) (Nat.zero_le _) h)
      rw [List.append_cancel_left_eq] at h
      exact absurd hw (h ▸ not_ends_roll_die _)
  | dice count faces ihc ihf =>
    simp only [lexemes, List.append_assoc, List.cons_append] at h
    cases d' with
    | single d' =>
      obtain rfl := eq_of_leads_or_leads rfl (ihc d' (Nat.zero_le _) (Nat.zero_le _) h)
      rw [lexemes, List.append_cancel_left_eq] at h
      exact absurd hw' (h ▸ not_ends_roll_die _)
    | dice count' faces' =>
      simp only [lexemes, List.append_assoc, List.cons_append] at h
      obtain rfl := eq_of_leads_or_leads rfl (ihc count' (Nat.zero_le _) (Nat.zero_le _) h)
      rw [List.append_cancel_left_eq, List.cons.injEq] at h
      obtain rfl := eq_of_leads_or_leads rfl (ihf faces' (Nat.zero_le _) (Nat.zero_le _) h.2)
      exact .inl (.refl _)
  | bare d ih =>
    cases d' with
    | bare d' =>
      obtain rfl := eq_of_leads_or_leads rfl
        (ih d' (Nat.le_of_succ_le hw) (Nat.le_of_succ_le hw') h)
      exact .inl (.refl _)
    | raised base exponent =>
      simp only [lexemes, List.append_assoc, List.cons_append] at h
      obtain rfl := eq_of_leads_or_leads rfl (ih base (Nat.le_of_succ_le hw) (ends_roll_caret _) h)
      rw [List.append_cancel_left_eq] at h
      exact absurd hw (h ▸ not_ends_power_caret _)
  | raised base exponent ihb ihe =>
    simp only [lexemes, List.append_assoc, List.cons_append] at h
    cases d' with
    | bare d' =>
      obtain rfl := eq_of_leads_or_leads rfl (ihb d' (ends_roll_caret _) (Nat.le_of_succ_le hw') h)
      rw [lexemes, List.append_cancel_left_eq] at h
      exact absurd hw' (h ▸ not_ends_power_caret _)
    | raised base' exponent' =>
      simp only [lexemes, List.append_assoc, List.cons_append] at h
      obtain rfl := eq_of_leads_or_leads rfl (ihb base' (ends_roll_caret _) (ends_roll_caret _) h)
      rw [List.append_cancel_left_eq, List.cons.injEq] at h
      obtain rfl := eq_of_leads_or_leads rfl (ihe exponent' hw hw' h.2)
      exact .inl (.refl _)
  | factor d ih =>
    refine .inl (factor_leads (fun p v hv h => ?_) d' hw' h)
    exact eq_of_leads_or_leads rfl (ih p hw hv h)
  | times divides left right ihl ihr =>
    simp only [lexemes, List.append_assoc, List.cons_append] at h
    rcases ihl d' (ends_product_scale _ _) hw' h with hd | hd
    -- the other product goes on behind the same factors, so the next ones are compared
    · rcases hd.next_factor with rfl | ⟨divides', right', hd⟩
      · exact .inr (.times divides right (.refl _))
      · obtain ⟨more, hlex, hmore⟩ := hd.exists_more
        simp only [hlex, lexemes, List.append_assoc, List.cons_append, List.append_cancel_left_eq,
          List.cons.injEq, Lexeme.mark.injEq] at h
        obtain rfl := scale_injective h.1
        obtain rfl := eq_of_leads_or_leads rfl (ihr right' hw (hmore w' hw') h.2)
        exact .inl hd
    · exact .inr (.times divides right hd)
  | term d ih =>
    have hsum : ∀ v, Rule.sum.Ends v → Rule.product.Ends v := fun _ => Nat.le_of_succ_le
    refine .inl (term_leads (fun p v hv h => ?_) d' hw' h)
    exact eq_of_looser (ih p (hsum _ hw) (hsum _ hv) h) hw hv h
  | plus subtracts left right ihl ihr =>
    have hsum : ∀ v, Rule.sum.Ends v → Rule.product.Ends v := fun _ => Nat.le_of_succ_le
    simp only [lexemes, List.append_assoc, List.cons_append] at h
    rcases ihl d' (ends_sum_sign _ _) hw' h with hd | hd
    · rcases hd.next_term with rfl | ⟨subtracts', right', hd⟩
      · exact .inr (.plus subtracts right (.refl _))
      · obtain ⟨more, hlex, hmore⟩ := hd.exists_more
        simp only [hlex, lexemes, List.append_assoc, List.cons_append, List.append_cancel_left_eq,
          List.cons.injEq, Lexeme.mark.injEq] at h
        obtain rfl := sign_injective h.1
        have hright := ihr right' (hsum _ hw) (hsum _ (hmore w' hw')) h.2
        obtain rfl := eq_of_looser hright hw (hmore w' hw') h.2
        exact .inl hd
    · exact .inr (.plus subtracts right hd)
  | whole d ih =>
    cases d' with
    | whole d' =>
      have hd := ih d' (Nat.le_of_succ_le hw) (Nat.le_of_succ_le hw') h
      obtain rfl := eq_of_looser hd hw hw' h
      exact .inl (.refl _)

/-- A phrase has one derivation. -/
theorem eq_of_lexemes_eq {d d' : Derivation rule} (h : d.lexemes = d'.lexemes) : d = d' := by
  have hw : d.lexemes ++ [] = d'.lexemes ++ [] := by rw [h]
  rcases leads_or_leads d d' (ends_nil rule) (ends_nil rule) hw with hd | hd
  · rcases hd.lexemes with hd | ⟨m, more, hlex, -⟩
    · exact hd
    · simp [h] at hlex
  · rcases hd.lexemes with hd | ⟨m, more, hlex, -⟩
    · exact hd.symm
    · simp [h] at hlex

end DiceFormula.Derivation
