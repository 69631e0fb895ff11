import DiceFormula.Proofs.Footprint
import DiceFormula.Proofs.Formulas
import DiceFormula.Proofs.Fragments
import DiceFormula.Proofs.Tokenizing

namespace DiceFormula

/-- Built of numbers that are not negative, dice, sums, products and powers, and of quotients where
`divides` allows them. -/
def Expr.Unsigned (divides : Prop) : Expr → Prop
  | number _ value => 0 ≤ value
  | roll _ first second | binary _ .add first second | binary _ .mul first second
  | binary _ .pow first second => first.Unsigned divides ∧ second.Unsigned divides
  | binary _ .div first second => divides ∧ first.Unsigned divides ∧ second.Unsigned divides
  | blank _ | binary _ .sub _ _ | binary _ .unspecified _ _ => False

/-- A lexeme of formulas without a minus, and without a slash unless `divides` allows it. -/
def Lexeme.Unsigned (divides : Prop) : Lexeme → Prop
  | mark .minus => False
  | mark .slash => divides
  | _ => True

/-- The check for a negative outcome, where `look` is the look at the outcomes that it falls back
to. -/
def Expr.askNegative (look : Expr → Eval Bool) : Expr → Eval Bool
  | blank _ => throw (.missing .negativeCheck)
  | number _ value => return value < 0
  | roll _ _ _ => return false
  | binary memo op left right =>
    let e := binary memo op left right
    memoize memo .negative e.render do
      let possible ←
        match op with
        | .add | .mul | .div => do
          if ← left.askNegative look then pure true else right.askNegative look
        | .pow => left.askNegative look
        | .sub | .unspecified => pure true
      if possible then look e else return false

/-- From the first store to the second one no outcomes were kept, and in the second one no answer
under the allowed keys says that a negative number is possible. -/
structure Store.Spares (allowed : MemoName → String → Prop) (old new : Store) : Prop where
  outcomes (memo : MemoName) : (new.memo memo).outcomes = (old.memo memo).outcomes
  negative {memo : MemoName} {key : String} (h : allowed memo key) :
    (new.memo memo).find? .negative key ≠ some true

namespace Store

variable {allowed : MemoName → String → Prop} {old new : Store} {memo : MemoName} {key : String}

theorem outcomes_keep_negative {store : Store} {answer : Bool} (other : MemoName) :
    ((store.keep memo .negative key answer).2.memo other).outcomes =
      (store.memo other).outcomes := by
  by_cases hm : other = memo
  · subst hm
    rw [memo_keep_self]
    simp only [Memo.keep]
    cases (store.memo other).find? .negative key <;> rfl
  · rw [memo_keep_of_ne hm]

namespace Spares

/-- What is remembered under an allowed key is no. -/
theorem getD_find? (h : Spares allowed old new) (hk : allowed memo key) :
    ((new.memo memo).find? .negative key).getD false = false := by
  cases hf : (new.memo memo).find? .negative key with
  | none => rfl
  | some b =>
    cases b with
    | false => rfl
    | true => exact absurd hf (h.negative hk)

theorem keep (h : Spares allowed old new) (hk : allowed memo key) :
    (new.keep memo .negative key false).1 = false ∧
      Spares allowed old (new.keep memo .negative key false).2 := by
  refine ⟨by rw [keep_fst, h.getD_find? hk], fun other => ?_, fun {other key'} hk' hf => ?_⟩
  · rw [outcomes_keep_negative, h.outcomes]
  · rcases find?_of_keep hf with hbefore | ⟨rfl, rfl⟩
    · exact h.negative hk' hbefore
    · rw [find?_keep_self, h.getD_find? hk] at hf
      cases hf

/-- A remembered answer is no, and so is one that is worked out and kept. -/
theorem memoize {store mid : Store} (h : Spares allowed old store) (hk : allowed memo key)
    (hmid : Spares allowed old mid) :
    ∃ later, Spares allowed old later ∧ ∀ work : Eval Bool, work store = .ok false mid →
      DiceFormula.memoize memo .negative key work store = .ok false later := by
  cases hf : (store.memo memo).find? .negative key with
  | some b =>
    cases b with
    | true => exact absurd hf (h.negative hk)
    | false => exact ⟨store, h, fun work _ => by rw [memoize_run, hf]⟩
  | none =>
    obtain ⟨hno, hlater⟩ := hmid.keep hk
    refine ⟨_, hlater, fun work hw => ?_⟩
    rw [memoize_run, hf, hw]
    exact congrArg (EStateM.Result.ok · _) hno

end Spares

end Store

namespace Expr

variable {divides : Prop} {e : Expr}

/-- The look at the outcomes for a negative one. -/
def lookNegative (limit : Limit.Reading) (e : Expr) : Eval Bool := do
  let least ← MonadExcept.ofExcept (← e.outcomes limit).least
  Eval.ofNumber least.isNegative

theorem mayBeNegative_eq_askNegative (e : Expr) (limit : Limit.Reading) :
    e.mayBeNegative limit = e.askNegative (lookNegative limit) := by
  induction e with
  | blank | number | roll => rfl
  | binary memo op left right ihl ihr =>
    cases op with
    | add | mul | div | pow | sub | unspecified =>
      simp only [mayBeNegative, askNegative, ihl, ihr]
      rfl

theorem Unsigned.parts (h : e.Unsigned divides) : ∀ part ∈ e.parts, part.Unsigned divides := by
  induction e with
  | blank => exact h.elim
  | number => simpa [Expr.parts] using h
  | roll memo count faces ihc ihf => exact forall_parts_roll.mpr ⟨ihc h.1, ihf h.2, h⟩
  | binary memo op left right ihl ihr =>
    cases op with
    | add | mul | pow => exact forall_parts_binary.mpr ⟨ihl h.1, ihr h.2, h⟩
    | div => exact forall_parts_binary.mpr ⟨ihl h.2.1, ihr h.2.2, h⟩
    | sub | unspecified => exact h.elim

theorem Unsigned.nonneg (h : e.Unsigned divides) : ∀ v, e.Yields v → 0 ≤ v := by
  induction e with
  | blank => exact h.elim
  | number memo value =>
    rintro v rfl
    exact h
  | roll => exact fun v => roll_nonneg
  | binary memo op left right ihl ihr =>
    rintro v ⟨x, y, hx, hy, rfl⟩
    cases op with
    | add | mul => exact Op.value_nonneg (by simp) (ihl h.1 x hx) (ihr h.2 y hy)
    | div => exact Op.value_nonneg (by simp) (ihl h.2.1 x hx) (ihr h.2.2 y hy)
    | pow => exact Op.value_pow_nonneg (ihl h.1 x hx)
    | sub | unspecified => exact h.elim

section Ask

variable {allowed : MemoName → String → Prop} {old store : Store}

/-- The check of an unsigned expression answers no by way of its operands alone. -/
theorem Unsigned.askNegative_run (h : e.Unsigned divides) (hk : e.KeysIn allowed)
    (hs : Store.Spares allowed old store) :
    ∃ later, Store.Spares allowed old later ∧
      ∀ look, e.askNegative look store = .ok false later := by
  induction e generalizing store with
  | blank => exact h.elim
  | number memo value =>
    have hno : decide (value < 0) = false := decide_eq_false (Int.not_lt.mpr h)
    exact ⟨store, hs, fun look => congrArg (EStateM.Result.ok · store) hno⟩
  | roll => exact ⟨store, hs, fun look => rfl⟩
  | binary memo op left right ihl ihr =>
    obtain ⟨hkl, hkr, hkey⟩ := forall_parts_binary.mp hk
    cases op with
    | add | mul | div =>
      have hl : left.Unsigned divides := by first | exact h.1 | exact h.2.1
      have hr : right.Unsigned divides := by first | exact h.2 | exact h.2.2
      -- No to both operands, the second one asked on what the first one left.
      obtain ⟨mid, hmid, hleft⟩ := ihl hl hkl hs
      obtain ⟨last, hlast, hright⟩ := ihr hr hkr hmid
      obtain ⟨later, hlater, hrun⟩ := hs.memoize hkey hlast
      refine ⟨later, hlater, fun look => hrun _ ?_⟩
      exact (bind_of_ok (hleft look)).trans (bind_of_ok (hright look))
    | pow =>
      obtain ⟨mid, hmid, hleft⟩ := ihl h.1 hkl hs
      obtain ⟨later, hlater, hrun⟩ := hs.memoize hkey hmid
      refine ⟨later, hlater, fun look => hrun _ ?_⟩
      exact bind_of_ok (hleft look)
    | sub | unspecified => exact h.elim

theorem Unsigned.mayBeNegative_meets (h : e.Unsigned divides) (hk : e.KeysIn allowed)
    {limit : Limit.Reading} :
    Meets (Store.Spares allowed old) (e.mayBeNegative limit) (· = false) fun _ => False := by
  intro store hs
  obtain ⟨later, hlater, hrun⟩ := h.askNegative_run hk hs
  rw [mayBeNegative_eq_askNegative, hrun]
  exact ⟨rfl, hlater⟩

/-- Dice of unsigned operands are built under any limit. -/
theorem mkRoll_unsigned {limit : Limit.Reading} {memo : MemoName} {count faces : Expr}
    (h : (roll memo count faces).Unsigned divides) (hc : count.KeysIn allowed)
    (hf : faces.KeysIn allowed) :
    Meets (Store.Spares allowed old) (mkRoll limit memo count faces)
      (· = roll memo count faces) fun _ => False := by
  refine Meets.bind (h.1.mayBeNegative_meets hc) ?_
  rintro _ rfl
  refine Meets.guard nofun fun _ => Meets.bind (h.2.mayBeNegative_meets hf) ?_
  rintro _ rfl
  exact Meets.guard nofun fun _ => Meets.pure rfl

/-- So are sums, products and powers. Quotients look at the outcomes of their operands. -/
theorem mkBinary_unsigned {limit : Limit.Reading} {memo : MemoName} {op : Op} {left right : Expr}
    (h : (binary memo op left right).Unsigned False) (hr : right.KeysIn allowed) :
    Meets (Store.Spares allowed old) (mkBinary limit memo op left right)
      (· = binary memo op left right) fun _ => False := by
  unfold mkBinary
  cases op with
  | add | mul => exact Meets.pure rfl
  | pow =>
    refine Meets.bind (h.2.mayBeNegative_meets hr) ?_
    rintro _ rfl
    exact Meets.guard nofun fun _ => Meets.pure rfl
  | div => exact h.1.elim
  | sub | unspecified => exact h.elim

end Ask

end Expr

section Build

variable {limit : Limit.Reading} {memo : MemoName} {old : Store}

/-- The steps that make unsigned parts without quotients are all performed. -/
theorem Builds.unsigned_meets {stack last : List Expr} {steps : List Step}
    {made : List (Expr × Nat)} {cursor : Cursor} (h : Builds memo stack steps made last)
    (hu : ∀ part ∈ made, part.1.Unsigned False)
    (hs : ∀ e ∈ stack, e.KeysIn fun name _ => name = memo) :
    Meets (Store.Spares (fun name _ => name = memo) old)
      (Cursor.build limit memo cursor stack steps) (· = last) fun _ => False := by
  induction h with
  | none => exact Meets.pure rfl
  | number value taken rest ih =>
    exact ih hu (List.forall_mem_cons.mpr ⟨by simp [Expr.KeysIn, Expr.parts, Expr.memo], hs⟩)
  | roll count faces taken rest ih =>
    simp only [List.forall_mem_cons] at hu hs
    obtain ⟨hf, hc, hrest⟩ := hs
    refine Meets.build_step rfl (Expr.mkRoll_unsigned hu.1 hc hf) ?_
    rintro _ rfl
    exact ih hu.2 (List.forall_mem_cons.mpr ⟨Expr.forall_parts_roll.mpr ⟨hc, hf, rfl⟩, hrest⟩)
  | binary meaning left right taken rest ih =>
    simp only [List.forall_mem_cons] at hu hs
    obtain ⟨hr, hl, hrest⟩ := hs
    refine Meets.build_step rfl (Expr.mkBinary_unsigned hu.1 hr) ?_
    rintro _ rfl
    exact ih hu.2 (List.forall_mem_cons.mpr ⟨Expr.forall_parts_binary.mpr ⟨hl, hr, rfl⟩, hrest⟩)

end Build

theorem Derivation.expr_unsigned {rule : Rule} {memo : MemoName} {divides : Prop}
    (d : Derivation rule) (h : ∀ x ∈ d.lexemes, x.Unsigned divides) :
    (d.expr memo).Unsigned divides := by
  induction d with
  | unsigned value => exact Int.natCast_nonneg value
  | signed negative value =>
    cases negative with
    | false => exact Int.natCast_nonneg value
    | true => exact (h (.mark .minus) (.head _)).elim
  | literal d ih | single d ih | bare d ih | factor d ih | term d ih | whole d ih => exact ih h
  | parens d ih => exact ih fun x hx => h x (by simp [lexemes, hx])
  | dice left right ihl ihr | raised left right ihl ihr =>
    exact ⟨ihl fun x hx => h x (by simp [lexemes, hx]),
      ihr fun x hx => h x (by simp [lexemes, hx])⟩
  | times divided left right ihl ihr =>
    have hl := ihl fun x hx => h x (by simp [lexemes, hx])
    have hr := ihr fun x hx => h x (by simp [lexemes, hx])
    cases divided with
    | false => exact ⟨hl, hr⟩
    | true => exact ⟨h (.mark .slash) (by simp [lexemes, Mark.scale]), hl, hr⟩
  | plus subtracts left right ihl ihr =>
    have hl := ihl fun x hx => h x (by simp [lexemes, hx])
    have hr := ihr fun x hx => h x (by simp [lexemes, hx])
    cases subtracts with
    | false => exact ⟨hl, hr⟩
    | true => exact (h (.mark .minus) (by simp [lexemes, Mark.sign])).elim

section Parse

variable {source : String} {tokens : Tokens} {memo : MemoName} {divides : Prop}

/-- A text without a minus, and without a slash unless `divides` allows it, has unsigned lexemes. -/
theorem tokenize_unsigned (ht : tokenize source = .ok tokens) (hm : '-' ∉ source.toList)
    (hd : '/' ∈ source.toList → divides) : ∀ x ∈ tokens.lexemes, x.Unsigned divides := by
  have hspells := (tokenize_spells ht).1
  intro x hx
  cases x with
  | number | stop => trivial
  | mark m =>
    have hsymbol := hspells.symbol_mem hx
    cases m with
    | minus => exact absurd hsymbol hm
    | slash => exact hd hsymbol
    | plus | star | caret | lparen | rparen | die => trivial

/-- Unsigned lexemes without a slash are read when they are a formula, and faulted for their order
when they are none. No outcomes are kept on the way. -/
theorem Cursor.parse_unsigned {limit : Limit.Reading} {old : Store} (hs : .stop ∉ tokens.lexemes)
    (hu : ∀ x ∈ tokens.lexemes, x.Unsigned False) :
    Meets (Store.Spares (fun name _ => name = memo) old)
      (Cursor.parse limit memo ⟨tokens, 0⟩ .formula) (fun _ => Grammatical tokens.lexemes)
      fun halt => ¬ Grammatical tokens.lexemes ∧ ∃ e, halt.fault = .format e := by
  unfold Cursor.parse
  by_cases hg : Grammatical tokens.lexemes
  · obtain ⟨d, hd⟩ := id hg
    rw [read_derivation d hd]
    have hwhole : (d.expr memo).Unsigned False := d.expr_unsigned (hd ▸ hu)
    have hmade : ∀ part ∈ d.compounds memo 0, part.1.Unsigned False := by
      intro part hpart
      refine hwhole.parts part.1 (Expr.compounds_subset _ ?_)
      rw [← d.map_fst_compounds memo 0]
      exact List.mem_map_of_mem hpart
    exact Meets.bind (((Builds.phrase d 0).unsigned_meets hmade (by simp)).widen nofun)
      fun _ _ => Meets.pure hg
  · obtain ⟨steps, place, cause, hread, -, -, d, made, last, htake, hbuilds, hinside⟩ :=
      read_not_grammatical memo hs hg
    rw [hread]
    have hmade : ∀ part ∈ made, part.1.Unsigned False := by
      intro part hpart
      obtain ⟨hmem, hle⟩ := hinside part hpart
      obtain ⟨rule, phrase, hphrase, hfrom⟩ := Derivation.phrase_before htake hmem hle
      rw [hphrase]
      exact phrase.expr_unsigned fun x hx => hu x (hfrom x hx)
    exact Meets.bind ((hbuilds.unsigned_meets hmade (by simp)).widen nofun)
      fun _ _ => Meets.throw ⟨hg, _, rfl⟩

theorem parse_unsigned {limit : Limit.Reading} {old : Store} (ht : tokenize source = .ok tokens)
    (hu : ∀ x ∈ tokens.lexemes, x.Unsigned False) :
    Meets (Store.Spares (fun name _ => name = memo) old) (parse limit memo source)
      (fun _ => Grammatical tokens.lexemes)
      fun fault => ¬ Grammatical tokens.lexemes ∧ ∃ e, fault = .format e := by
  rw [parse_eq, ht]
  exact Meets.bind (Meets.adaptExcept (Cursor.parse_unsigned (tokenize_ok ht).1 hu))
    fun _ hg => Meets.pure hg

end Parse

/-- In a reached session all that is remembered of an unsigned expression is that no outcome is
negative. -/
theorem Session.Reached.spares {now : Session} (hn : now.Reached) {e : Expr} (he : e.Safe)
    {divides : Prop} (hu : e.Unsigned divides) : now.store.Spares e.HasKey now.store := by
  refine ⟨fun _ => rfl, ?_⟩
  rintro _ _ ⟨part, hpart, rfl, rfl⟩ hf
  have hanswers : part.Answers .negative true :=
    (hn.sound.truthful part.memo).answers (he.parts part hpart) hf
  obtain ⟨v, hv, hneg⟩ := hanswers.mp rfl
  have := (hu.parts part hpart).nonneg v hv
  omega

theorem Store.spares_of_fresh {store : Store} {memo : MemoName} (h : store.memo memo = {}) :
    store.Spares (fun name _ => name = memo) store := by
  refine ⟨fun _ => rfl, ?_⟩
  rintro _ key rfl
  rw [h]
  exact nofun

variable {source : String}

/-- No part of an accepted formula without a minus can be negative. That is answered the same with
any look at the outcomes in place of the real one, whatever the limit says, and shows in all
samples. Without a slash too, only the order of the tokens decides whether a text is accepted, and
no outcomes are kept by then. -/
theorem minus_free (hm : '-' ∉ source.toList) (limit : Limit.Reading) (memo : MemoName) :
    (∀ before : Session, before.Reached → ∀ e parsed,
      parse limit memo source before.store = .ok e parsed → ∀ part ∈ e.parts,
        (∀ limit', part.mayBeNegative limit' = part.askNegative (Expr.lookNegative limit')) ∧
        (∀ now : Session, now.Reached → ∃ later,
          (∀ limit', part.mayBeNegative limit' now.store = .ok false later) ∧
          (∀ look, part.askNegative look now.store = .ok false later) ∧
          ∀ name, (later.memo name).outcomes = (now.store.memo name).outcomes) ∧
        ∀ (σ : Type) (roller : Roller σ) (start : σ), roller.InRange → ∃ v stop,
          part.sample roller start = .ok (.integer v) stop ∧ 0 ≤ v) ∧
    ('/' ∉ source.toList → ∀ store : Store, store.memo memo = {} →
      ((∃ e later, parse limit memo source store = .ok e later) ↔
        ∃ tokens, tokenize source = .ok tokens ∧ Grammatical tokens.lexemes) ∧
      (∀ fault later, parse limit memo source store = .error fault later →
        ∃ e, fault = .format e) ∧
      ((leaves (parse limit memo source) store).memo memo).outcomes = []) := by
  refine ⟨fun before hb e parsed hp part hpart => ?_, fun hd store hfresh => ?_⟩
  · obtain ⟨tokens, d, ht, hd, rfl⟩ := parse_accepted hp
    have hunsigned : (d.expr memo).Unsigned True :=
      d.expr_unsigned (hd ▸ tokenize_unsigned ht hm fun _ => trivial)
    have hu := hunsigned.parts part hpart
    have hsafe := (hb.accepted hp).parts part hpart
    refine ⟨fun limit' => part.mayBeNegative_eq_askNegative limit', fun now hn => ?_,
      fun σ roller start hr => ?_⟩
    · obtain ⟨later, hlater, hrun⟩ := hu.askNegative_run part.keysIn_hasKey (hn.spares hsafe hu)
      refine ⟨later, fun limit' => ?_, hrun, hlater.outcomes⟩
      rw [Expr.mayBeNegative_eq_askNegative, hrun]
    · obtain ⟨v, stop, -, -, hsample, hv, -⟩ := Expr.sample_watched hr hsafe start
      exact ⟨v, stop, hsample, hu.nonneg v hv⟩
  · cases ht : tokenize source with
    | error e =>
      have hrun := parse_illegible ht limit memo store
      refine ⟨⟨?_, nofun⟩, ?_, ?_⟩
      · rintro ⟨e', later, hp⟩
        rw [hrun] at hp
        cases hp
      · intro fault later hp
        rw [hrun] at hp
        cases hp
        exact ⟨e, rfl⟩
      · simp only [leaves, hrun, hfresh]
    | ok tokens =>
      have hmeets : Meets (store.Spares _) (parse limit memo source) _ _ :=
        parse_unsigned ht (tokenize_unsigned ht hm fun h => hd h)
      have hs := Store.spares_of_fresh hfresh
      refine ⟨⟨?_, ?_⟩, fun fault later hp => (hmeets.of_error hs hp).1.2, ?_⟩
      · rintro ⟨e, later, hp⟩
        exact ⟨tokens, rfl, (hmeets.of_ok hs hp).1⟩
      · rintro ⟨tokens', ht', hg⟩
        cases ht'
        obtain ⟨e, later, hp, -⟩ := (hmeets.widen fun fault h => h.1 hg).returns (fun _ => id) hs
        exact ⟨e, later, hp⟩
      · rw [(hmeets.keeps.leaves hs).outcomes memo, hfresh]

/-- A quotient under a limit that its outcomes keep to, and a power whose outcomes nobody could go
through, under a limit that is no number. -/
theorem minus_free_dice :
    ('-' ∉ "(2d6+1)*3/1d4".toList ∧ ∃ e parsed,
      parse (Limit.read (some "40")) "" "(2d6+1)*3/1d4" {} = .ok e parsed ∧ ∀ part ∈ e.parts,
        (∀ limit', part.mayBeNegative limit' = part.askNegative (Expr.lookNegative limit')) ∧
        (∀ now : Session, now.Reached → ∃ later,
          (∀ limit', part.mayBeNegative limit' now.store = .ok false later) ∧
          (∀ look, part.askNegative look now.store = .ok false later) ∧
          ∀ name, (later.memo name).outcomes = (now.store.memo name).outcomes) ∧
        ∀ (σ : Type) (roller : Roller σ) (start : σ), roller.InRange → ∃ v stop,
          part.sample roller start = .ok (.integer v) stop ∧ 0 ≤ v) ∧
    '-' ∉ "30d10^40d10".toList ∧ '/' ∉ "30d10^40d10".toList ∧
      ((∃ e later, parse (Limit.read (some "x")) "" "30d10^40d10" {} = .ok e later) ↔
        ∃ tokens, tokenize "30d10^40d10" = .ok tokens ∧ Grammatical tokens.lexemes) ∧
      (∀ fault later, parse (Limit.read (some "x")) "" "30d10^40d10" {} = .error fault later →
        ∃ e, fault = .format e) ∧
      ((leaves (parse (Limit.read (some "x")) "" "30d10^40d10") {}).memo "").outcomes = [] := by
  have hquotient : '-' ∉ "(2d6+1)*3/1d4".toList := by decide
  have hminus : '-' ∉ "30d10^40d10".toList := by decide
  have hslash : '/' ∉ "30d10^40d10".toList := by decide
  have hparse : ∃ e parsed,
      parse (Limit.read (some "40")) "" "(2d6+1)*3/1d4" {} = .ok e parsed := by
    refine ⟨?_, ?_, ?_⟩
    rotate_left 2
    · cbv
      rfl
  obtain ⟨e, parsed, hp⟩ := hparse
  refine ⟨⟨hquotient, e, parsed, hp, ?_⟩, hminus, hslash, ?_⟩
  · exact (minus_free hquotient (Limit.read (some "40")) "").1 {} .start e parsed hp
  · exact (minus_free hminus (Limit.read (some "x")) "").2 hslash {} rfl

end DiceFormula
