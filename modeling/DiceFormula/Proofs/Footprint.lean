import DiceFormula.Proofs.Acceptance
import DiceFormula.Proofs.ArbitraryMemos
import DiceFormula.Proofs.Sessions

namespace DiceFormula

namespace Store

/-- No entry is lost or changed, and there are new ones under allowed keys only. Memos without such
keys are as they were. -/
structure Extends (allowed : MemoName → String → Prop) (old new : Store) : Prop where
  kept {memo : MemoName} {aspect : Aspect} {key : String} {answer : aspect.Answer}
    (h : (old.memo memo).find? aspect key = some answer) :
    (new.memo memo).find? aspect key = some answer
  added {memo : MemoName} {aspect : Aspect} {key : String} {answer : aspect.Answer}
    (h : (new.memo memo).find? aspect key = some answer) :
    (old.memo memo).find? aspect key = some answer ∨ allowed memo key
  untouched {memo : MemoName} (h : ∀ key, ¬ allowed memo key) : new.memo memo = old.memo memo

namespace Extends

variable {allowed : MemoName → String → Prop} {old new : Store}

theorem refl : Extends allowed old old := ⟨id, .inl, fun _ => rfl⟩

theorem admits : Admits (Extends allowed old) allowed := by
  intro store memo aspect key answer h hk
  refine ⟨fun hf => find?_keep_of_some (h.kept hf), fun hf => ?_, fun {other} hn => ?_⟩
  · rcases find?_of_keep hf with hf | ⟨rfl, rfl⟩
    · exact h.added hf
    · exact .inr hk
  · have hne : other ≠ memo := by
      rintro rfl
      exact hn key hk
    exact (memo_keep_of_ne hne).trans (h.untouched hn)

end Extends

end Store

section Memoize

variable {memo : MemoName} {aspect : Aspect} {key : String} {work : Eval aspect.Answer}
  {store later : Store}

/-- An answer that the work has remembered itself, under the same key, is the one that is given, and
nothing is kept beside what the work has kept. -/
theorem memoize_first {answer first : aspect.Answer} {mid : Store}
    (hnone : (store.memo memo).find? aspect key = none) (hw : work store = .ok answer mid)
    (hfirst : (mid.memo memo).find? aspect key = some first) :
    ∃ later, memoize memo aspect key work store = .ok first later ∧ later.memo = mid.memo := by
  have hsame : (mid.keep memo aspect key answer).2.memo = mid.memo := by
    funext other
    by_cases hm : other = memo
    · subst hm
      rw [Store.memo_keep_self]
      simp only [Memo.keep, hfirst]
    · exact Store.memo_keep_of_ne hm
  refine ⟨_, ?_, hsame⟩
  rw [memoize_run, hnone, hw]
  simp only [Store.keep_fst, hfirst, Option.getD_some]

/-- Work that fails is not remembered, and its fault is that of the whole. -/
theorem memoize_error {fault : Fault} :
    memoize memo aspect key work store = .error fault later ↔
      (store.memo memo).find? aspect key = none ∧ work store = .error fault later := by
  rw [memoize_run]
  cases hf : (store.memo memo).find? aspect key with
  | some first => simp
  | none =>
    cases hr : work store with
    | ok answer mid => simp
    | error fault' mid => simp

end Memoize

namespace Expr

/-- The key under which a part of the expression keeps its answers, with the memo. -/
def HasKey (e : Expr) (memo : MemoName) (key : String) : Prop :=
  ∃ part ∈ e.parts, part.memo = memo ∧ part.render = key

theorem keysIn_hasKey (e : Expr) : e.KeysIn e.HasKey := fun part hpart => ⟨part, hpart, rfl, rfl⟩

variable {allowed allowed' : MemoName → String → Prop}

theorem KeysIn.mono {e : Expr} (h : e.KeysIn allowed)
    (hm : ∀ memo key, allowed memo key → allowed' memo key) : e.KeysIn allowed' :=
  fun part hpart => hm _ _ (h part hpart)

theorem ask_allowed {inv : Store → Prop} (ha : Store.Admits inv allowed) {e : Expr}
    (he : e.KeysIn allowed) {limit : Limit.Reading} (query : Query) :
    Keeps inv (e.ask limit query) := by
  refine ask_keeps (fun part hpart => ?_) (mayBeZero_textless ha he).keeps
    (mayBeNegative_textless ha he).keeps query
  exact (outcomes_textless ha fun p hp => he p (parts_subset hpart hp)).keeps

end Expr

theorem Derivation.exists_compound {rule : Rule} (d : Derivation rule) (memo : MemoName) :
    (∃ value, d.expr memo = .number memo value) ∨ d.expr memo ∈ (d.expr memo).compounds := by
  induction d with
  | unsigned | signed => exact .inl ⟨_, rfl⟩
  | literal d ih | parens d ih | single d ih | bare d ih | factor d ih | term d ih | whole d ih =>
    exact ih
  | dice | raised | times | plus => exact .inr (by simp [expr, Expr.compounds])

/-- Whether or not the formula is one, parsing it does no more than building does. -/
theorem parse_constructs {limit : Limit.Reading} {memo : MemoName} {inv : Store → Prop}
    {good : Expr → Prop} {bad : Expr → Fault → Prop} (hc : Constructs limit memo inv good bad)
    (source : String) : Meets inv (parse limit memo source) good fun _ => True := by
  cases ht : tokenize source with
  | error e =>
    rw [parse_eq, ht]
    exact Meets.throw trivial
  | ok tokens =>
    by_cases hg : Grammatical tokens.lexemes
    · obtain ⟨d, hd⟩ := hg
      refine (parse_grammatical hc ht d hd).mono ?_ fun _ _ => trivial
      rintro e ⟨rfl, hgood⟩
      rcases d.exists_compound memo with ⟨value, hnumber⟩ | hmem
      · rw [hnumber]
        exact hc.number value
      · exact hgood _ hmem
    · obtain ⟨place, cause, -, -, d, -, hmeets⟩ := parse_not_grammatical hc ht hg
      exact hmeets.mono (fun _ h => h.elim) fun _ _ => trivial

/-- A formula that is read into a memo looks up no other one. -/
theorem parse_in_memo {limit : Limit.Reading} {memo : MemoName} {source : String} {e : Expr}
    {store later : Store} (h : parse limit memo source store = .ok e later) :
    ∀ part ∈ e.parts, part.memo = memo := by
  have hc : Constructs limit memo (fun _ => True) (Expr.KeysIn fun name _ => name = memo) _ :=
    Expr.constructs_allowed (fun _ _ _ _ _ _ _ => trivial) fun _ => rfl
  exact ((parse_constructs hc source).of_ok trivial h).1

/-- The state that the work leaves, whether or not it fails. -/
def leaves (work : EStateM ε σ α) (s : σ) : σ :=
  match work s with
  | .ok _ s' | .error _ s' => s'

theorem Keeps.leaves {inv : σ → Prop} {work : EStateM ε σ α} (h : Keeps inv work) {s : σ}
    (hs : inv s) : inv (leaves work s) := by
  have hw := h s hs
  simp only [DiceFormula.leaves]
  cases hr : work s with
  | ok a s' | error e s' =>
    rw [hr] at hw
    exact hw.2

theorem parse_untouched {limit : Limit.Reading} {memo other : MemoName} {source : String}
    {store : Store} (h : other ≠ memo) :
    (leaves (parse limit memo source) store).memo other = store.memo other := by
  have hc : Constructs limit memo (store.Extends fun name _ => name = memo) _ _ :=
    Expr.constructs_allowed Store.Extends.admits fun _ => rfl
  exact ((parse_constructs hc source).keeps.leaves .refl).untouched fun _ => h

/-- No question writes to a memo in which no part is looked up. -/
theorem Expr.ask_untouched {limit : Limit.Reading} {e : Expr} {other : MemoName}
    (h : ∀ part ∈ e.parts, part.memo ≠ other) (query : Query) (store : Store) :
    (leaves (e.ask limit query) store).memo other = store.memo other := by
  have hext : store.Extends e.HasKey (leaves (e.ask limit query) store) :=
    (e.ask_allowed Store.Extends.admits e.keysIn_hasKey query).leaves .refl
  refine hext.untouched fun key hk => ?_
  obtain ⟨part, hpart, hm, -⟩ := hk
  exact h part hpart hm

end DiceFormula
