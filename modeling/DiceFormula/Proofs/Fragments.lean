import DiceFormula.Proofs.Acceptance
import DiceFormula.Proofs.ArbitraryMemos

namespace DiceFormula

theorem Expr.compounds_subset (e : Expr) : e.compounds ⊆ e.parts := by
  induction e with
  | blank | number => exact List.nil_subset _
  | roll _ _ _ ihf ihs | binary _ _ _ _ ihf ihs =>
    intro part hpart
    simp only [compounds, Expr.parts, List.mem_append] at hpart ⊢
    exact hpart.imp_left (Or.imp (@ihf part) (@ihs part))

namespace Derivation

variable {rule : Rule} {memo : MemoName}

/-- The part is the tree of a phrase within the lexemes, which start behind `start` others and have
`stop` ones up to the end of the phrase. -/
def HasPhrase (memo : MemoName) (start : Nat) (lexemes : List Lexeme) (part : Expr × Nat) : Prop :=
  ∃ (rule : Rule) (d : Derivation rule) (front behind : List Lexeme),
    lexemes = front ++ d.lexemes ++ behind ∧ part.1 = d.expr memo ∧
      part.2 = start + (front ++ d.lexemes).length

theorem HasPhrase.append {start : Nat} {lexemes : List Lexeme} {part : Expr × Nat}
    (before after : List Lexeme) (h : HasPhrase memo (start + before.length) lexemes part) :
    HasPhrase memo start (before ++ lexemes ++ after) part := by
  obtain ⟨rule, d, front, behind, rfl, hpart, hstop⟩ := h
  refine ⟨rule, d, before ++ front, behind ++ after, by simp, hpart, ?_⟩
  simp only [hstop, List.length_append]
  omega

/-- The parts of two phrases with a mark between them, and the whole. -/
theorem HasPhrase.two {whole : Derivation rule} {left right : List Lexeme} {x : Lexeme}
    {start : Nat} {ls rs : List (Expr × Nat)} (hw : whole.lexemes = left ++ x :: right)
    (hl : ∀ part ∈ ls, HasPhrase memo start left part)
    (hr : ∀ part ∈ rs, HasPhrase memo (start + left.length + 1) right part) :
    ∀ part ∈ ls ++ rs ++ [(whole.expr memo, whole.stop start)],
      HasPhrase memo start (left ++ x :: right) part := by
  intro part hpart
  simp only [List.mem_append, List.mem_singleton] at hpart
  rcases hpart with (hpart | hpart) | rfl
  · exact .append [] (x :: right) (hl part hpart)
  · have hstart : start + (left ++ [x]).length = start + left.length + 1 := by simp [Nat.add_assoc]
    simpa using HasPhrase.append (left ++ [x]) [] (hstart ▸ hr part hpart)
  · exact ⟨rule, whole, [], [], by simp [hw], rfl, by simp [stop]⟩

theorem compounds_phrase (d : Derivation rule) (start : Nat) :
    ∀ part ∈ d.compounds memo start, HasPhrase memo start d.lexemes part := by
  induction d generalizing start with
  | unsigned | signed => exact fun _ h => nomatch h
  | literal d ih | single d ih | bare d ih | factor d ih | term d ih | whole d ih => exact ih start
  | parens d ih =>
    exact fun part hpart => .append [.mark .lparen] [.mark .rparen] (ih (start + 1) part hpart)
  | dice left right ihl ihr | raised left right ihl ihr | times _ left right ihl ihr
  | plus _ left right ihl ihr => exact .two rfl (ihl start) (ihr _)

/-- A part that is made before the place up to which another text has the same lexemes is the tree
of a phrase of lexemes of that text. -/
theorem phrase_before {d : Derivation rule} {lexemes : List Lexeme} {place : Nat}
    (htake : d.lexemes.take place = lexemes.take place) {part : Expr × Nat}
    (hpart : part ∈ d.compounds memo 0) (hle : part.2 ≤ place) :
    ∃ (rule : Rule) (phrase : Derivation rule), part.1 = phrase.expr memo ∧
      ∀ x ∈ phrase.lexemes, x ∈ lexemes := by
  obtain ⟨rule, phrase, front, behind, hall, hexpr, hend⟩ := d.compounds_phrase 0 part hpart
  refine ⟨rule, phrase, hexpr, fun x hx => List.mem_of_mem_take (i := place) ?_⟩
  have hlength : (front ++ phrase.lexemes).length ≤ place := by omega
  rw [← htake, hall, List.take_append, List.take_of_length_le hlength]
  simp [hx]

end Derivation

/-- Whatever the memos hold, an accepted formula is the tree that the grammar gives to its text. -/
theorem parse_accepted {limit : Limit.Reading} {memo : MemoName} {source : String} {e : Expr}
    {store later : Store} (h : parse limit memo source store = .ok e later) :
    ∃ (tokens : Tokens) (d : Derivation .sum), tokenize source = .ok tokens ∧
      d.lexemes = tokens.lexemes ∧ e = d.expr memo := by
  have hbuilt : Constructs limit memo _ _ _ := Expr.constructs_textless
  cases ht : tokenize source with
  | error e =>
    rw [parse_eq, ht] at h
    cases h
  | ok tokens =>
    by_cases hg : Grammatical tokens.lexemes
    · obtain ⟨d, hd⟩ := hg
      exact ⟨tokens, d, rfl, hd, ((parse_grammatical hbuilt ht d hd).of_ok trivial h).1.1⟩
    · obtain ⟨place, cause, -, -, d, -, hmeets⟩ := parse_not_grammatical hbuilt ht hg
      exact (hmeets.of_ok trivial h).1.elim

end DiceFormula
