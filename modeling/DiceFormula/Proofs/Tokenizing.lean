import DiceFormula.Cursor
import DiceFormula.Proofs.Lexing
import Mathlib.Data.Nat.Find

namespace DiceFormula

section Tokenize

variable {most : Option Nat} {source : String} {lexemes : List Lexeme} {tokens : Tokens}

theorem tokenize_spelled (h : Spells source.toList lexemes) :
    ∃ tokens : Tokens, tokens.lexemes = lexemes ∧ TokensFrom source.toList 0 tokens.items ∧
      tokenize source = .ok tokens ∧
      ∀ most, (∀ place, ¬ Overlong most source.toList place) →
        tokenizeWithin most source = .ok tokens := by
  obtain ⟨items, hlex, hitems, hscan⟩ := h.scan [] [] (.inr (by simp)) (.inl noDigitFirst_nil)
  simp only [List.length_nil, List.nil_append, List.append_nil] at hscan hitems
  have hall most (hread : ∀ place, ¬ Overlong most source.toList place) :
      tokenizeWithin most source = .ok ⟨items, source.length⟩ := by
    rw [tokenizeWithin, hscan most fun place _ _ => hread place]
    exact congrArg (fun items => Except.ok (Tokens.mk items source.length)) (List.append_nil items)
  exact ⟨⟨items, source.length⟩, hlex, hitems,
    tokenize_eq_ok.mpr (hall none fun _ => not_overlong_none), hall⟩

theorem tokenizeWithin_illegible {place : Nat} (h : FirstIllegible source.toList place)
    (hread : ∀ before < place, ¬ Overlong most source.toList before) :
    tokenizeWithin most source = .error (.character place) := by
  obtain ⟨front, c, behind, htext, hfront, hc, rfl⟩ := h
  obtain ⟨lexemes, hspells⟩ := exists_spells hfront
  have hd : c.isDigit = false := Bool.eq_false_iff.mpr fun hd => hc (.inl hd)
  obtain ⟨items, -, -, hscan⟩ :=
    hspells.scan [] (c :: behind) (.inr (by simp)) (.inl (noDigitFirst_cons hd))
  simp only [List.length_nil, List.nil_append, Nat.zero_add, ← htext] at hscan
  rw [tokenizeWithin, hscan most fun before _ hlt => hread before hlt, scan_illegible hc]
  rfl

theorem tokenizeWithin_overlong {place : Nat} (h : Overlong most source.toList place)
    (hlegible : ∀ c ∈ source.toList.take place, Legible c)
    (hread : ∀ before < place, ¬ Overlong most source.toList before) :
    ∃ refusal, tokenizeWithin most source = .error refusal ∧ refusal.fault = .number .digits := by
  obtain ⟨front, ds, behind, htext, hdigits, hbefore, hafter, rfl, hmany⟩ := h
  rw [htext, List.take_left] at hlegible
  obtain ⟨lexemes, hspells⟩ := exists_spells hlegible
  obtain ⟨items, -, -, hscan⟩ := hspells.scan [] (ds ++ behind) (.inr (by simp)) (.inr hbefore)
  simp only [List.length_nil, List.nil_append, Nat.zero_add, ← htext] at hscan
  have hsome : ds ≠ [] := by
    rintro rfl
    obtain ⟨bound, -, hlt⟩ := hmany
    cases hlt
  let digits : Digits := ⟨front.length, Nat.ofDigitChars 10 ds 0, ds.length⟩
  obtain ⟨refusal, hrefusal, hfault⟩ := @Digits.token?_of_lt most digits hmany
  refine ⟨refusal, ?_, hfault⟩
  rw [tokenizeWithin, hscan most fun before _ hlt => hread before hlt,
    scan_run hsome hdigits hafter, hrefusal]
  rfl

/-- A text with too long a number behind legible characters is refused for the first one. -/
theorem refused_digits (h : ∃ place, Overlong most source.toList place ∧
      ∀ c ∈ source.toList.take place, Legible c) :
    ∃ refusal, tokenizeWithin most source = .error refusal ∧ refusal.fault = .number .digits := by
  classical
  obtain ⟨hfound, hlegible⟩ := Nat.find_spec h
  refine tokenizeWithin_overlong hfound hlegible fun before hlt hbefore => ?_
  refine Nat.find_min h hlt ⟨hbefore, fun c hc => hlegible c ?_⟩
  exact List.take_subset_take_left _ (Nat.le_of_lt hlt) hc

/-- What comes first in the text decides what it is cut into: its tokens when it is legible and has
no number that is too long, and otherwise nothing, for an illegible character or for a number. -/
theorem tokenizeWithin_cases (most : Option Nat) (source : String) :
    (∃ tokens, tokenizeWithin most source = .ok tokens ∧ tokenize source = .ok tokens ∧
      ∀ place, ¬ Overlong most source.toList place) ∨
    (∃ place, tokenizeWithin most source = .error (.character place) ∧
      FirstIllegible source.toList place ∧
      ∀ before < place, ¬ Overlong most source.toList before) ∨
    ∃ refusal, tokenizeWithin most source = .error refusal ∧ refusal.fault = .number .digits ∧
      ∃ place, Overlong most source.toList place ∧
        ∀ c ∈ source.toList.take place, Legible c := by
  by_cases hover : ∃ place, Overlong most source.toList place ∧
      ∀ c ∈ source.toList.take place, Legible c
  · obtain ⟨refusal, hrefused, hfault⟩ := refused_digits hover
    exact .inr (.inr ⟨refusal, hrefused, hfault, hover⟩)
  · have hread {place : Nat} (hl : ∀ c ∈ source.toList.take place, Legible c) :
        ¬ Overlong most source.toList place := fun h => hover ⟨place, h, hl⟩
    by_cases hlegible : ∀ c ∈ source.toList, Legible c
    · have hall place : ¬ Overlong most source.toList place :=
        hread fun c hc => hlegible c (List.mem_of_mem_take hc)
      obtain ⟨lexemes, hspells⟩ := exists_spells hlegible
      obtain ⟨tokens, -, -, ht, hwithin⟩ := tokenize_spelled hspells
      exact .inl ⟨tokens, hwithin most hall, ht, hall⟩
    · obtain ⟨place, hplace⟩ := exists_firstIllegible hlegible
      have hbefore : ∀ before < place, ¬ Overlong most source.toList before := by
        refine fun before hlt => hread fun c hc => ?_
        obtain ⟨front, d, behind, htext, hfront, -, rfl⟩ := hplace
        rw [htext, List.take_append_of_le_length (Nat.le_of_lt hlt)] at hc
        exact hfront c (List.mem_of_mem_take hc)
      exact .inr (.inl ⟨place, tokenizeWithin_illegible hplace hbefore, hplace, hbefore⟩)

theorem tokenizeWithin_character_iff {place : Nat} :
    tokenizeWithin most source = .error (.character place) ↔
      FirstIllegible source.toList place ∧
        ∀ before < place, ¬ Overlong most source.toList before := by
  constructor
  · intro h
    rcases tokenizeWithin_cases most source with ⟨tokens, ht, -⟩ | ⟨place', hplace, hfirst⟩ |
      ⟨refusal, hrefused, hfault, -⟩
    · rw [ht] at h
      cases h
    · rw [hplace] at h
      cases h
      exact hfirst
    · rw [hrefused] at h
      cases h
      cases hfault
  · exact fun h => tokenizeWithin_illegible h.1 h.2

/-- A text is cut into tokens when it is legible, and then as it is spelled. -/
theorem tokenize_spells (h : tokenize source = .ok tokens) :
    Spells source.toList tokens.lexemes ∧ TokensFrom source.toList 0 tokens.items := by
  by_cases hlegible : ∀ c ∈ source.toList, Legible c
  · obtain ⟨lexemes, hspells⟩ := exists_spells hlegible
    obtain ⟨tokens', rfl, hitems, ht, -⟩ := tokenize_spelled hspells
    rw [h] at ht
    cases ht
    exact ⟨hspells, hitems⟩
  · obtain ⟨place, hplace⟩ := exists_firstIllegible hlegible
    have hrefused := tokenizeWithin_illegible hplace fun _ _ => not_overlong_none
    rw [tokenize_eq_ok.mp h] at hrefused
    cases hrefused

theorem tokenize_error_iff {e : FormatError} :
    tokenize source = .error e ↔
      e.cause = .unrecognized ∧ FirstIllegible source.toList e.position := by
  rw [tokenize_eq_error]
  constructor
  · intro h
    obtain ⟨place, hplace, rfl⟩ := h
    exact ⟨rfl, (tokenizeWithin_character_iff.mp hplace).1⟩
  · intro h
    obtain ⟨hcause, hplace⟩ := h
    refine ⟨e.position, ?_, by rw [← hcause]⟩
    exact tokenizeWithin_character_iff.mpr ⟨hplace, fun _ _ => not_overlong_none⟩

/-- The tokens with the end are in order, and they are those that stand in the text. -/
theorem tokenize_ended (h : tokenize source = .ok tokens) :
    (tokens.ended.Pairwise fun token next => token.position < next.position) ∧
      ∀ token, token ∈ tokens.ended ↔ TokenAt source.toList token := by
  obtain ⟨-, hitems⟩ := tokenize_spells h
  have hlength : tokens.length = source.toList.length := by
    rw [(tokenize_ok h).2, String.length_toList]
  have hinside {token : Token} (ht : token ∈ tokens.items) : token.position < tokens.length := by
    obtain ⟨hs, htoken, -⟩ := (hitems.mem_iff token).mp ht
    obtain ⟨c, hc, -⟩ := htoken.character hs
    rw [hlength]
    exact (List.getElem?_eq_some_iff.mp hc).1
  constructor
  · apply List.pairwise_append.mpr
    exact ⟨hitems.ascending, List.pairwise_singleton _ _, by simpa using fun t => hinside⟩
  · intro token
    rw [Tokens.ended, List.mem_append, hitems.mem_iff, List.mem_singleton, hlength]
    constructor
    · rintro (⟨-, htoken, -⟩ | rfl)
      · exact htoken
      · exact .stop
    · intro htoken
      by_cases hs : token.lexeme = .stop
      · cases htoken with
        | mark | number => cases hs
        | stop => exact .inr rfl
      · exact .inl ⟨hs, htoken, Nat.zero_le _⟩

theorem parse_illegible {e : FormatError} (h : tokenize source = .error e)
    (limit : Limit.Reading) (memo : MemoName) (store : Store) :
    parse limit memo source store = .error (.format e) store := by
  rw [parse_eq, h]
  rfl

/-- A blank ends a number, and zeros may lead one. -/
example : tokenize "12 3\td007" =
    .ok ⟨[⟨.number 12, 0⟩, ⟨.number 3, 3⟩, ⟨.mark .die, 5⟩, ⟨.number 7, 6⟩], 9⟩ := by
  cbv

/-- A number is read before the character behind it is looked at, with the zeros that lead it. -/
example : tokenizeWithin (some 2) "12+007_" = .error (.digits 3 (by decide)) := by
  cbv

end Tokenize

end DiceFormula
