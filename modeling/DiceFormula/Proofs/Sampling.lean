import DiceFormula.Proofs.Contract
import DiceFormula.Proofs.Operators
import DiceFormula.Proofs.Values
import DiceFormula.Proofs.Watching

namespace DiceFormula

/-- Every draw between integer bounds that leave a value has an answer between them. -/
def Roller.InRange (roller : Roller σ) : Prop :=
  ∀ state low high, low ≤ high → ∃ v state',
    roller.draw low (.integer high) state = .ok (.integer v) state' ∧ low ≤ v ∧ v ≤ high

/-- Nothing that a sampler meets can go wrong. -/
def Event.Fine : Event → Prop
  | count value | faces value => ∃ n, value = .integer n ∧ 0 ≤ n
  | operand op value => ∃ y, value = .integer y ∧ (op = .div → y ≠ 0) ∧ (op = .pow → 0 ≤ y)
  | draw low high => ∃ n, low = 1 ∧ high = .integer n ∧ 1 ≤ n

/-- All events written down so far are fine. -/
def Uneventful (state : σ × List Event) : Prop := ∀ event ∈ state.2, event.Fine

theorem Uneventful.cons {state state' : σ} {events : List Event} {event : Event}
    (h : Uneventful (state, events)) (he : event.Fine) : Uneventful (state', event :: events) := by
  intro event' hm
  rcases List.mem_cons.mp hm with rfl | hm
  · exact he
  · exact h event' hm

theorem note_meets {event : Event} (he : event.Fine) :
    Meets (σ := σ × List Event) Uneventful (note event) (fun _ => True) fun _ => False :=
  fun _ hs => ⟨trivial, Uneventful.cons hs he⟩

section Watched

variable {roller : Roller σ}

theorem single_meets (h : roller.InRange) {faces : Int} (hf : 0 ≤ faces) :
    Meets Uneventful (roller.watched.single (.integer faces))
      (fun r => ∃ shown, r = .integer shown ∧ Shows faces shown) fun _ => False := by
  unfold Roller.single
  by_cases h0 : faces = 0
  · rw [if_pos (by simpa [Number.isZero] using h0)]
    exact Meets.pure ⟨0, rfl, .inl ⟨h0, rfl⟩⟩
  · rw [if_neg (by simpa [Number.isZero] using h0)]
    intro state hs
    obtain ⟨v, state', hv, hlo, hhi⟩ := h state.1 1 faces (by omega)
    simp only [Roller.watched, hv]
    exact ⟨⟨v, rfl, .inr ⟨hlo, hhi⟩⟩, Uneventful.cons hs ⟨faces, rfl, rfl, by omega⟩⟩

theorem total_meets {inv : σ → Prop} (faces : Int → Prop) {die : Sampling σ Number}
    (h : Meets inv die (fun r => ∃ shown, r = .integer shown ∧ ∃ f, faces f ∧ Shows f shown)
      fun _ => False) {sum : Int} {n : Nat} :
    Meets inv (Sampling.total die (.integer sum) n)
      (fun r => ∃ v, r = .integer (sum + v) ∧ Throws faces n v) fun _ => False := by
  induction n generalizing sum with
  | zero => exact Meets.pure ⟨0, by simp, rfl⟩
  | succ n ih =>
    refine Meets.bind h ?_
    intro a ha
    obtain ⟨shown, rfl, f, hf, hs⟩ := ha
    refine Meets.bind_ofExcept (a := Number.integer (sum + shown)) rfl ?_
    refine ih.weaken ?_
    intro a ha
    obtain ⟨v, rfl, hv⟩ := ha
    exact ⟨shown + v, by rw [Int.add_assoc], f, shown, v, hf, hs, hv, rfl⟩

/-- A safe expression is sampled to one of its values, and everything on the way is fine. -/
theorem Expr.watch_meets (h : roller.InRange) {e : Expr} (he : e.Safe) :
    Meets Uneventful (e.watch roller) (fun r => ∃ v, r = .integer v ∧ e.Yields v)
      fun _ => False := by
  induction e with
  | blank => exact he.elim
  | number _ value => exact Meets.pure ⟨value, rfl, rfl⟩
  | roll _ count faces ihc ihf =>
    obtain ⟨hc, hf, hcount, hfaces⟩ := he
    refine Meets.bind (ihc hc) ?_
    intro a ha
    obtain ⟨n, rfl, hn⟩ := ha
    refine Meets.bind (note_meets ⟨n, rfl, hcount n hn⟩) fun _ _ => ?_
    refine (total_meets faces.Yields (Meets.bind (ihf hf) ?_)).weaken ?_
    · intro a ha
      obtain ⟨f, rfl, hy⟩ := ha
      refine Meets.bind (note_meets ⟨f, rfl, hfaces f hy⟩) fun _ _ => ?_
      refine (single_meets h (hfaces f hy)).weaken ?_
      intro a ha
      obtain ⟨shown, rfl, hs⟩ := ha
      exact ⟨shown, rfl, f, hy, hs⟩
    · intro a ha
      obtain ⟨v, rfl, hv⟩ := ha
      exact ⟨v, by rw [Int.zero_add], n, hn, hv⟩
  | binary _ op left right ihl ihr =>
    obtain ⟨hl, hr, hw⟩ := he
    refine Meets.bind (ihl hl) ?_
    intro a ha
    obtain ⟨x, rfl, hx⟩ := ha
    refine Meets.bind (ihr hr) ?_
    intro a ha
    obtain ⟨y, rfl, hy⟩ := ha
    have hfine : (Event.operand op (.integer y)).Fine := by
      refine ⟨y, rfl, ?_, ?_⟩
      · intro h
        subst h
        simpa [Op.isWholeAt] using hw y hy
      · intro h
        subst h
        simpa [Op.isWholeAt] using hw y hy
    refine Meets.bind (note_meets hfine) fun _ _ => ?_
    exact Meets.ofExcept_ok (Op.apply_integers (hw y hy)) ⟨_, rfl, x, y, hx, hy, rfl⟩

end Watched

/-- A source that deals given values in order, each one brought between the bounds of its draw.
Behind them it deals the lower bound. -/
def Roller.dealt : Roller (List Int) where
  draw low high draws :=
    match high, draws with
    | .integer _, [] => .ok (.integer low) []
    | .integer high, v :: rest => .ok (.integer (max low (min v high))) rest
    | _, draws => .error (.number .unsupported) draws

theorem Roller.dealt_inRange : Roller.dealt.InRange := by
  intro draws low high h
  cases draws with
  | nil => exact ⟨low, [], rfl, by omega, h⟩
  | cons v rest => exact ⟨max low (min v high), rest, rfl, by omega, by omega⟩

/-- Some dealt values lead the work to a value, and no others are used up. -/
def Deals (work : Sampling (List Int) α) (a : α) : Prop :=
  ∃ draws, ∀ rest, work (draws ++ rest) = .ok a rest

namespace Deals

theorem pure {a : α} : Deals (Pure.pure a) a := ⟨[], fun _ => rfl⟩

theorem ofExcept {r : Except Fault α} {a : α} (h : r = .ok a) :
    Deals (MonadExcept.ofExcept r) a := by
  subst h
  exact pure

theorem bind {work : Sampling (List Int) α} {next : α → Sampling (List Int) β} {a : α} {b : β}
    (h : Deals work a) (hn : Deals (next a) b) : Deals (work >>= next) b := by
  obtain ⟨draws, hd⟩ := h
  obtain ⟨draws', hd'⟩ := hn
  refine ⟨draws ++ draws', fun rest => ?_⟩
  simp only [Bind.bind, EStateM.bind, List.append_assoc, hd]
  exact hd' rest

theorem single {faces shown : Int} (h : Shows faces shown) :
    Deals (Roller.dealt.single (.integer faces)) (.integer shown) := by
  unfold Roller.single
  rcases h with ⟨rfl, rfl⟩ | ⟨hlo, hhi⟩
  · exact pure
  · have hf : faces ≠ 0 := by omega
    rw [if_neg (by simpa [Number.isZero] using hf)]
    have hv : max 1 (min shown faces) = shown := by omega
    exact ⟨[shown], fun rest => by simp [Roller.dealt, hv]⟩

theorem total {faces : Int → Prop} {die : Sampling (List Int) Number}
    (h : ∀ f shown, faces f → Shows f shown → Deals die (.integer shown)) {sum v : Int} {n : Nat}
    (hv : Throws faces n v) : Deals (Sampling.total die (.integer sum) n) (.integer (sum + v)) := by
  induction n generalizing sum v with
  | zero =>
    cases hv
    rw [Int.add_zero]
    exact pure
  | succ n ih =>
    obtain ⟨f, shown, rest, hf, hs, hr, rfl⟩ := hv
    refine (h f shown hf hs).bind ((ofExcept (a := Number.integer (sum + shown)) rfl).bind ?_)
    rw [← Int.add_assoc]
    exact ih hr

end Deals

/-- Every value of a safe expression is what some dealt values lead to. -/
theorem Expr.sample_deals {e : Expr} (he : e.Safe) {v : Int} (hv : e.Yields v) :
    Deals (e.sample Roller.dealt) (.integer v) := by
  induction e generalizing v with
  | blank => exact he.elim
  | number =>
    cases hv
    exact Deals.pure
  | roll _ count faces ihc ihf =>
    obtain ⟨n, hn, hthrows⟩ := hv
    have hdie : ∀ f shown, faces.Yields f → Shows f shown →
        Deals (do Roller.dealt.single (← faces.sample Roller.dealt)) (.integer shown) :=
      fun f shown hf hs => (ihf he.2.1 hf).bind (Deals.single hs)
    have htotal : Deals (Sampling.total _ (.integer 0) n.toNat) (.integer (0 + v)) :=
      Deals.total hdie hthrows
    rw [Int.zero_add] at htotal
    exact (ihc he.1 hn).bind htotal
  | binary _ op left right ihl ihr =>
    obtain ⟨x, y, hx, hy, rfl⟩ := hv
    exact (ihl he.1 hx).bind ((ihr he.2.1 hy).bind
      (Deals.ofExcept (Op.apply_integers (he.2.2 y hy))))

/-- A safe expression can be sampled from every source in range. Its watched run ends in the same
way, at one of its values, with fine events only. -/
theorem Expr.sample_watched {roller : Roller σ} (h : roller.InRange) {e : Expr} (he : e.Safe)
    (start : σ) :
    ∃ v stop events, e.watch roller (start, []) = .ok (.integer v) (stop, events) ∧
      e.sample roller start = .ok (.integer v) stop ∧ e.Yields v ∧ ∀ event ∈ events, event.Fine := by
  have hstart : Uneventful (start, ([] : List Event)) := by simp [Uneventful]
  obtain ⟨_, ⟨stop, events⟩, hrun, ⟨v, rfl, hv⟩, hfine⟩ :=
    (watch_meets h he).returns (fun _ hf => hf) hstart
  refine ⟨v, stop, events, hrun, ?_, hv, hfine⟩
  rw [← watch_erases start [], hrun]
  rfl

/-- The values of a safe expression are the samples from all sources in range. -/
theorem Expr.yields_iff_sample {e : Expr} (he : e.Safe) {v : Int} :
    e.Yields v ↔ ∃ (σ : Type) (roller : Roller σ) (start stop : σ),
      roller.InRange ∧ e.sample roller start = .ok (.integer v) stop := by
  constructor
  · intro hv
    obtain ⟨draws, hd⟩ := sample_deals he hv
    exact ⟨List Int, Roller.dealt, draws, [], Roller.dealt_inRange, by simpa using hd []⟩
  · intro h
    obtain ⟨σ, roller, start, stop, h, hs⟩ := h
    obtain ⟨w, stop', -, -, hw, hy, -⟩ := sample_watched h he start
    rw [hs] at hw
    cases hw
    exact hy

end DiceFormula
