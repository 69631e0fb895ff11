namespace DiceFormula

/-- From each state with `inv` the work ends in one with `inv` again. Its value meets `post`, its
fault meets `fail`. -/
def Meets (inv : σ → Prop) (work : EStateM ε σ α) (post : α → Prop) (fail : ε → Prop) : Prop :=
  ∀ s, inv s →
    match work s with
    | .ok a s' => post a ∧ inv s'
    | .error e s' => fail e ∧ inv s'

namespace Meets

variable {inv : σ → Prop} {post post' mid : α → Prop} {fail fail' : ε → Prop}
  {work : EStateM ε σ α}

theorem pure {a : α} (h : post a) : Meets inv (Pure.pure a : EStateM ε σ α) post fail :=
  fun _ hs => ⟨h, hs⟩

theorem throw {e : ε} (h : fail e) : Meets inv (throw e : EStateM ε σ α) post fail :=
  fun _ hs => ⟨h, hs⟩

theorem bind {post : β → Prop} {next : α → EStateM ε σ β} (h : Meets inv work mid fail)
    (hn : ∀ a, mid a → Meets inv (next a) post fail) : Meets inv (work >>= next) post fail := by
  intro s hs
  have hw := h s hs
  simp only [Bind.bind, EStateM.bind]
  cases hr : work s with
  | ok a s' =>
    rw [hr] at hw
    exact hn a hw.1 s' hw.2
  | error e s' =>
    rw [hr] at hw
    exact hw

/-- A guard that throws, and the work behind it. -/
theorem guard {c : Bool} {e : ε} {next : PUnit → EStateM ε σ α} (he : c = true → fail e)
    (hn : ¬ c = true → Meets inv (next ()) post fail) :
    Meets inv (if c = true then MonadExcept.throw e >>= next else next ()) post fail := by
  split
  · rename_i hc
    exact fun _ hs => ⟨he hc, hs⟩
  · rename_i hc
    exact hn hc

theorem mono (h : Meets inv work post fail) (hp : ∀ a, post a → post' a)
    (hf : ∀ e, fail e → fail' e) : Meets inv work post' fail' := by
  intro s hs
  have hw := h s hs
  split at hw
  · exact ⟨hp _ hw.1, hw.2⟩
  · exact ⟨hf _ hw.1, hw.2⟩

theorem weaken (h : Meets inv work post fail) (hp : ∀ a, post a → post' a) :
    Meets inv work post' fail :=
  h.mono hp fun _ he => he

theorem widen (h : Meets inv work post fail) (hf : ∀ e, fail e → fail' e) :
    Meets inv work post fail' :=
  h.mono (fun _ ha => ha) hf

/-- A fault is one that the work ends with in some state. -/
theorem faulted (h : Meets inv work post fail) :
    Meets inv work post fun e => fail e ∧ ∃ s s', work s = .error e s' := by
  intro s hs
  have hw := h s hs
  cases hr : work s with
  | ok a s' =>
    rw [hr] at hw
    exact hw
  | error e s' =>
    rw [hr] at hw
    exact ⟨⟨hw.1, s, s', hr⟩, hw.2⟩

/-- The promise about the value alone. -/
theorem anyFault (h : Meets inv work post fail) : Meets inv work post fun _ => True :=
  h.widen fun _ _ => trivial

theorem ofExcept_ok {r : Except ε α} {a : α} (hr : r = .ok a) (h : post a) :
    Meets inv (MonadExcept.ofExcept r : EStateM ε σ α) post fail := by
  subst hr
  exact Meets.pure h

theorem bind_ofExcept {post : β → Prop} {r : Except ε α} {a : α} {next : α → EStateM ε σ β}
    (hr : r = .ok a) (hn : Meets inv (next a) post fail) :
    Meets inv (MonadExcept.ofExcept r >>= next) post fail := by
  subst hr
  exact hn

theorem ofExcept_error {r : Except ε α} {e : ε} (hr : r = .error e) (h : fail e) :
    Meets inv (MonadExcept.ofExcept r : EStateM ε σ α) post fail := by
  subst hr
  exact Meets.throw h

theorem adaptExcept {f : ε → ε'} {fail : ε' → Prop}
    (h : Meets inv work post fun e => fail (f e)) :
    Meets inv (work.adaptExcept f) post fail := by
  intro s hs
  have hw := h s hs
  simp only [EStateM.adaptExcept]
  cases hr : work s <;> rw [hr] at hw <;> exact hw

/-- Work of which no fault meets its contract ends with a value. -/
theorem returns (h : Meets inv work post fail) (hf : ∀ e, ¬ fail e) {s : σ} (hs : inv s) :
    ∃ a s', work s = .ok a s' ∧ post a ∧ inv s' := by
  have hw := h s hs
  cases hr : work s with
  | ok a s' =>
    rw [hr] at hw
    exact ⟨a, s', rfl, hw⟩
  | error e s' =>
    rw [hr] at hw
    exact absurd hw.1 (hf e)

theorem of_ok (h : Meets inv work post fail) {s s' : σ} {a : α} (hs : inv s)
    (hr : work s = .ok a s') : post a ∧ inv s' := by
  have hw := h s hs
  rw [hr] at hw
  exact hw

theorem of_error (h : Meets inv work post fail) {s s' : σ} {e : ε} (hs : inv s)
    (hr : work s = .error e s') : fail e ∧ inv s' := by
  have hw := h s hs
  rw [hr] at hw
  exact hw

theorem any : Meets (fun _ => True) work (fun _ => True) fun _ => True := by
  intro s _
  split <;> exact ⟨trivial, trivial⟩

/-- What follows may take for granted what the value meets. -/
theorem bind_congr {next next' : α → EStateM ε σ β} (h : Meets (fun _ => True) work post fail)
    (hn : ∀ a, post a → next a = next' a) : work >>= next = work >>= next' := by
  funext s
  have hw := h s trivial
  simp only [Bind.bind, EStateM.bind]
  cases hr : work s with
  | ok a s' =>
    rw [hr] at hw
    exact congrFun (hn a hw.1) s'
  | error e s' => rfl

end Meets

/-- Where work ends with a value, what follows it goes on from there. -/
theorem bind_of_ok {work : EStateM ε σ α} {next : α → EStateM ε σ β} {a : α} {s s' : σ}
    (h : work s = .ok a s') : (work >>= next) s = next a s' := by
  simp only [Bind.bind, EStateM.bind, h]

theorem exists_of_bind_ok {work : EStateM ε σ α} {next : α → EStateM ε σ β} {b : β} {s last : σ}
    (h : (work >>= next) s = .ok b last) :
    ∃ a mid, work s = .ok a mid ∧ next a mid = .ok b last := by
  simp only [Bind.bind, EStateM.bind] at h
  cases hw : work s with
  | ok a mid =>
    rw [hw] at h
    exact ⟨a, mid, rfl, h⟩
  | error e mid =>
    rw [hw] at h
    cases h

theorem adaptExcept_ok {work : EStateM ε σ α} {f : ε → ε'} {a : α} {s s' : σ} :
    work.adaptExcept f s = .ok a s' ↔ work s = .ok a s' := by
  simp only [EStateM.adaptExcept]
  cases work s with
  | ok b later | error e later => simp

theorem adaptExcept_bind {work : EStateM ε σ α} {next : α → EStateM ε σ β} {f : ε → ε'} :
    (work >>= next).adaptExcept f = (do
      let a ← work.adaptExcept f
      (next a).adaptExcept f) := by
  funext s
  simp only [Bind.bind, EStateM.bind, EStateM.adaptExcept]
  cases work s <;> rfl

/-- However it ends, the work keeps `inv`. -/
def Keeps (inv : σ → Prop) (work : EStateM ε σ α) : Prop :=
  Meets inv work (fun _ => True) fun _ => True

namespace Keeps

variable {inv : σ → Prop} {work : EStateM ε σ α}

theorem pure {a : α} : Keeps inv (Pure.pure a : EStateM ε σ α) := Meets.pure trivial

theorem throw {e : ε} : Keeps inv (throw e : EStateM ε σ α) := Meets.throw trivial

theorem ofExcept {r : Except ε α} : Keeps inv (MonadExcept.ofExcept r : EStateM ε σ α) := by
  cases r with
  | ok a => exact pure
  | error e => exact throw

theorem bind {next : α → EStateM ε σ β} (h : Keeps inv work) (hn : ∀ a, Keeps inv (next a)) :
    Keeps inv (work >>= next) :=
  Meets.bind h fun a _ => hn a

theorem ite {c : Prop} [Decidable c] {other : EStateM ε σ α} (h : Keeps inv work)
    (ho : Keeps inv other) : Keeps inv (if c then work else other) := by
  split
  · exact h
  · exact ho

end Keeps

theorem Meets.keeps {inv : σ → Prop} {work : EStateM ε σ α} {post : α → Prop} {fail : ε → Prop}
    (h : Meets inv work post fail) : Keeps inv work :=
  h.mono (fun _ _ => trivial) fun _ _ => trivial

end DiceFormula
