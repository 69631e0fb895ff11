import DiceFormula.Proofs.Repeats
import DiceFormula.Proofs.Retention

namespace DiceFormula

/-- An entry that may be asked for while another one is computed: one with a shorter text, or for a
predicate the outcomes under the same text. -/
def Entry.Inside (inner outer : Entry) : Prop :=
  inner.key.length < outer.key.length ∨
    outer.aspect ≠ .outcomes ∧ inner = { outer with aspect := .outcomes }

namespace Entry

variable {x y z : Entry}

theorem Inside.irrefl : ¬ x.Inside x := by
  rintro (h | ⟨hne, h⟩)
  · exact Nat.lt_irrefl _ h
  · exact hne (congrArg Entry.aspect h)

theorem Inside.trans (hz : z.Inside y) (hy : y.Inside x) : z.Inside x := by
  rcases hz with hz | ⟨hne, rfl⟩
  · rcases hy with hy | ⟨-, rfl⟩
    · exact .inl (Nat.lt_trans hz hy)
    · exact .inl hz
  · rcases hy with hy | ⟨-, rfl⟩
    · exact .inl hy
    · exact absurd rfl hne

end Entry

/-- Whether there is an answer for the entry. -/
def Store.has (store : Store) (x : Entry) : Bool :=
  ((store.memo x.memo).find? x.aspect x.key).isSome

/-- How a lookup ends. Without a remembered answer one is computed. It is kept when there is none by
then either. -/
inductive Ending
  | found
  | kept
  | discarded
  | failed
  deriving DecidableEq

/-- A lookup, with the entries whose computations it is made in, the innermost first. -/
structure Lookup where
  entry : Entry
  around : List Entry
  ending : Ending

/-- Whether an answer has been computed to its end. -/
def Lookup.Completes (lookup : Lookup) (x : Entry) : Prop :=
  lookup.entry = x ∧ (lookup.ending = .kept ∨ lookup.ending = .discarded)

instance (lookup : Lookup) (x : Entry) : Decidable (lookup.Completes x) :=
  inferInstanceAs (Decidable (_ ∧ _))

def completions (x : Entry) (lookups : List Lookup) : Nat := lookups.countP fun l => l.Completes x

namespace Outline

/-- How the computation of an entry ends on its own. -/
def ending (x : Entry) : EStateM.Result Fault Store α → Ending
  | .error _ _ => .failed
  | .ok _ later => if later.has x then .discarded else .kept

/-- The lookups that the work makes on the memos, in the order in which they end. -/
def lookups : {ε α : Type} → {work : EStateM ε Store α} → Outline work → Store → List Lookup
  | _, _, _, .pure _, _ | _, _, _, .throw _, _ => []
  | _, _, _, @bind _ _ _ work _ first rest, store =>
    match work store with
    | .ok a later => first.lookups store ++ (rest a).lookups later
    | .error _ _ => first.lookups store
  | _, _, _, .adapt _ inner, store => inner.lookups store
  | _, _, _, @memoize memo aspect key work inner, store =>
    let x : Entry := ⟨memo, aspect, key⟩
    if store.has x then [⟨x, [], .found⟩]
    else
      (inner.lookups store).map (fun l => { l with around := l.around ++ [x] }) ++
        [⟨x, [], ending x (work store)⟩]

/-- Every entry that is looked up is allowed, and inside a computation it goes down. -/
def Descends : {ε α : Type} → {work : EStateM ε Store α} → (Entry → Prop) → Outline work → Prop
  | _, _, _, _, .pure _ | _, _, _, _, .throw _ => True
  | _, _, _, allowed, .bind first rest => first.Descends allowed ∧ ∀ a, (rest a).Descends allowed
  | _, _, _, allowed, .adapt _ inner => inner.Descends allowed
  | _, _, _, allowed, @memoize memo aspect key _ inner =>
    allowed ⟨memo, aspect, key⟩ ∧ inner.Descends (·.Inside ⟨memo, aspect, key⟩)

/-- Work whose lookups go down, whatever the first of them ask for. -/
def Ordered {ε α : Type} {work : EStateM ε Store α} (o : Outline work) : Prop :=
  o.Descends fun _ => True

end Outline

/-- An outline misses no lookup: work that makes none has one result, whatever the memos hold, and
leaves them as they are. -/
theorem Outline.eq_ofExcept_of_lookups {ε α : Type} {work : EStateM ε Store α} {o : Outline work}
    {store : Store} (h : o.lookups store = []) :
    ∃ r : Except ε α, work = MonadExcept.ofExcept r := by
  induction o generalizing store with
  | pure a => exact ⟨.ok a, rfl⟩
  | throw e => exact ⟨.error e, rfl⟩
  | @bind _ _ _ work next first rest ihf ihr =>
    have hfirst : first.lookups store = [] := by
      simp only [lookups] at h
      split at h
      · exact (List.append_eq_nil_iff.mp h).1
      · exact h
    obtain ⟨r, rfl⟩ := ihf hfirst
    cases r with
    | error e => exact ⟨.error e, rfl⟩
    | ok a =>
      obtain ⟨r, hr⟩ := ihr a (List.append_eq_nil_iff.mp h).2
      exact ⟨r, hr⟩
  | adapt f inner ih =>
    obtain ⟨r, rfl⟩ := ih h
    cases r with
    | ok a => exact ⟨.ok a, rfl⟩
    | error e => exact ⟨.error (f e), rfl⟩
  | memoize inner ih =>
    simp only [lookups] at h
    split at h <;> simp at h

/-- Work that is done again after it has given an answer computes nothing. -/
theorem Outline.found_again {ε α : Type} {work : EStateM ε Store α} (o : Outline work)
    {old new later : Store} {a : α} (h : work old = .ok a new) (hk : new.Kept later) :
    ∀ l ∈ o.lookups later, l.ending = .found ∧ l.around = [] := by
  induction o generalizing old new with
  | pure | throw => exact fun _ hl => by cases hl
  | @bind _ _ _ work next first rest ihf ihr =>
    obtain ⟨b, mid, hw, hnext⟩ := exists_of_bind_ok h
    have hmid : mid.Kept later := ((rest b).repeats _ _ _ hnext).1.trans hk
    have hagain : work later = .ok b later := (first.repeats _ _ _ hw).2 later hmid
    intro l hl
    simp only [lookups, hagain] at hl
    rcases List.mem_append.mp hl with hl | hl
    · exact ihf hw hmid l hl
    · exact ihr b hnext hk l hl
  | adapt f inner ih => exact ih (adaptExcept_ok.mp h) hk
  | @memoize memo aspect key work inner ih =>
    have hthere : later.has ⟨memo, aspect, key⟩ = true := by
      simp [Store.has, hk _ _ _ _ (memoize_stores h)]
    intro l hl
    simp only [lookups, hthere, if_true, List.mem_singleton] at hl
    subst hl
    exact ⟨rfl, rfl⟩

section Memos

variable {store : Store} {x y : Entry}

/-- Keeping an answer adds its entry and no other. -/
theorem Store.has_keep (answer : x.aspect.Answer) :
    (store.keep x.memo x.aspect x.key answer).2.has y = (decide (y = x) || store.has y) := by
  by_cases hy : y = x
  · subst hy
    simp [has, find?_keep_self]
  · have hfind : ((store.keep x.memo x.aspect x.key answer).2.memo y.memo).find? y.aspect y.key =
        (store.memo y.memo).find? y.aspect y.key := by
      by_cases hm : y.memo = x.memo
      · rw [hm, memo_keep_self, Memo.keep]
        cases (store.memo x.memo).find? x.aspect x.key with
        | some first => rfl
        | none =>
          refine Memo.find?_insert_of_ne fun h => hy ?_
          cases x
          cases y
          simp_all
      · rw [memo_keep_of_ne hm]
    simp [has, hfind, hy]

theorem leaves_memoize {work : Eval x.aspect.Answer} :
    leaves (memoize x.memo x.aspect x.key work) store =
      if store.has x then store
      else
        match work store with
        | .ok answer later => (later.keep x.memo x.aspect x.key answer).2
        | .error _ later => later := by
  rw [leaves, memoize_run, Store.has]
  cases (store.memo x.memo).find? x.aspect x.key with
  | some answer => rfl
  | none =>
    cases work store with
    | ok answer later | error fault later => rfl

end Memos

/-- Lookups that go down inside of each other, of which none discards what it has computed. The
entries that are new behind them are those that they have computed, each one once. -/
structure Orderly (allowed : Entry → Prop) (lookups : List Lookup) (before after : Store) :
    Prop where
  allows : ∀ l ∈ lookups, allowed l.entry
  inside : ∀ l ∈ lookups, ∀ outer ∈ l.around, l.entry.Inside outer
  keeps : ∀ l ∈ lookups, l.ending ≠ .discarded
  counts : ∀ x, completions x lookups + (before.has x).toNat = (after.has x).toNat

namespace Orderly

variable {allowed : Entry → Prop} {first rest : List Lookup} {before mid after : Store}

theorem nil : Orderly allowed [] before before := ⟨by simp, by simp, by simp, by simp [completions]⟩

theorem append (h : Orderly allowed first before mid) (hr : Orderly allowed rest mid after) :
    Orderly allowed (first ++ rest) before after where
  allows l hl := (List.mem_append.mp hl).elim (h.allows l) (hr.allows l)
  inside l hl := (List.mem_append.mp hl).elim (h.inside l) (hr.inside l)
  keeps l hl := (List.mem_append.mp hl).elim (h.keeps l) (hr.keeps l)
  counts x := by
    have hfirst := h.counts x
    have hrest := hr.counts x
    rw [completions, List.countP_append]
    simp only [completions] at hfirst hrest
    omega

/-- The lookups made while an entry is computed, seen from outside. -/
theorem around {x : Entry} (h : Orderly (·.Inside x) first before after)
    (hclosed : ∀ y : Entry, y.Inside x → allowed y) :
    Orderly allowed (first.map fun l => { l with around := l.around ++ [x] }) before after where
  allows := by
    simp only [List.forall_mem_map]
    exact fun l hl => hclosed _ (h.allows l hl)
  inside := by
    simp only [List.forall_mem_map, List.mem_append, List.mem_singleton]
    rintro l hl outer (houter | rfl)
    · exact h.inside l hl outer houter
    · exact h.allows l hl
  keeps := by
    simp only [List.forall_mem_map]
    exact h.keeps
  counts y := by
    rw [completions, List.countP_map]
    exact h.counts y

/-- An entry is not looked up while it is computed, so that it is not there behind either. -/
theorem has_self {x : Entry} (h : Orderly (·.Inside x) first before after) :
    after.has x = before.has x := by
  have hnone : completions x first = 0 := by
    refine List.countP_eq_zero.mpr fun l hl hc => ?_
    obtain ⟨rfl, -⟩ := of_decide_eq_true hc
    exact Entry.Inside.irrefl (h.allows l hl)
  have hcount := h.counts x
  rw [hnone, Nat.zero_add] at hcount
  cases hb : before.has x <;> cases ha : after.has x <;> simp_all

/-- A lookup that computes nothing to its end. -/
theorem single {x : Entry} {ending : Ending} (hx : allowed x)
    (he : ending = .found ∨ ending = .failed) :
    Orderly allowed [⟨x, [], ending⟩] before before where
  allows := by simpa using hx
  inside := by simp
  keeps := by rcases he with rfl | rfl <;> simp
  counts y := by rcases he with rfl | rfl <;> simp [completions, Lookup.Completes]

theorem keep {x : Entry} {answer : x.aspect.Answer} (hx : allowed x) (hb : before.has x = false) :
    Orderly allowed [⟨x, [], .kept⟩] before
      (before.keep x.memo x.aspect x.key answer).2 where
  allows := by simpa using hx
  inside := by simp
  keeps := by simp
  counts y := by
    rw [Store.has_keep]
    by_cases hy : y = x
    · simp [completions, Lookup.Completes, hy, hb]
    · simp [completions, Lookup.Completes, hy, Ne.symm hy]

/-- A lookup, when the computation of its entry is orderly. -/
theorem memoize {x : Entry} {work : Eval x.aspect.Answer} {inner : Outline work} {store : Store}
    (h : Orderly (·.Inside x) (inner.lookups store) store (leaves work store)) (hx : allowed x)
    (hclosed : ∀ y : Entry, y.Inside x → allowed y) :
    Orderly allowed ((@Outline.memoize x.memo x.aspect x.key work inner).lookups store) store
      (leaves (DiceFormula.memoize x.memo x.aspect x.key work) store) := by
  rw [leaves_memoize, Outline.lookups]
  split
  · exact single hx (.inl rfl)
  · rename_i hnew
    refine (h.around hclosed).append ?_
    have hself := h.has_self
    rw [leaves] at hself ⊢
    cases hr : work store with
    | error fault later => exact single hx (.inr rfl)
    | ok answer later =>
      rw [hr] at hself
      have hlater : later.has x = false := hself.trans (eq_false_of_ne_true hnew)
      have hending : Outline.ending x (.ok answer later) = .kept := by
        simp [Outline.ending, hlater]
      rw [hending]
      exact keep hx hlater

end Orderly

/-- Work whose lookups go down makes them in order. -/
theorem Outline.Descends.orderly {ε α : Type} {work : EStateM ε Store α} {o : Outline work}
    {allowed : Entry → Prop} (h : o.Descends allowed)
    (hclosed : ∀ x y : Entry, allowed x → y.Inside x → allowed y) (store : Store) :
    Orderly allowed (o.lookups store) store (leaves work store) := by
  induction o generalizing allowed store with
  | pure | throw => exact .nil
  | @bind _ _ _ work next first rest ihf ihr =>
    obtain ⟨hfirst, hrest⟩ := h
    have hf := ihf hfirst hclosed store
    rw [leaves] at hf ⊢
    simp only [Outline.lookups, Bind.bind, EStateM.bind]
    cases hr : work store with
    | error e later =>
      rw [hr] at hf
      exact hf
    | ok a later =>
      rw [hr] at hf
      exact hf.append (ihr a (hrest a) hclosed later)
  | @adapt _ _ _ work f inner ih =>
    have hi := ih h hclosed store
    rw [leaves] at hi ⊢
    simp only [Outline.lookups, EStateM.adaptExcept]
    cases hr : work store with
    | ok a later | error e later =>
      rw [hr] at hi
      exact hi
  | memoize inner ih =>
    obtain ⟨hx, hinner⟩ := h
    have hi := ih hinner (fun _ _ hx hy => hy.trans hx) store
    exact Orderly.memoize hi hx fun y => hclosed _ y hx

end DiceFormula
