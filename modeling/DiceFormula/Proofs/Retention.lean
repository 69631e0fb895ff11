import DiceFormula.Proofs.Footprint

namespace DiceFormula

namespace Session

/-- The memos behind an action. Those that name what they build or look at nothing leave them. -/
def storeAfter (session : Session) : Action → Store
  | .parse _ memo source => leaves (parse session.limit memo source) session.store
  | .build _ memo (.roll count faces) =>
    match session.names.lookup count, session.names.lookup faces with
    | some count, some faces => leaves (Expr.mkRoll session.limit memo count faces) session.store
    | _, _ => session.store
  | .build _ memo (.binary op left right) =>
    match session.names.lookup left, session.names.lookup right with
    | some left, some right => leaves (Expr.mkBinary session.limit memo op left right) session.store
    | _, _ => session.store
  | .ask name query =>
    match session.names.lookup name with
    | some e => leaves (e.ask session.limit query) session.store
    | none => session.store
  | .clear memo => session.store.set memo {}
  | .memoize memo aspect key value inner failure =>
    leaves (memoize memo aspect key (planted memo aspect key value inner failure)) session.store
  | .build _ _ .blank | .build _ _ (.number _) | .part .. | .memoOf _ | .setLimit _ | .dump _ =>
    session.store

theorem step_leaves (session : Session) (action : Action) :
    (session.step action).2 = leaves (perform action) session := by
  simp only [step, leaves]
  cases perform action session with
  | ok report next | error fault next => rfl

/-- Work on the memos, and the naming of what it gives. -/
theorem leaves_eval_bind (work : Eval Expr) (name : String) (session : Session) :
    (leaves (eval work >>= bind name) session).store = leaves work session.store := by
  simp only [leaves, Bind.bind, EStateM.bind, eval]
  cases work session.store with
  | ok e store | error fault store => rfl

/-- Naming an operand and then going on. -/
theorem leaves_find_bind {name : String} {next : Expr → Work α} (session : Session) :
    leaves (find name >>= next) session =
      match session.names.lookup name with
      | some e => leaves (next e) session
      | none => session := by
  simp only [leaves, Bind.bind, EStateM.bind, find_run]
  cases session.names.lookup name with
  | some e | none => rfl

/-- Looking at the session and then going on. -/
theorem leaves_get_bind {next : Session → Work α} (session : Session) :
    leaves (get >>= next) session = leaves (next session) session := by
  have hget : (get : Work Session) session = .ok session session := rfl
  simp only [leaves, Bind.bind, EStateM.bind, hget]

theorem step_store (session : Session) (action : Action) :
    (session.step action).2.store = session.storeAfter action := by
  rw [step_leaves]
  cases action with
  | parse name memo source =>
    simp only [perform, leaves_get_bind, leaves_eval_bind, storeAfter]
  | build name memo shape =>
    simp only [perform, leaves_get_bind]
    cases shape with
    | blank | number => rfl
    | roll count faces =>
      simp only [leaves_find_bind, storeAfter]
      cases session.names.lookup count with
      | none => rfl
      | some count =>
        cases session.names.lookup faces with
        | none => rfl
        | some faces => exact leaves_eval_bind _ name session
    | binary op left right =>
      simp only [leaves_find_bind, storeAfter]
      cases session.names.lookup left with
      | none => rfl
      | some left =>
        cases session.names.lookup right with
        | none => rfl
        | some right => exact leaves_eval_bind _ name session
  | part name whole part =>
    simp only [perform, leaves_find_bind]
    cases session.names.lookup whole with
    | none => rfl
    | some e =>
      simp only
      cases e.part? part with
      | none | some child => rfl
  | ask name query =>
    simp only [perform, leaves, Bind.bind, EStateM.bind, find_run, storeAfter]
    cases session.names.lookup name with
    | none => rfl
    | some e =>
      simp only
      cases e.ask session.limit query session.store with
      | ok answer store | error fault store => rfl
  | memoOf name =>
    simp only [perform, leaves_find_bind]
    cases session.names.lookup name with
    | none | some e => rfl
  | setLimit value | clear memo | dump memo => rfl
  | memoize memo aspect key value inner failure =>
    simp only [perform, leaves_get_bind, storeAfter]
    simp only [leaves, Bind.bind, EStateM.bind, eval]
    cases memoize memo aspect key (planted memo aspect key value inner failure) session.store with
    | ok answer store | error fault store => rfl

/-- Where an action may add entries: anywhere in the memo that a formula is read into, at the key of
an entry that it memoizes, and at the texts of the parts of what it looks at. -/
def Touches (session : Session) : Action → MemoName → String → Prop
  | .parse _ target _, memo, _ => memo = target
  | .build _ _ (.roll first second), memo, key | .build _ _ (.binary _ first second), memo, key =>
    ∃ name ∈ [first, second], ∃ e, session.names.lookup name = some e ∧ e.HasKey memo key
  | .ask name _, memo, key => ∃ e, session.names.lookup name = some e ∧ e.HasKey memo key
  | .memoize target _ text _ _ _, memo, key => memo = target ∧ key = text
  | .build _ _ .blank, _, _ | .build _ _ (.number _), _, _ | .part .., _, _ | .memoOf _, _, _
  | .setLimit _, _, _ | .clear _, _, _ | .dump _, _, _ => False

theorem planted_keeps {inv : Store → Prop} {allowed : MemoName → String → Prop}
    (ha : Store.Admits inv allowed) {memo : MemoName} {aspect : Aspect} {key : String}
    (hk : allowed memo key) {value : aspect.Answer} {inner : Option aspect.Answer}
    {failure : Option Fault} : Keeps inv (planted memo aspect key value inner failure) := by
  have hfirst (first : aspect.Answer) : Keeps inv (memoize memo aspect key (pure first)) :=
    ha.memoize hk (Meets.pure trivial)
  cases failure with
  | some fault =>
    cases inner with
    | some first => exact (hfirst first).bind fun _ => Keeps.throw
    | none => exact Keeps.throw
  | none =>
    cases inner with
    | some first => exact (hfirst first).bind fun _ => Keeps.pure
    | none => exact Keeps.pure

/-- The memos of a session do not forget until they are cleared. -/
theorem step_extends (session : Session) {action : Action} (h : ∀ memo, action ≠ .clear memo) :
    session.store.Extends (session.Touches action) (session.step action).2.store := by
  rw [step_store]
  have ha : Store.Admits (session.store.Extends (session.Touches action))
      (session.Touches action) := Store.Extends.admits
  cases action with
  | parse name memo source =>
    exact (parse_constructs (Expr.constructs_allowed ha fun _ => rfl) source).keeps.leaves .refl
  | build name memo shape =>
    cases shape with
    | blank | number => exact .refl
    | roll first second =>
      simp only [storeAfter]
      split
      · rename_i count faces hc hf
        refine (Expr.mkRoll_textless ha ?_ ?_).keeps.leaves .refl
        · exact count.keysIn_hasKey.mono fun _ _ hk => ⟨first, by simp, count, hc, hk⟩
        · exact faces.keysIn_hasKey.mono fun _ _ hk => ⟨second, by simp, faces, hf, hk⟩
      · exact .refl
    | binary op first second =>
      simp only [storeAfter]
      split
      · rename_i left right hl hr
        refine (Expr.mkBinary_textless ha ?_ ?_).keeps.leaves .refl
        · exact left.keysIn_hasKey.mono fun _ _ hk => ⟨first, by simp, left, hl, hk⟩
        · exact right.keysIn_hasKey.mono fun _ _ hk => ⟨second, by simp, right, hr, hk⟩
      · exact .refl
  | ask name query =>
    simp only [storeAfter]
    cases hl : session.names.lookup name with
    | some e =>
      refine (Expr.ask_allowed ha ?_ query).leaves .refl
      exact e.keysIn_hasKey.mono fun _ _ hk => ⟨e, hl, hk⟩
    | none => exact .refl
  | clear memo => exact absurd rfl (h memo)
  | memoize memo aspect key value inner failure =>
    refine Keeps.leaves (ha.memoize ⟨rfl, rfl⟩ (planted_keeps ha ⟨rfl, rfl⟩)) .refl
  | part | memoOf | setLimit | dump => exact .refl

/-- No entry is lost or changed but by clearing its memo. -/
theorem step_find? (session : Session) {action : Action} {memo : MemoName} {aspect : Aspect}
    {key : String} {answer : aspect.Answer} (hc : action ≠ .clear memo)
    (h : (session.store.memo memo).find? aspect key = some answer) :
    ((session.step action).2.store.memo memo).find? aspect key = some answer := by
  by_cases hother : ∃ other, action = .clear other
  · obtain ⟨other, rfl⟩ := hother
    have hne : memo ≠ other := fun he => hc (he ▸ rfl)
    rw [step_store, storeAfter, Store.memo_set, if_neg hne]
    exact h
  · exact (session.step_extends fun other he => hother ⟨other, he⟩).kept h

theorem run_find? (session : Session) {actions : List Action} {memo : MemoName} {aspect : Aspect}
    {key : String} {answer : aspect.Answer} (hc : .clear memo ∉ actions)
    (h : (session.store.memo memo).find? aspect key = some answer) :
    ∀ entry ∈ session.run actions, (entry.2.store.memo memo).find? aspect key = some answer := by
  induction actions generalizing session with
  | nil => exact fun _ hm => nomatch hm
  | cons action actions ih =>
    obtain ⟨hne, hrest⟩ := List.ne_and_not_mem_of_not_mem_cons hc
    have hstep := session.step_find? hne.symm h
    intro entry hm
    rcases List.mem_cons.mp hm with rfl | hm
    · exact hstep
    · exact ih _ hrest hstep entry hm

/-- A computation for a memo whose entry is not there yet. -/
theorem planted_run {memo : MemoName} {aspect : Aspect} {key : String} {value : aspect.Answer}
    {inner : Option aspect.Answer} {failure : Option Fault} {store : Store}
    (hnone : (store.memo memo).find? aspect key = none) :
    planted memo aspect key value inner failure store =
      let later := inner.elim store fun first => (store.keep memo aspect key first).2
      match failure with
      | some fault => .error fault later
      | none => .ok value later := by
  cases inner with
  | none => cases failure <;> rfl
  | some first =>
    have hw : memoize memo aspect key (pure first) store =
        .ok (store.keep memo aspect key first).1 (store.keep memo aspect key first).2 := by
      rw [memoize_run, hnone]
      rfl
    simp only [planted, Bind.bind, EStateM.bind, hw]
    cases failure <;> rfl

theorem step_memoize_run (session : Session) {memo : MemoName} {aspect : Aspect} {key : String}
    {value : aspect.Answer} {inner : Option aspect.Answer} {failure : Option Fault} :
    session.step (.memoize memo aspect key value inner failure) =
      match memoize memo aspect key (planted memo aspect key value inner failure) session.store with
      | .ok answer store =>
        (.ok (.memoized aspect answer ((session.store.memo memo).find? aspect key).isNone),
          { session with store })
      | .error fault store => (.error fault, { session with store }) := by
  have hget : (get : Work Session) session = .ok session session := rfl
  simp only [step, perform, Bind.bind, EStateM.bind, hget, eval]
  cases memoize memo aspect key (planted memo aspect key value inner failure) session.store with
  | ok answer store | error fault store => rfl

/-- An entry that is there is given as it is. Otherwise the work fails or gives its value, but what
it has remembered on the way stands instead of the value, and also behind a failure. -/
theorem step_memoize (session : Session) (memo : MemoName) (aspect : Aspect) (key : String)
    (value : aspect.Answer) (inner : Option aspect.Answer) (failure : Option Fault) :
    let after := session.step (.memoize memo aspect key value inner failure)
    let entry := (after.2.store.memo memo).find? aspect key
    match (session.store.memo memo).find? aspect key, failure with
    | some known, _ => after.1 = .ok (.memoized aspect known false) ∧ entry = some known
    | none, some fault => after.1 = .error fault ∧ entry = inner
    | none, none =>
      after.1 = .ok (.memoized aspect (inner.getD value) true) ∧
        entry = some (inner.getD value) := by
  rw [step_memoize_run, memoize_run]
  cases hk : (session.store.memo memo).find? aspect key with
  | some known => exact ⟨rfl, hk⟩
  | none =>
    rw [planted_run hk]
    cases failure with
    | some fault =>
      cases inner with
      | none => exact ⟨rfl, hk⟩
      | some first => exact ⟨rfl, by simp [Store.find?_keep_self, hk]⟩
    | none =>
      cases inner with
      | none | some first => simp [Store.find?_keep_self, Store.keep_fst, hk]

/-- Memos only grow until they are cleared. A question adds entries for the parts of its expression,
each to the memo of the part. What is remembered first under a key is what is given and what stays,
and work that fails is not remembered. A formula keeps to the memo that it is read into. -/
theorem entries_written_once (session : Session) :
    (∀ (actions : List Action) (memo : MemoName) (aspect : Aspect) (key : String)
        (answer : aspect.Answer), .clear memo ∉ actions →
      (session.store.memo memo).find? aspect key = some answer →
      ∀ entry ∈ session.run actions,
        (entry.2.store.memo memo).find? aspect key = some answer) ∧
    (∀ action, (∀ memo, action ≠ .clear memo) →
      session.store.Extends (session.Touches action) (session.step action).2.store) ∧
    (∀ (memo : MemoName) (aspect : Aspect) (key : String) (work : Eval aspect.Answer)
        (store : Store),
      (∀ answer later, memoize memo aspect key work store = .ok answer later →
        (later.memo memo).find? aspect key = some answer) ∧
      (∀ answer first mid, (store.memo memo).find? aspect key = none →
        work store = .ok answer mid → (mid.memo memo).find? aspect key = some first →
        ∃ later, memoize memo aspect key work store = .ok first later ∧
          later.memo = mid.memo) ∧
      (∀ fault later, memoize memo aspect key work store = .error fault later ↔
        (store.memo memo).find? aspect key = none ∧ work store = .error fault later)) ∧
    (∀ (memo : MemoName) (aspect : Aspect) (key : String) (value : aspect.Answer)
        (inner : Option aspect.Answer) (failure : Option Fault),
      let after := session.step (.memoize memo aspect key value inner failure)
      let entry := (after.2.store.memo memo).find? aspect key
      match (session.store.memo memo).find? aspect key, failure with
      | some known, _ => after.1 = .ok (.memoized aspect known false) ∧ entry = some known
      | none, some fault => after.1 = .error fault ∧ entry = inner
      | none, none =>
        after.1 = .ok (.memoized aspect (inner.getD value) true) ∧
          entry = some (inner.getD value)) ∧
    ∀ (limit : Limit.Reading) (memo other : MemoName) (source : String) (store : Store),
      other ≠ memo →
      (leaves (parse limit memo source) store).memo other = store.memo other ∧
      ∀ e later, parse limit memo source store = .ok e later →
        ∀ (limit' : Limit.Reading) (query : Query) (store' : Store),
          (leaves (e.ask limit' query) store').memo other = store'.memo other := by
  refine ⟨fun _ _ _ _ _ hc h => session.run_find? hc h, fun _ h => session.step_extends h,
    fun _ _ _ _ _ => ⟨fun _ _ => memoize_stores, fun _ _ _ => memoize_first,
      fun _ _ => memoize_error⟩, session.step_memoize, ?_⟩
  intro limit memo other source store hne
  refine ⟨parse_untouched hne, fun e later h limit' query store' => ?_⟩
  refine e.ask_untouched (fun part hpart => ?_) query store'
  rw [parse_in_memo h part hpart]
  exact hne.symm

theorem entries_written_once_planted :
    let session := (({} : Session).step (.memoize "x" .zero "1d6" true (some false) none)).2
    (session.store.memo "x").find? .zero "1d6" = some false ∧
      ∀ entry ∈ session.run [.parse "a" "x" "(1d6)/(1d6)", .clear "y", .ask "a" .mayBeZero],
        (entry.2.store.memo "x").find? .zero "1d6" = some false := by
  intro session
  have hplanted : (session.store.memo "x").find? .zero "1d6" = some false := by decide +kernel
  refine ⟨hplanted, (entries_written_once session).1 _ _ _ _ _ ?_ hplanted⟩
  simp

end Session

end DiceFormula
