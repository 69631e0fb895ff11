import DiceFormula.Proofs.Footprint
import DiceFormula.Proofs.Limits
import Mathlib

namespace DiceFormula

/-- A part that evaluation comes to, and the parts around it, the innermost first. -/
structure Visit where
  part : Expr
  around : List Expr

/-- The same visit as one to a part of `e`. -/
def Visit.within (e : Expr) (visit : Visit) : Visit :=
  { visit with around := visit.around ++ [e] }

namespace Expr

/-- Every die with these faces is blank. -/
def Blank (faces : Expr) : Prop := ∀ f, faces.Yields f → f = 0

open Classical in
/-- All parts in the order in which evaluation comes to them: operands from left to right and before
the whole, but the faces of a roll before its count. The count of blank dice is left out. -/
noncomputable def visits : Expr → List Visit
  | blank memo => [⟨blank memo, []⟩]
  | number memo value => [⟨number memo value, []⟩]
  | roll memo count faces =>
    let e := roll memo count faces
    faces.visits.map (Visit.within e) ++
      (if faces.Blank then [] else count.visits.map (Visit.within e)) ++ [⟨e, []⟩]
  | binary memo op left right =>
    let e := binary memo op left right
    left.visits.map (Visit.within e) ++ right.visits.map (Visit.within e) ++ [⟨e, []⟩]

/-- The part goes through more pairs of operands than `bound`. -/
def Exceeds (bound : Nat) (e : Expr) : Prop := e.Enumerates ∧ bound < e.pairs

/-- No part that evaluation comes to goes through too many pairs. -/
def Fits (bound : Nat) (e : Expr) : Prop := ∀ visit ∈ e.visits, ¬ visit.part.Exceeds bound

/-- The first visit to a part that goes through too many pairs. -/
def FirstExceeding (bound : Nat) (e : Expr) (visit : Visit) : Prop :=
  ∃ front behind, e.visits = front ++ visit :: behind ∧
    (∀ earlier ∈ front, ¬ earlier.part.Exceeds bound) ∧ visit.part.Exceeds bound

/-- The fault tells of the first visit to too many pairs. -/
def Overrun (bound : Nat) (e : Expr) (fault : Fault) : Prop :=
  ∃ visit, e.FirstExceeding bound visit ∧
    fault = .tooComplex visit.part.render visit.part.pairs bound

variable {bound : Nat} {memo : MemoName}

theorem pairs_eq {op : Op} {left right : Expr} {ls rs : Outcomes}
    (hls : ∀ v, v ∈ ls ↔ left.Yields v) (hrs : ∀ v, v ∈ rs ↔ right.Yields v) :
    (binary memo op left right).pairs = ls.size * rs.size := by
  simp only [pairs, Outcomes.size_eq_ncard, hls, hrs]

section Roll

variable {count faces : Expr}

theorem visits_roll_blank (h : faces.Blank) :
    (roll memo count faces).visits =
      faces.visits.map (Visit.within (roll memo count faces)) ++ [⟨roll memo count faces, []⟩] := by
  simp [visits, h]

theorem visits_roll (h : ¬ faces.Blank) :
    (roll memo count faces).visits =
      faces.visits.map (Visit.within (roll memo count faces)) ++
        count.visits.map (Visit.within (roll memo count faces)) ++
          [⟨roll memo count faces, []⟩] := by
  simp [visits, h]

end Roll

theorem FirstExceeding.visited {e : Expr} {visit : Visit} (h : e.FirstExceeding bound visit) :
    visit ∈ e.visits ∧ visit.part.Exceeds bound := by
  obtain ⟨front, behind, hall, -, hexceeds⟩ := h
  exact ⟨by simp [hall], hexceeds⟩

/-- The first visit of a part to too many pairs is the first one of the whole when none of the
visits before the part is one. -/
theorem FirstExceeding.within {e part : Expr} {front : List Visit} {visit : Visit}
    (hall : front ++ part.visits.map (Visit.within e) <+: e.visits)
    (hfront : ∀ earlier ∈ front, ¬ earlier.part.Exceeds bound)
    (h : part.FirstExceeding bound visit) : e.FirstExceeding bound (visit.within e) := by
  obtain ⟨first, rest, hpart, hfirst, hexceeds⟩ := h
  obtain ⟨behind, hall⟩ := hall
  refine ⟨front ++ first.map (Visit.within e), rest.map (Visit.within e) ++ behind, ?_, ?_,
    hexceeds⟩
  · simp [← hall, hpart]
  · intro earlier hearlier
    rcases List.mem_append.mp hearlier with hearlier | hearlier
    · exact hfront earlier hearlier
    · obtain ⟨v, hv, rfl⟩ := List.mem_map.mp hearlier
      exact hfirst v hv

theorem self_mem_visits (e : Expr) : ⟨e, []⟩ ∈ e.visits := by
  cases e <;> simp [visits]

/-- The part that is visited stands in the expression, and so do those around it. Evaluation of each
of them comes to it too. -/
def Holds (e : Expr) (visit : Visit) : Prop :=
  ∀ part ∈ visit.part :: visit.around,
    part ∈ e.parts ∧ ∃ inner ∈ part.visits, inner.part = visit.part

theorem holds_self (e : Expr) : e.Holds ⟨e, []⟩ := by
  intro part hpart
  obtain rfl := List.mem_singleton.mp hpart
  exact ⟨part.self_mem_parts, _, part.self_mem_visits, rfl⟩

theorem Holds.within {e part : Expr} {visit : Visit} (h : part.Holds visit)
    (hparts : part ∈ e.parts) (hvisit : visit.within e ∈ e.visits) :
    e.Holds (visit.within e) := by
  intro p hp
  rw [Visit.within, ← List.cons_append, List.mem_append, List.mem_singleton] at hp
  rcases hp with hp | rfl
  · exact ⟨parts_subset hparts (h p hp).1, (h p hp).2⟩
  · exact ⟨p.self_mem_parts, _, hvisit, rfl⟩

theorem holds_of_mem_visits {e : Expr} : ∀ visit ∈ e.visits, e.Holds visit := by
  induction e with
  | blank | number =>
    intro visit hvisit
    obtain rfl := List.mem_singleton.mp hvisit
    exact holds_self _
  | roll memo count faces ihc ihf =>
    have hcount : count ∈ (roll memo count faces).parts := by simp [parts, self_mem_parts]
    have hfaces : faces ∈ (roll memo count faces).parts := by simp [parts, self_mem_parts]
    intro visit hvisit
    have hall := hvisit
    simp only [visits, List.mem_append, List.mem_map, List.mem_singleton] at hvisit
    rcases hvisit with (⟨v, hv, rfl⟩ | hvisit) | rfl
    · exact (ihf v hv).within hfaces hall
    · split at hvisit
      · cases hvisit
      · obtain ⟨v, hv, rfl⟩ := List.mem_map.mp hvisit
        exact (ihc v hv).within hcount hall
    · exact holds_self _
  | binary memo op left right ihl ihr =>
    have hleft : left ∈ (binary memo op left right).parts := by simp [parts, self_mem_parts]
    have hright : right ∈ (binary memo op left right).parts := by simp [parts, self_mem_parts]
    intro visit hvisit
    have hall := hvisit
    simp only [visits, List.mem_append, List.mem_map, List.mem_singleton] at hvisit
    rcases hvisit with (⟨v, hv, rfl⟩ | ⟨v, hv, rfl⟩) | rfl
    · exact (ihl v hv).within hleft hall
    · exact (ihr v hv).within hright hall
    · exact holds_self _

end Expr

/-- Each set of outcomes in the memo answers for an expression in this memo that can be worked out
within the bound. -/
def Store.Fitting (memo : MemoName) (bound : Nat) (store : Store) : Prop :=
  ∀ key answer, (store.memo memo).find? .outcomes key = some answer →
    ∃ e : Expr, e.Safe ∧ (∀ part ∈ e.parts, part.memo = memo) ∧ e.render = key ∧
      e.Answers .outcomes answer ∧ e.Fits bound

namespace Store

variable {memo : MemoName} {bound : Nat} {store : Store}

theorem Fitting.answers (h : store.Fitting memo bound) {e : Expr} (he : e.Safe)
    (hm : ∀ part ∈ e.parts, part.memo = memo) {answer : Support}
    (hf : (store.memo memo).find? .outcomes e.render = some answer) :
    e.Answers .outcomes answer ∧ e.Fits bound := by
  obtain ⟨f, hs, hfm, hr, ha, hfits⟩ := h _ _ hf
  obtain rfl := Expr.eq_of_render_eq hs he hfm hm hr
  exact ⟨ha, hfits⟩

theorem Fitting.keep (h : store.Fitting memo bound) {e : Expr} (he : e.Safe)
    (hm : ∀ part ∈ e.parts, part.memo = memo) {answer : Support}
    (ha : e.Answers .outcomes answer) (hfits : e.Fits bound) :
    let kept := store.keep memo .outcomes e.render answer
    (e.Answers .outcomes kept.1 ∧ e.Fits bound) ∧ kept.2.Fitting memo bound := by
  have hkept : e.Answers .outcomes (((store.memo memo).find? .outcomes e.render).getD answer) := by
    cases hf : (store.memo memo).find? .outcomes e.render with
    | some first => exact (h.answers he hm hf).1
    | none => exact ha
  refine ⟨⟨keep_fst ▸ hkept, hfits⟩, fun key found hfound => ?_⟩
  by_cases hkey : key = e.render
  · subst hkey
    rw [find?_keep_self] at hfound
    exact ⟨e, he, hm, rfl, Option.some.inj hfound ▸ hkept, hfits⟩
  · rcases find?_of_keep hfound with hold | hnew
    · exact h key found hold
    · exact absurd hnew.2 hkey

end Store

namespace Expr

variable {memo : MemoName} {bound : Nat}

/-- Remembered or worked out, the outcomes are those of an expression that fits. -/
theorem memoize_fitting {e : Expr} (he : e.Safe) (hm : ∀ part ∈ e.parts, part.memo = memo)
    {work : Eval Support} {fail : Fault → Prop}
    (h : Meets (Store.Fitting memo bound) work
      (fun s => e.Answers .outcomes s ∧ e.Fits bound) fail) :
    Meets (Store.Fitting memo bound) (memoize memo .outcomes e.render work)
      (fun s => e.Answers .outcomes s ∧ e.Fits bound) fail :=
  h.memoize (fun _ _ hs hf => hs.answers he hm hf) fun _ _ hs ha => hs.keep he hm ha.1 ha.2

theorem Fits.of_visits {e : Expr} (operands : List Visit) (hall : e.visits = operands ++ [⟨e, []⟩])
    (h : ∀ visit ∈ operands, ¬ visit.part.Exceeds bound) (hself : ¬ e.Exceeds bound) :
    e.Fits bound := by
  intro visit hvisit
  rw [hall, List.mem_append, List.mem_singleton] at hvisit
  rcases hvisit with hvisit | rfl
  · exact h visit hvisit
  · exact hself

theorem Fits.within {e part : Expr} (h : part.Fits bound) :
    ∀ visit ∈ part.visits.map (Visit.within e), ¬ visit.part.Exceeds bound := by
  intro visit hvisit
  obtain ⟨v, hv, rfl⟩ := List.mem_map.mp hvisit
  exact h v hv

/-- A part that comes first, or behind visits that are no overruns, ends the whole as it ends
itself. -/
theorem Overrun.within {e part : Expr} (front : List Visit) {fault : Fault}
    (hall : front ++ part.visits.map (Visit.within e) <+: e.visits)
    (hfront : ∀ earlier ∈ front, ¬ earlier.part.Exceeds bound) (h : part.Overrun bound fault) :
    e.Overrun bound fault := by
  obtain ⟨visit, hfirst, hfault⟩ := h
  exact ⟨visit.within e, hfirst.within hall hfront, hfault⟩

theorem Overrun.self {e : Expr} {operands : List Visit} (hall : e.visits = operands ++ [⟨e, []⟩])
    (h : ∀ visit ∈ operands, ¬ visit.part.Exceeds bound) (hself : e.Exceeds bound) :
    e.Overrun bound (.tooComplex e.render e.pairs bound) :=
  ⟨⟨e, []⟩, ⟨operands, [], hall, h, hself⟩, rfl⟩

/-- Evaluation comes to the end of an expression that fits, and otherwise to the first visit to too
many pairs. Only what fits is remembered. -/
theorem outcomes_visits {e : Expr} (he : e.Safe) (hm : ∀ part ∈ e.parts, part.memo = memo) :
    Meets (Store.Fitting memo bound) (e.outcomes (.ok (some bound)))
      (fun s => e.Answers .outcomes s ∧ e.Fits bound) (e.Overrun bound) := by
  induction e with
  | blank => exact he.elim
  | number memo value =>
    refine Meets.pure ⟨⟨.single value, rfl, fun v => Outcomes.mem_single⟩, ?_⟩
    exact Fits.of_visits [] rfl (fun _ h => nomatch h) fun h => h.1
  | roll memo count faces ihc ihf =>
    obtain ⟨hcm, hfm, rfl⟩ := forall_parts_roll.mp hm
    have hself : ¬ (roll memo count faces).Exceeds bound := fun h => h.1
    rw [outcomes]
    refine memoize_fitting he hm (Meets.bind ((ihf he.2.1 hfm).widen fun fault hfault => ?_) ?_)
    · exact hfault.within [] ⟨_, by simp [visits]; rfl⟩ fun _ h => nomatch h
    intro s hs
    obtain ⟨⟨fs, rfl, hfs⟩, hffits⟩ := hs
    obtain ⟨top, htop, hmem, hmax⟩ := Support.greatest_integers (he.2.1.exists_mem hfs)
    refine Meets.bind_ofExcept htop ?_
    by_cases hz : top = 0
    · have hblank : faces.Blank := fun f hf => by
        have := he.2.2.2 f hf
        have := hmax f ((hfs f).mpr hf)
        omega
      rw [if_pos (by simpa [Number.isZero] using hz)]
      refine Meets.pure ⟨⟨.single 0, rfl, fun v => he.roll_blank hblank⟩, ?_⟩
      exact Fits.of_visits _ (visits_roll_blank hblank) hffits.within hself
    · have hblank : ¬ faces.Blank := fun h => hz (h top ((hfs top).mp hmem))
      rw [if_neg (by simpa [Number.isZero] using hz)]
      refine Meets.bind ((ihc he.1 hcm).widen fun fault hfault => ?_) ?_
      · exact hfault.within _ ⟨_, (visits_roll hblank).symm⟩ hffits.within
      intro s hs
      obtain ⟨⟨cs, rfl, hcs⟩, hcfits⟩ := hs
      refine Meets.ofExcept_ok rfl
        ⟨⟨.ofRoll cs fs top, rfl, fun v => he.mem_ofRoll hcs hfs hmem hmax hz⟩, ?_⟩
      refine Fits.of_visits _ (visits_roll hblank) (fun visit hvisit => ?_) hself
      exact (List.mem_append.mp hvisit).elim (hffits.within visit) (hcfits.within visit)
  | binary memo op left right ihl ihr =>
    obtain ⟨hlm, hrm, rfl⟩ := forall_parts_binary.mp hm
    rw [outcomes_binary]
    refine memoize_fitting he hm (Meets.bind ((ihl he.1 hlm).widen fun fault hfault => ?_) ?_)
    · exact hfault.within [] ⟨_, by simp [visits]; rfl⟩ fun _ h => nomatch h
    intro s hs
    obtain ⟨⟨ls, rfl, hls⟩, hlfits⟩ := hs
    refine Meets.bind ((ihr he.2.1 hrm).widen fun fault hfault => ?_) ?_
    · exact hfault.within _ ⟨_, rfl⟩ hlfits.within
    intro s hs
    obtain ⟨⟨rs, rfl, hrs⟩, hrfits⟩ := hs
    have hoperands : ∀ visit ∈ left.visits.map (Visit.within (binary memo op left right)) ++
        right.visits.map (Visit.within (binary memo op left right)), ¬ visit.part.Exceeds bound :=
      fun visit hvisit =>
        (List.mem_append.mp hvisit).elim (hlfits.within visit) (hrfits.within visit)
    by_cases hpairs : (binary memo op left right).Enumerates
    · rw [he.operation_by_pairs hls hrs hpairs]
      have hw : ∀ y ∈ rs, op.isWholeAt y = true := fun y hy => he.2.2 y ((hrs y).mp hy)
      have hcost : (binary memo op left right).pairs = ls.size * rs.size := pairs_eq hls hrs
      rw [Op.enumerate_bounded hw, ← hcost]
      split
      · rename_i hmore
        exact Meets.ofExcept_error rfl (Overrun.self rfl hoperands ⟨hpairs, hmore⟩)
      · rename_i hmore
        refine Meets.ofExcept_ok rfl
          ⟨⟨_, rfl, fun v => Op.mem_image.trans (yields_binary hls hrs)⟩, ?_⟩
        exact Fits.of_visits _ rfl hoperands fun h => hmore h.2
    · obtain ⟨r, hquick, hr⟩ := he.operation_of_runs hls hrs hpairs
      refine Meets.ofExcept_ok (hquick _ _) ⟨⟨_, rfl, hr⟩, ?_⟩
      exact Fits.of_visits _ rfl hoperands fun h => hpairs h.1

end Expr

/-- Evaluation on an empty memo is ended by the limit exactly when it comes to a part that goes
through too many pairs. The fault tells of the first such part, of which nothing is remembered then,
and neither of those around it. Otherwise all is as it is without a limit. -/
theorem limit_ends_first_exceeding {before : Session} (hb : before.Reached) {name : String}
    {e : Expr} (hname : before.names.lookup name = some e) {memo : MemoName}
    (hm : ∀ part ∈ e.parts, part.memo = memo) {store : Store} (hempty : store.memo memo = {})
    (bound : Nat) :
    ((∃ key loops most later,
        e.outcomes (.ok (some bound)) store = .error (.tooComplex key loops most) later) ↔
      ∃ visit ∈ e.visits, visit.part.Exceeds bound) ∧
    (∀ fault later, e.outcomes (.ok (some bound)) store = .error fault later →
      ∃ visit, e.FirstExceeding bound visit ∧
        fault = .tooComplex visit.part.render visit.part.pairs bound ∧
        ∀ part ∈ visit.part :: visit.around,
          (later.memo memo).find? .outcomes part.render = none) ∧
    ((∀ visit ∈ e.visits, ¬ visit.part.Exceeds bound) →
      ∃ s later, e.outcomes (.ok (some bound)) store = .ok s later ∧
        e.outcomes (.ok none) store = .ok s later) := by
  have he : e.Safe := hb.sound.safe _ (Session.mem_of_lookup hname)
  have hfitting : store.Fitting memo bound := by
    intro key answer hfound
    rw [hempty] at hfound
    cases hfound
  have hmeets : Meets (Store.Fitting memo bound) (e.outcomes (.ok (some bound))) _ _ :=
    Expr.outcomes_visits he hm
  cases hr : e.outcomes (.ok (some bound)) store with
  | ok s later =>
    obtain ⟨⟨-, hfits⟩, -⟩ := hmeets.of_ok hfitting hr
    refine ⟨⟨nofun, fun ⟨visit, hvisit, h⟩ => absurd h (hfits visit hvisit)⟩, nofun, fun _ => ?_⟩
    have hwider : Limit.Within (some bound) none := nofun
    rcases e.outcomes_follows hwider store with hsame | ⟨_, _, herror, -⟩
    · exact ⟨s, later, rfl, hsame.trans hr⟩
    · rw [hr] at herror
      cases herror
  | error fault later =>
    obtain ⟨⟨visit, hfirst, rfl⟩, hlater⟩ := hmeets.of_error hfitting hr
    obtain ⟨hvisit, hexceeds⟩ := hfirst.visited
    refine ⟨⟨fun _ => ⟨visit, hvisit, hexceeds⟩, fun _ => ⟨_, _, _, _, rfl⟩⟩, ?_,
      fun hfits => absurd hexceeds (hfits visit hvisit)⟩
    rintro _ _ ⟨⟩
    refine ⟨visit, hfirst, rfl, fun part hpart => ?_⟩
    obtain ⟨hparts, inner, hinner, hsame⟩ := Expr.holds_of_mem_visits visit hvisit part hpart
    cases hf : (later.memo memo).find? .outcomes part.render with
    | none => rfl
    | some answer =>
      have hpm : ∀ p ∈ part.parts, p.memo = memo := fun p hp => hm p (Expr.parts_subset hparts hp)
      obtain ⟨-, hfits⟩ := hlater.answers (he.parts part hparts) hpm hf
      exact absurd (hsame ▸ hexceeds) (hfits inner hinner)

/-- Three pairs of a count and a factor, as the count of blank dice and then as they are. -/
def blankDiceSession : Session :=
  let actions : List Action := [.parse "q" "m" "(1d3*2)d0+(1d3*2)", .clear "m"]
  actions.foldl (fun session action => (session.step action).2) {}

/-- Only the second product is worked out, and ends the evaluation. -/
theorem limit_ends_first_exceeding_blank :
    blankDiceSession.Reached ∧
      ∃ e, blankDiceSession.names.lookup "q" = some e ∧ (∀ part ∈ e.parts, part.memo = "m") ∧
        blankDiceSession.store.memo "m" = {} ∧
        (∃ visit ∈ e.visits, visit.part.Exceeds 2) ∧
        ∃ visit later, e.FirstExceeding 2 visit ∧
          e.outcomes (.ok (some 2)) blankDiceSession.store =
            .error (.tooComplex "((1d3)*2)" 3 2) later ∧
          visit.part.render = "((1d3)*2)" ∧ visit.part.pairs = 3 ∧
          ∀ part ∈ visit.part :: visit.around,
            (later.memo "m").find? .outcomes part.render = none := by
  have hreached : blankDiceSession.Reached := .step (.step .start trivial) trivial
  have hname : ∃ e, blankDiceSession.names.lookup "q" = some e ∧
      (∀ part ∈ e.parts, part.memo = "m") ∧ ∃ later,
      e.outcomes (.ok (some 2)) blankDiceSession.store =
        .error (.tooComplex "((1d3)*2)" 3 2) later := by
    refine ⟨?_, ?_, ?_, ?_, ?_⟩
    rotate_left 1
    · cbv
      rfl
    · decide
    rotate_left 1
    · cbv
      rfl
  have hempty : blankDiceSession.store.memo "m" = {} := by cbv
  obtain ⟨e, hname, hm, later, hr⟩ := hname
  have h := limit_ends_first_exceeding hreached hname hm hempty 2
  obtain ⟨visit, hfirst, hfault, hnone⟩ := h.2.1 _ _ hr
  obtain ⟨hkey, hloops, -⟩ := Fault.tooComplex.inj hfault
  exact ⟨hreached, e, hname, hm, hempty, h.1.mp ⟨_, _, _, _, hr⟩, visit, later, hfirst, hr,
    hkey.symm, hloops.symm, hnone⟩

end DiceFormula
