import DiceFormula.Proofs.Operators
import DiceFormula.Proofs.Spans
import DiceFormula.Proofs.Values
import Mathlib.Data.Set.Card

namespace DiceFormula

namespace Outcomes

theorem size_eq_length_toList (o : Outcomes) : o.size = o.toList.length := by
  simp only [size, toList, List.length_flatMap, List.sum]
  congr 2
  funext r
  simp [Run.toList]

/-- The size is the number of members. -/
theorem size_eq_ncard (o : Outcomes) : o.size = {v | v ∈ o}.ncard := by
  have hset : {v | v ∈ o} = (o.toList.toFinset : Set Int) := by
    ext v
    simp [mem_toList]
  have hnodup : o.toList.Nodup := o.pairwise_toList.imp ne_of_lt
  rw [hset, Set.ncard_coe_finset, List.toFinset_card_of_nodup hnodup, size_eq_length_toList]

end Outcomes

namespace Expr

/-- The values are the integers between two bounds. -/
def Contiguous (e : Expr) : Prop := ∃ r : Run, ∀ v, e.Yields v ↔ v ∈ r

/-- The values are worked out from all pairs of operands. Those of sums and differences of two runs
are not. -/
def Enumerates : Expr → Prop
  | binary _ .add left right | binary _ .sub left right => ¬ (left.Contiguous ∧ right.Contiguous)
  | binary _ .mul _ _ | binary _ .div _ _ | binary _ .pow _ _ => True
  | binary _ .unspecified _ _ | blank _ | number _ _ | roll _ _ _ => False

/-- The number of pairs of operands. -/
noncomputable def pairs : Expr → Nat
  | binary _ _ left right => {x | left.Yields x}.ncard * {y | right.Yields y}.ncard
  | blank _ | number _ _ | roll _ _ _ => 0

theorem contiguous_iff {e : Expr} {o : Outcomes} (ho : ∀ v, v ∈ o ↔ e.Yields v) :
    e.Contiguous ↔ ∃ r, o = .ofRun r := by
  constructor
  · intro h
    obtain ⟨r, hr⟩ := h
    exact ⟨r, Outcomes.ext_of_mem fun v => (ho v).trans ((hr v).trans Outcomes.mem_ofRun.symm)⟩
  · intro h
    obtain ⟨r, rfl⟩ := h
    exact ⟨r, fun v => (ho v).symm.trans Outcomes.mem_ofRun⟩

theorem yields_binary {memo : MemoName} {op : Op} {left right : Expr} {ls rs : Outcomes}
    (hls : ∀ v, v ∈ ls ↔ left.Yields v) (hrs : ∀ v, v ∈ rs ↔ right.Yields v) {v : Int} :
    (∃ x ∈ ls, ∃ y ∈ rs, v = op.value x y) ↔ (binary memo op left right).Yields v := by
  simp only [Yields, hls, hrs]
  constructor
  · intro h
    obtain ⟨x, hx, y, hy, hv⟩ := h
    exact ⟨x, y, hx, hy, hv⟩
  · intro h
    obtain ⟨x, y, hx, hy, hv⟩ := h
    exact ⟨x, hx, y, hy, hv⟩

/-- The set that was worked out has members, as the expression has values. -/
theorem Safe.exists_mem {e : Expr} (he : e.Safe) {o : Outcomes} (ho : ∀ v, v ∈ o ↔ e.Yields v) :
    ∃ v, v ∈ o :=
  he.exists_yields.imp fun v => (ho v).mpr

section Closure

variable {memo : MemoName} {op : Op} {left right count faces : Expr}

/-- From one count to the next the spans of totals leave nothing out. -/
theorem exists_span {lowest top least : Int} (hlow : lowest = 0 ∨ lowest = 1) (htop : 1 ≤ top)
    (hleast : 0 ≤ least) (more : Nat) {v : Int} (hlo : least * lowest ≤ v)
    (hhi : v ≤ (least + more) * top) :
    ∃ n, least ≤ n ∧ n ≤ least + more ∧ n * lowest ≤ v ∧ v ≤ n * top := by
  induction more with
  | zero => exact ⟨least, by omega, by omega, hlo, by simpa using hhi⟩
  | succ more ih =>
    by_cases hv : v ≤ (least + more) * top
    · obtain ⟨n, hn, hle, hspan⟩ := ih hv
      exact ⟨n, hn, by omega, hspan⟩
    · have hdice : (least + more) * 1 ≤ (least + more) * top :=
        Int.mul_le_mul_of_nonneg_left htop (by omega)
      refine ⟨least + (more + 1 : Nat), by omega, by omega, ?_, hhi⟩
      rcases hlow with rfl | rfl <;> omega

/-- The totals of dice make one run when the counts do and the faces do. -/
theorem Safe.contiguous_roll (he : (roll memo count faces).Safe) (hc : count.Contiguous)
    (hf : faces.Contiguous) : (roll memo count faces).Contiguous := by
  obtain ⟨cs, hcs⟩ := hc
  obtain ⟨fs, hfs⟩ := hf
  obtain ⟨-, -, hcount, hface⟩ := he
  have hleast : 0 ≤ cs.lo := hcount _ ((hcs _).mpr cs.mem_lo)
  have hmost : 0 ≤ fs.hi := hface _ ((hfs _).mpr fs.mem_hi)
  by_cases hblank : fs.hi = 0
  · have hzero : ∀ f, faces.Yields f → f = 0 := fun f hf => by
      have := hface f hf
      have := ((hfs f).mp hf).2
      omega
    refine ⟨.single 0, fun v => ?_⟩
    simp only [Yields, throws_blank ⟨_, (hfs _).mpr fs.mem_hi⟩ hzero, Run.mem_single]
    exact ⟨fun h => h.choose_spec.2, fun h => ⟨_, (hcs _).mpr cs.mem_lo, h⟩⟩
  · have htop : 1 ≤ fs.hi := by omega
    have hbound : ∀ f, faces.Yields f → 0 ≤ f ∧ f ≤ fs.hi := fun f hf =>
      ⟨hface f hf, ((hfs f).mp hf).2⟩
    obtain ⟨lowest, hlow⟩ : ∃ lowest : Int,
        faces.Yields 0 ∧ lowest = 0 ∨ ¬ faces.Yields 0 ∧ lowest = 1 := by
      by_cases h0 : faces.Yields 0
      · exact ⟨0, .inl ⟨h0, rfl⟩⟩
      · exact ⟨1, .inr ⟨h0, rfl⟩⟩
    have hshown : lowest = 0 ∨ lowest = 1 := hlow.imp And.right And.right
    have hends : cs.lo * lowest ≤ cs.hi * fs.hi :=
      Int.mul_le_mul cs.le (by omega) (by omega) (Int.le_trans hleast cs.le)
    refine ⟨⟨cs.lo * lowest, cs.hi * fs.hi, hends⟩, fun v => ?_⟩
    have htotal {n : Int} (hn : count.Yields n) :
        Throws faces.Yields n.toNat v ↔ n * lowest ≤ v ∧ v ≤ n * fs.hi := by
      rw [throws_iff hbound ((hfs _).mpr fs.mem_hi) htop hlow, Int.toNat_of_nonneg (hcount n hn)]
    constructor
    · intro h
      obtain ⟨n, hn, hv⟩ := h
      obtain ⟨hlo, hhi⟩ := (htotal hn).mp hv
      obtain ⟨hfirst, hlast⟩ := (hcs n).mp hn
      exact ⟨Int.le_trans (Int.mul_le_mul_of_nonneg_right hfirst (by omega)) hlo,
        Int.le_trans hhi (Int.mul_le_mul_of_nonneg_right hlast hmost)⟩
    · intro hv
      obtain ⟨hlo, hhi⟩ := hv
      have hmore : cs.lo + (cs.hi - cs.lo).toNat = cs.hi := by
        have := cs.le
        omega
      obtain ⟨n, hfirst, hlast, hspan⟩ :=
        exists_span hshown htop hleast (cs.hi - cs.lo).toNat hlo (by rwa [hmore])
      have hn : count.Yields n := (hcs n).mpr ⟨hfirst, by omega⟩
      exact ⟨n, hn, (htotal hn).mpr hspan⟩

/-- The sums or differences of two runs make one run. -/
theorem yields_of_runs {f : Run → Run → Run} (hf : op.onRuns? = some f) {r s : Run}
    (hr : ∀ v, left.Yields v ↔ v ∈ r) (hs : ∀ v, right.Yields v ↔ v ∈ s) (v : Int) :
    (binary memo op left right).Yields v ↔ v ∈ f r s := by
  rw [Op.mem_onRuns hf]
  simp only [Yields, hr, hs, exists_and_left]

end Closure

section Operation

variable {memo : MemoName} {op : Op} {left right : Expr} {ls rs : Outcomes}

/-- Sums and differences of runs are worked out under every limit. -/
theorem Safe.operation_of_runs (he : (binary memo op left right).Safe)
    (hls : ∀ v, v ∈ ls ↔ left.Yields v) (hrs : ∀ v, v ∈ rs ↔ right.Yields v)
    (h : ¬ (binary memo op left right).Enumerates) :
    ∃ r : Run, (∀ limit key,
        op.outcomes limit key (.integers ls) (.integers rs) = .ok (.integers (.ofRun r))) ∧
      ∀ v, v ∈ Outcomes.ofRun r ↔ (binary memo op left right).Yields v := by
  have hruns : ∃ f, op.onRuns? = some f ∧ left.Contiguous ∧ right.Contiguous := by
    cases op with
    | add | sub => exact ⟨_, rfl, Classical.not_not.mp h⟩
    | mul | div | pow => exact absurd trivial h
    | unspecified => exact absurd rfl he.op_ne
  obtain ⟨f, hf, hl, hr⟩ := hruns
  obtain ⟨r, rfl⟩ := (contiguous_iff hls).mp hl
  obtain ⟨s, rfl⟩ := (contiguous_iff hrs).mp hr
  refine ⟨f r s, fun limit key => Op.outcomes_ofRun hf r s, fun v => ?_⟩
  have hr v := (hls v).symm.trans Outcomes.mem_ofRun
  have hs v := (hrs v).symm.trans Outcomes.mem_ofRun
  exact Outcomes.mem_ofRun.trans (yields_of_runs hf hr hs v).symm

theorem Safe.operation_by_pairs (he : (binary memo op left right).Safe)
    (hls : ∀ v, v ∈ ls ↔ left.Yields v) (hrs : ∀ v, v ∈ rs ↔ right.Yields v)
    (h : (binary memo op left right).Enumerates) {limit : Limit.Reading} {key : String} :
    op.outcomes limit key (.integers ls) (.integers rs) =
      op.enumerate limit key (.integers ls) (.integers rs) := by
  refine Op.outcomes_eq_enumerate (he.1.exists_mem hls) (he.2.1.exists_mem hrs) ?_
  rw [← contiguous_iff hls, ← contiguous_iff hrs]
  cases op with
  | add | sub => exact .inr h
  | mul | div | pow | unspecified => exact .inl rfl

end Operation

end Expr

end DiceFormula
