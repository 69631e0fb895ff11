namespace DiceFormula

/-- The integers from `lo` to `hi`, of which there is at least one. -/
structure Run where
  lo : Int
  hi : Int
  le : lo ≤ hi
  deriving DecidableEq

namespace Run

instance : Membership Int Run where
  mem r v := r.lo ≤ v ∧ v ≤ r.hi

theorem mem_iff {v : Int} {r : Run} : v ∈ r ↔ r.lo ≤ v ∧ v ≤ r.hi := Iff.rfl

instance (v : Int) (r : Run) : Decidable (v ∈ r) :=
  inferInstanceAs (Decidable (_ ∧ _))

def single (v : Int) : Run := ⟨v, v, Int.le_refl v⟩

theorem mem_single {v w : Int} : v ∈ single w ↔ v = w := by
  simp only [mem_iff, single]
  omega

/-- The run between two bounds, unless they cross. -/
def between? (lo hi : Int) : Option Run :=
  if h : lo ≤ hi then some ⟨lo, hi, h⟩ else none

def size (r : Run) : Nat := (r.hi - r.lo + 1).toNat

def sum (r : Run) : Int := (r.lo + r.hi) * (r.hi - r.lo + 1) / 2

def toList (r : Run) : List Int := (List.range r.size).map fun i : Nat => r.lo + i

theorem mem_toList {v : Int} {r : Run} : v ∈ r.toList ↔ v ∈ r := by
  simp only [toList, size, List.mem_map, List.mem_range, mem_iff]
  constructor
  · rintro ⟨i, hi, rfl⟩
    omega
  · intro h
    exact ⟨(v - r.lo).toNat, by omega, by omega⟩

/-- Between the end of `r` and the start of `s` an integer is missing. -/
def Before (r s : Run) : Prop := r.hi + 1 < s.lo

instance (r s : Run) : Decidable (Before r s) :=
  inferInstanceAs (Decidable (_ < _))

theorem Before.trans {r s t : Run} (hrs : Before r s) (hst : Before s t) : Before r t := by
  have := s.le
  simp only [Before] at *
  omega

/-- The run from the lower start to the higher end. -/
def join (r s : Run) : Run :=
  ⟨min r.lo s.lo, max r.hi s.hi, by have := r.le; omega⟩

theorem mem_join {v : Int} {r s : Run} (hr : ¬ Before r s) (hs : ¬ Before s r) :
    v ∈ join r s ↔ v ∈ r ∨ v ∈ s := by
  have := r.le
  have := s.le
  simp only [Before, mem_iff, join] at *
  omega

end Run

end DiceFormula
