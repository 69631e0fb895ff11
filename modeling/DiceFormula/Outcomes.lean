import DiceFormula.Outcomes.Run

namespace DiceFormula

/-- Adds a run to an ascending list of separate runs. -/
def Run.insertInto (r : Run) : List Run → List Run
  | [] => [r]
  | s :: rest =>
    if r.Before s then r :: s :: rest
    else if s.Before r then s :: r.insertInto rest
    else (r.join s).insertInto rest

namespace Run

theorem mem_insertInto {v : Int} {r : Run} {runs : List Run} :
    (∃ s ∈ r.insertInto runs, v ∈ s) ↔ v ∈ r ∨ ∃ s ∈ runs, v ∈ s := by
  induction runs generalizing r with
  | nil => simp [insertInto]
  | cons s rest ih =>
    simp only [insertInto]
    split
    · simp
    · split
      · simp only [List.mem_cons, exists_eq_or_imp, ih]
        exact or_left_comm
      · rename_i hr hs
        simp only [ih, mem_join hr hs, List.mem_cons, exists_eq_or_imp, or_assoc]

theorem before_insertInto {b r : Run} {runs : List Run} (hr : b.Before r)
    (h : ∀ s ∈ runs, b.Before s) : ∀ s ∈ r.insertInto runs, b.Before s := by
  induction runs generalizing r with
  | nil => simpa [insertInto] using hr
  | cons s rest ih =>
    have hs := h s List.mem_cons_self
    have hrest := fun t ht => h t (List.mem_cons_of_mem s ht)
    simp only [insertInto]
    split
    · simp only [List.mem_cons]
      rintro t (rfl | rfl | ht)
      · exact hr
      · exact hs
      · exact hrest t ht
    · split
      · simp only [List.mem_cons]
        rintro t (rfl | ht)
        · exact hs
        · exact ih hr hrest t ht
      · refine ih ?_ hrest
        simp only [Before, join] at *
        omega

theorem pairwise_insertInto {r : Run} {runs : List Run} (h : runs.Pairwise Before) :
    (r.insertInto runs).Pairwise Before := by
  induction runs generalizing r with
  | nil => simp [insertInto]
  | cons s rest ih =>
    obtain ⟨hs, hrest⟩ := List.pairwise_cons.1 h
    simp only [insertInto]
    split
    · rename_i hr
      refine List.pairwise_cons.2 ⟨?_, h⟩
      simp only [List.mem_cons]
      rintro t (rfl | ht)
      · exact hr
      · exact hr.trans (hs t ht)
    · split
      · rename_i hsr
        exact List.pairwise_cons.2 ⟨before_insertInto hsr hs, ih hrest⟩
      · exact ih hrest

end Run

/-- A finite set of integers, as the ascending list of its maximal runs. -/
structure Outcomes where
  runs : List Run
  apart : runs.Pairwise Run.Before
  deriving DecidableEq

namespace Outcomes

instance : Membership Int Outcomes where
  mem o v := ∃ r ∈ o.runs, v ∈ r

theorem mem_iff {v : Int} {o : Outcomes} : v ∈ o ↔ ∃ r ∈ o.runs, v ∈ r := Iff.rfl

instance (v : Int) (o : Outcomes) : Decidable (v ∈ o) :=
  inferInstanceAs (Decidable (∃ r ∈ o.runs, v ∈ r))

def empty : Outcomes := ⟨[], .nil⟩

def ofRun (r : Run) : Outcomes := ⟨[r], List.pairwise_singleton _ _⟩

def single (v : Int) : Outcomes := ofRun (.single v)

/-- Adds all integers of a run. -/
def insert (r : Run) (o : Outcomes) : Outcomes :=
  ⟨r.insertInto o.runs, Run.pairwise_insertInto o.apart⟩

theorem mem_insert {v : Int} {r : Run} {o : Outcomes} : v ∈ o.insert r ↔ v ∈ r ∨ v ∈ o :=
  Run.mem_insertInto

/-- The union of runs in any order. It takes one step for each run when they ascend. -/
def ofRuns (runs : List Run) : Outcomes := runs.foldr insert empty

theorem mem_ofRuns {v : Int} {runs : List Run} : v ∈ ofRuns runs ↔ ∃ r ∈ runs, v ∈ r := by
  induction runs with
  | nil => simp [ofRuns, empty, mem_iff]
  | cons r rest ih =>
    rw [ofRuns] at ih
    simp [ofRuns, mem_insert, ih]

/-- The set of the values of a list. -/
def ofList (values : List Int) : Outcomes := ofRuns (values.mergeSort.map .single)

theorem mem_ofList {v : Int} {values : List Int} : v ∈ ofList values ↔ v ∈ values := by
  simp only [ofList, mem_ofRuns, List.mem_map, List.mem_mergeSort]
  constructor
  · rintro ⟨r, ⟨w, hw, rfl⟩, hv⟩
    exact Run.mem_single.1 hv ▸ hw
  · exact fun hv => ⟨_, ⟨v, hv, rfl⟩, Run.mem_single.2 rfl⟩

/-- The members in ascending order. -/
def toList (o : Outcomes) : List Int := o.runs.flatMap Run.toList

theorem mem_toList {v : Int} {o : Outcomes} : v ∈ o.toList ↔ v ∈ o := by
  simp [toList, mem_iff, Run.mem_toList]

def size (o : Outcomes) : Nat := (o.runs.map Run.size).foldr (· + ·) 0

def sum (o : Outcomes) : Int := (o.runs.map Run.sum).foldr (· + ·) 0

def min? (o : Outcomes) : Option Int := o.runs.head?.map Run.lo

def max? (o : Outcomes) : Option Int := o.runs.getLast?.map Run.hi

/-- The least absolute value of a member. -/
def minAbs? (o : Outcomes) : Option Nat :=
  if 0 ∈ o then some 0 else (o.runs.map fun r => min r.lo.natAbs r.hi.natAbs).min?

/-- The greatest absolute value of a member. -/
def maxAbs? (o : Outcomes) : Option Nat :=
  (o.runs.map fun r => max r.lo.natAbs r.hi.natAbs).max?

end Outcomes

end DiceFormula
