import Std.Data.HashMap

/-!
Alignment of two sequences. The longest common run splits both of them, and the parts before and
after it are aligned in the same way. Of several longest runs the one that starts first in the
first sequence is taken, and of these the one that starts first in the second. Only places with
equal items are looked at, so sequences with few of them are aligned fast.
-/
namespace FormatAudit

/-- A stretch of an alignment: either it is in both sequences, or the first sequence has `before`
where the second one has `after`. -/
inductive Segment (α : Type) where
  | kept (items : List α)
  | changed (before after : List α)
  deriving DecidableEq, Repr

namespace Alignment

variable {α : Type} [DecidableEq α] [Hashable α]

structure Run where
  left : Nat
  right : Nat
  size : Nat
  deriving DecidableEq, Repr

def placesIn (ys : List α) : Std.HashMap α (List Nat) :=
  ys.zipIdx.foldr (fun y places => places.insert y.1 (y.2 :: places.getD y.1 [])) ∅

/-- The common runs that start at one place of the first sequence: where each starts in the second,
and its length. The starts increase. -/
abbrev Row := List (Nat × Nat)

/-- The runs that start at the given places of the second sequence, from those that start one place
further in the first. -/
def rowBefore : List Nat → Row → Row
  | [], _ => []
  | j :: js, next =>
    let later := next.dropWhile fun run => run.1 ≤ j
    let more := match later with
      | (k, n) :: _ => if k = j + 1 then n else 0
      | [] => 0
    (j, more + 1) :: rowBefore js later

def firstLongest : Row → Nat × Nat
  | [] => (0, 0)
  | run :: row =>
    let best := firstLongest row
    if best.2 ≤ run.2 then run else best

/-- The runs that start at the first place of a sequence, and the first of the longest runs of the
whole sequence. -/
def longestFrom (places : Std.HashMap α (List Nat)) : List α → Row × Run
  | [] => ([], ⟨0, 0, 0⟩)
  | x :: xs =>
    let (next, best) := longestFrom places xs
    let row := rowBefore (places.getD x []) next
    let (right, size) := firstLongest row
    (row, if best.size ≤ size then ⟨0, right, size⟩ else ⟨best.left + 1, best.right, best.size⟩)

def longestRun (xs ys : List α) : Run :=
  (longestFrom (placesIn ys) xs).2

theorem rowBefore_le {bound : Nat} {js : List Nat} {next : Row} (h : ∀ run ∈ next, run.2 ≤ bound) :
    ∀ run ∈ rowBefore js next, run.2 ≤ bound + 1 := by
  induction js generalizing next with
  | nil => simp [rowBefore]
  | cons j js ih =>
    have hl : ∀ run ∈ next.dropWhile fun run => run.1 ≤ j, run.2 ≤ bound :=
      fun run hr => h run ((List.dropWhile_sublist _).subset hr)
    intro run hr
    simp only [rowBefore, List.mem_cons] at hr
    rcases hr with rfl | hr
    · generalize (next.dropWhile fun run => run.1 ≤ j) = later at hl
      cases later with
      | nil => simp
      | cons first rest =>
        have := hl first (by simp)
        dsimp only
        split <;> omega
    · exact ih hl run hr

theorem firstLongest_le {bound : Nat} {row : Row} (h : ∀ run ∈ row, run.2 ≤ bound) :
    (firstLongest row).2 ≤ bound := by
  induction row with
  | nil => exact Nat.zero_le _
  | cons run row ih =>
    simp only [firstLongest]
    split
    · exact h run (by simp)
    · exact ih fun run hr => h run (by simp [hr])

theorem longestFrom_row_le (places : Std.HashMap α (List Nat)) (xs : List α) :
    ∀ run ∈ (longestFrom places xs).1, run.2 ≤ xs.length := by
  induction xs with
  | nil => simp [longestFrom]
  | cons x xs ih => simpa [longestFrom] using rowBefore_le ih

theorem longestRun_left_le (xs ys : List α) :
    (longestRun xs ys).left + (longestRun xs ys).size ≤ xs.length := by
  unfold longestRun
  generalize placesIn ys = places
  induction xs with
  | nil => simp [longestFrom]
  | cons x xs ih =>
    have hrow : (firstLongest (rowBefore (places.getD x []) (longestFrom places xs).1)).2 ≤
        xs.length + 1 :=
      firstLongest_le (rowBefore_le (longestFrom_row_le places xs))
    simp only [longestFrom]
    split
    · simpa using hrow
    · simp only [List.length_cons]; omega

/-- The stretches around the longest common runs, found by splitting again and again. Runs that
touch in both sequences are still apart. -/
def split (xs ys : List α) : List (Segment α) :=
  let run := longestRun xs ys
  if _ : run.size = 0 then
    if xs = [] ∧ ys = [] then [] else [.changed xs ys]
  else
    split (xs.take run.left) (ys.take run.right) ++
      .kept ((xs.drop run.left).take run.size) ::
        split (xs.drop (run.left + run.size)) (ys.drop (run.right + run.size))
termination_by xs.length
decreasing_by
  all_goals
    have bound := longestRun_left_le xs ys
    have found : (longestRun xs ys).size ≠ 0 := by assumption
    simp only [List.length_take, List.length_drop]
    omega

def join : List (Segment α) → List (Segment α)
  | [] => []
  | .kept items :: rest =>
    match join rest with
    | .kept more :: rest => .kept (items ++ more) :: rest
    | rest => .kept items :: rest
  | .changed before after :: rest => .changed before after :: join rest

end Alignment

def align {α : Type} [DecidableEq α] [Hashable α] (xs ys : List α) : List (Segment α) :=
  Alignment.join (Alignment.split xs ys)

end FormatAudit
