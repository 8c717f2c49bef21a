import FormatAudit.Proofs.Diff.CommonRun
import Mathlib.Data.List.Chain

/-! An alignment covers both sequences, its stretches are not empty, and kept and changed ones take
turns. The last of these is what joining is for: splitting alone may leave two kept stretches side
by side. -/
namespace FormatAudit
variable {α : Type}

namespace Segment

def before : Segment α → List α
  | .kept items => items
  | .changed before _ => before

def after : Segment α → List α
  | .kept items => items
  | .changed _ after => after

def isKept : Segment α → Bool
  | .kept _ => true
  | .changed .. => false

def IsProper : Segment α → Prop
  | .kept items => items ≠ []
  | .changed before after => before ≠ [] ∨ after ≠ []

theorem before_eq_after {s : Segment α} (h : s.isKept = true) : s.before = s.after := by
  cases s with
  | kept items => rfl
  | changed before after => simp [isKept] at h

end Segment

namespace Alignment

theorem take_take_drop (xs : List α) (i n : Nat) :
    xs.take i ++ ((xs.drop i).take n ++ xs.drop (i + n)) = xs := by
  rw [← List.drop_drop, List.take_append_drop, List.take_append_drop]

section Split
variable [DecidableEq α] [Hashable α]

/-- What holds of all stretches found by splitting holds if it holds of no stretch, of a single
change between sequences with nothing in common, and of a kept run between two splits. -/
theorem split_induction {motive : List α → List α → List (Segment α) → Prop}
    (empty : motive [] [] [])
    (apart : ∀ xs ys, (xs ≠ [] ∨ ys ≠ []) → (longestRun xs ys).size = 0 →
      motive xs ys [.changed xs ys])
    (around : ∀ xs ys run, run = longestRun xs ys → run.size ≠ 0 → ∀ left right,
      motive (xs.take run.left) (ys.take run.right) left →
      motive (xs.drop (run.left + run.size)) (ys.drop (run.right + run.size)) right →
      motive xs ys (left ++ .kept ((xs.drop run.left).take run.size) :: right))
    (xs ys : List α) : motive xs ys (split xs ys) := by
  induction xs, ys using split.induct with
  | case1 xs ys run hsize hnil =>
    obtain ⟨rfl, rfl⟩ := hnil
    rw [split]
    exact empty
  | case2 xs ys run hsize hnil =>
    have h : split xs ys = [.changed xs ys] := by
      rw [split]
      simp [run] at hsize
      simp [hsize, hnil]
    rw [h]
    exact apart xs ys (not_and_or.1 hnil) hsize
  | case3 xs ys run hsize ihl ihr =>
    have h : split xs ys = split (xs.take run.left) (ys.take run.right) ++
        .kept ((xs.drop run.left).take run.size) ::
          split (xs.drop (run.left + run.size)) (ys.drop (run.right + run.size)) := by
      rw [split]
      exact dif_neg hsize
    rw [h]
    exact around xs ys run rfl hsize _ _ ihl ihr

theorem split_before (xs ys : List α) : (split xs ys).flatMap Segment.before = xs := by
  induction xs, ys using split_induction with
  | empty => rfl
  | apart xs ys hne hsize => simp [Segment.before]
  | around xs ys run hrun hsize left right ihl ihr =>
    rw [List.flatMap_append, List.flatMap_cons, ihl, ihr]
    exact take_take_drop xs _ _

theorem split_after (xs ys : List α) : (split xs ys).flatMap Segment.after = ys := by
  induction xs, ys using split_induction with
  | empty => rfl
  | apart xs ys hne hsize => simp [Segment.after]
  | around xs ys run hrun hsize left right ihl ihr =>
    rw [List.flatMap_append, List.flatMap_cons, ihl, ihr, hrun, longestRun_common]
    exact take_take_drop ys _ _

theorem split_isProper (xs ys : List α) : ∀ s ∈ split xs ys, s.IsProper := by
  induction xs, ys using split_induction with
  | empty => simp
  | apart xs ys hne hsize => simpa [Segment.IsProper] using hne
  | around xs ys run hrun hsize left right ihl ihr =>
    have hle := longestRun_left_le xs ys
    have hkept : (xs.drop run.left).take run.size ≠ [] := by
      apply List.ne_nil_of_length_pos
      rw [List.length_take, List.length_drop, hrun]
      rw [hrun] at hsize
      omega
    exact List.forall_mem_append.2 ⟨ihl, List.forall_mem_cons.2 ⟨hkept, ihr⟩⟩

/-- Two changes never stand side by side. -/
theorem split_isChain (xs ys : List α) :
    (split xs ys).IsChain fun s t => s.isKept ∨ t.isKept := by
  induction xs, ys using split_induction with
  | empty => simp
  | apart xs ys hne hsize => simp
  | around xs ys run hrun hsize left right ihl ihr =>
    refine ihl.append (List.isChain_cons.2 ⟨fun t _ => Or.inl rfl, ihr⟩) ?_
    intro s _ t ht
    obtain rfl : _ = t := by simpa using ht
    exact Or.inr rfl

end Split

theorem join_kept (items : List α) (rest : List (Segment α)) :
    join (.kept items :: rest) = .kept items :: join rest ∧
        (∀ s ∈ (join rest).head?, s.isKept = false) ∨
      ∃ more tail, join rest = .kept more :: tail ∧
        join (.kept items :: rest) = .kept (items ++ more) :: tail := by
  cases h : join rest with
  | nil => exact Or.inl (by simp [join, h])
  | cons s tail =>
    cases s with
    | kept more => exact Or.inr ⟨more, tail, rfl, by simp [join, h]⟩
    | changed before after => exact Or.inl (by simp [join, h, Segment.isKept])

/-- What joining keeps: anything that two kept stretches give together as they give it apart. -/
theorem flatMap_join {β : Type} (f : Segment α → List β)
    (hf : ∀ xs ys, f (.kept (xs ++ ys)) = f (.kept xs) ++ f (.kept ys)) (segs : List (Segment α)) :
    (join segs).flatMap f = segs.flatMap f := by
  induction segs with
  | nil => rfl
  | cons s rest ih =>
    cases s with
    | kept items =>
      obtain ⟨h, -⟩ | ⟨more, tail, hrest, h⟩ := join_kept items rest
      · rw [h, List.flatMap_cons, List.flatMap_cons, ih]
      · rw [h, List.flatMap_cons, List.flatMap_cons, ← ih, hrest, hf, List.flatMap_cons,
          List.append_assoc]
    | changed before after => simp [join, ih]

theorem join_isProper {segs : List (Segment α)} (h : ∀ s ∈ segs, s.IsProper) :
    ∀ s ∈ join segs, s.IsProper := by
  induction segs with
  | nil => simp [join]
  | cons s rest ih =>
    have hs : s.IsProper := h s (by simp)
    have hrest := ih fun t ht => h t (by simp [ht])
    cases s with
    | kept items =>
      obtain ⟨hj, -⟩ | ⟨more, tail, hr, hj⟩ := join_kept items rest
      · rw [hj]
        exact List.forall_mem_cons.2 ⟨hs, hrest⟩
      · rw [hr] at hrest
        rw [hj]
        exact List.forall_mem_cons.2 ⟨List.append_ne_nil_of_left_ne_nil hs _,
          fun t ht => hrest t (by simp [ht])⟩
    | changed before after =>
      rw [join]
      exact List.forall_mem_cons.2 ⟨hs, hrest⟩

/-- The first stretch stays a change if it was one. -/
theorem join_head_isKept {segs : List (Segment α)} (h : ∀ s ∈ segs.head?, s.isKept = true) :
    ∀ s ∈ (join segs).head?, s.isKept = true := by
  cases segs with
  | nil => simp [join]
  | cons s rest =>
    cases s with
    | kept items =>
      obtain ⟨hj, -⟩ | ⟨more, tail, -, hj⟩ := join_kept items rest <;> simp [hj, Segment.isKept]
    | changed before after => simp [Segment.isKept] at h

theorem join_isChain {segs : List (Segment α)}
    (h : segs.IsChain fun s t => s.isKept ∨ t.isKept) :
    (join segs).IsChain fun s t => s.isKept ≠ t.isKept := by
  induction segs with
  | nil => simp [join]
  | cons s rest ih =>
    obtain ⟨hhead, htail⟩ := List.isChain_cons.1 h
    have hrest := ih htail
    cases s with
    | kept items =>
      obtain ⟨hj, hc⟩ | ⟨more, tail, hr, hj⟩ := join_kept items rest
      · rw [hj]
        refine List.isChain_cons.2 ⟨fun t ht => ?_, hrest⟩
        rw [hc t ht]
        exact fun h => Bool.noConfusion h
      · rw [hr] at hrest
        rw [hj]
        exact List.isChain_cons.2 ⟨(List.isChain_cons.1 hrest).1, (List.isChain_cons.1 hrest).2⟩
    | changed before after =>
      rw [join]
      refine List.isChain_cons.2 ⟨fun t ht => ?_, hrest⟩
      have hk : ∀ t ∈ rest.head?, t.isKept = true := by simpa [Segment.isKept] using hhead
      rw [join_head_isKept hk t ht]
      exact Bool.false_ne_true

end Alignment

variable [DecidableEq α] [Hashable α]

theorem align_before (xs ys : List α) : (align xs ys).flatMap Segment.before = xs := by
  rw [align, Alignment.flatMap_join Segment.before fun _ _ => rfl]
  exact Alignment.split_before xs ys

theorem align_after (xs ys : List α) : (align xs ys).flatMap Segment.after = ys := by
  rw [align, Alignment.flatMap_join Segment.after fun _ _ => rfl]
  exact Alignment.split_after xs ys

theorem align_isProper (xs ys : List α) : ∀ s ∈ align xs ys, s.IsProper :=
  Alignment.join_isProper (Alignment.split_isProper xs ys)

theorem align_isChain (xs ys : List α) :
    (align xs ys).IsChain fun s t => s.isKept ≠ t.isKept :=
  Alignment.join_isChain (Alignment.split_isChain xs ys)

theorem align_self (xs : List α) : align xs xs = if xs = [] then [] else [.kept xs] := by
  have hnil : Alignment.split ([] : List α) [] = [] := by
    rw [Alignment.split]
    simp [Alignment.longestRun_self]
  by_cases h : xs = []
  · subst h
    simp [align, hnil, Alignment.join]
  · rw [align, Alignment.split]
    simp [Alignment.longestRun_self, h, hnil, Alignment.join]

end FormatAudit
