import FormatAudit.Proofs.Diff.Canonical
import Mathlib.Order.Bounds.Defs

/-! The longest run of lines that two texts have in common is kept, and of several the one that
starts first in the first text, and there first in the second. Joining makes no kept run longer
than that, and the splits on both sides of it find none of its length before it. -/
namespace FormatAudit

section Items

variable {α : Type}

def StandsAt (run xs : List α) (i : Nat) : Prop :=
  run <+: xs.drop i

def IsCommon (run xs ys : List α) : Prop :=
  run <:+: xs ∧ run <:+: ys

theorem infix_of_standsAt {run xs : List α} {i : Nat} (h : StandsAt run xs i) : run <:+: xs :=
  h.isInfix.trans (List.drop_suffix i xs).isInfix

theorem standsAt_append (pre run post : List α) : StandsAt run (pre ++ run ++ post) pre.length := by
  rw [StandsAt, List.append_assoc, List.drop_left]
  exact List.prefix_append run post

theorem exists_standsAt_of_infix {run xs : List α} (h : run <:+: xs) : ∃ i, StandsAt run xs i := by
  obtain ⟨pre, post, rfl⟩ := h
  exact ⟨pre.length, standsAt_append pre run post⟩

/-! ### Joining around a kept run -/

namespace Alignment

/-- A kept run is still kept after joining, as part of a longer one perhaps, and what comes before
it is the same. -/
theorem join_around (left : List (Segment α)) (items : List α) (right : List (Segment α)) :
    ∃ front p q back,
      join (left ++ .kept items :: right) = front ++ .kept (p ++ items ++ q) :: back ∧
      ∀ f : Segment α → List α, (∀ xs, f (.kept xs) = xs) →
        front.flatMap f ++ p = left.flatMap f := by
  induction left with
  | nil =>
    obtain ⟨h, -⟩ | ⟨more, tail, -, h⟩ := join_kept items right
    · exact ⟨[], [], [], join right, by simpa using h, fun _ _ => rfl⟩
    · exact ⟨[], [], more, tail, by simpa using h, fun _ _ => rfl⟩
  | cons s left ih =>
    obtain ⟨front, p, q, back, hjoin, hfront⟩ := ih
    have hcons : ∀ f : Segment α → List α, (∀ xs, f (.kept xs) = xs) →
        (s :: front).flatMap f ++ p = (s :: left).flatMap f := by
      intro f hf
      rw [List.flatMap_cons, List.flatMap_cons, List.append_assoc, hfront f hf]
    cases s with
    | changed removed added =>
      refine ⟨.changed removed added :: front, p, q, back, ?_, hcons⟩
      rw [List.cons_append, join, hjoin, List.cons_append]
    | kept first =>
      obtain ⟨h, -⟩ | ⟨more, tail, hrest, h⟩ := join_kept first (left ++ .kept items :: right)
      · refine ⟨.kept first :: front, p, q, back, ?_, hcons⟩
        rw [List.cons_append, h, hjoin, List.cons_append]
      · -- `first` is joined to the stretch behind it, which is the one with `items` if `front` is
        -- empty.
        rw [hjoin] at hrest
        cases front with
        | nil =>
          obtain ⟨hmore, rfl⟩ := List.cons.inj hrest
          obtain rfl := Segment.kept.inj hmore
          refine ⟨[], first ++ p, q, back, by simpa using h, fun f hf => ?_⟩
          simpa [hf] using hcons f hf
        | cons next front =>
          obtain ⟨rfl, rfl⟩ := List.cons.inj hrest
          refine ⟨.kept (first ++ more) :: front, p, q, back, h, fun f hf => ?_⟩
          simpa [hf] using hcons f hf

variable [DecidableEq α]

theorem length_le_shared {run xs ys : List α} (hx : run <+: xs) (hy : run <+: ys) :
    run.length ≤ shared xs ys :=
  le_shared hx.length_le hy.length_le
    ((List.prefix_iff_eq_take.1 hx).symm.trans (List.prefix_iff_eq_take.1 hy))

variable [Hashable α] {xs ys run : List α} {i j : Nat}

theorem length_le_size (hx : StandsAt run xs i) (hy : StandsAt run ys j) :
    run.length ≤ (longestRun xs ys).size :=
  (length_le_shared hx hy).trans ((longestRun_isFirstLongest xs ys).longest i j)

theorem length_le_size_of_isCommon (h : IsCommon run xs ys) :
    run.length ≤ (longestRun xs ys).size := by
  obtain ⟨i, hx⟩ := exists_standsAt_of_infix h.1
  obtain ⟨j, hy⟩ := exists_standsAt_of_infix h.2
  exact length_le_size hx hy

/-- Wherever else a run of the greatest length stands, it is not before the one that is chosen. -/
theorem longestRun_first (hpos : 0 < (longestRun xs ys).size)
    (hlen : run.length = (longestRun xs ys).size) (hx : StandsAt run xs i)
    (hy : StandsAt run ys j) :
    (longestRun xs ys).left < i ∨ (longestRun xs ys).left = i ∧ (longestRun xs ys).right ≤ j := by
  have hspec := longestRun_isFirstLongest xs ys
  have hle : run.length ≤ shared (xs.drop i) (ys.drop j) := length_le_shared hx hy
  exact hspec.first hpos i j (Nat.le_antisymm (hspec.longest i j) (hlen ▸ hle))

variable (xs ys)

def longestItems : List α :=
  (xs.drop (longestRun xs ys).left).take (longestRun xs ys).size

theorem longestItems_length : (longestItems xs ys).length = (longestRun xs ys).size := by
  have hle := longestRun_left_le xs ys
  rw [longestItems, List.length_take, List.length_drop]
  omega

theorem longestItems_standsAt_left : StandsAt (longestItems xs ys) xs (longestRun xs ys).left :=
  List.take_prefix _ _

theorem longestItems_standsAt_right :
    StandsAt (longestItems xs ys) ys (longestRun xs ys).right := by
  rw [longestItems, longestRun_common]
  exact List.take_prefix _ _

theorem isGreatest_size :
    IsGreatest {n | ∃ run, IsCommon run xs ys ∧ run.length = n} (longestRun xs ys).size := by
  refine ⟨⟨longestItems xs ys, ?_, longestItems_length xs ys⟩, ?_⟩
  · exact ⟨infix_of_standsAt (longestItems_standsAt_left xs ys),
      infix_of_standsAt (longestItems_standsAt_right xs ys)⟩
  · rintro n ⟨run, hcommon, rfl⟩
    exact length_le_size_of_isCommon hcommon

variable {xs ys}

theorem isLeast_left (hpos : 0 < (longestRun xs ys).size) :
    IsLeast {i | ∃ run, run.length = (longestRun xs ys).size ∧ StandsAt run xs i ∧ run <:+: ys}
      (longestRun xs ys).left := by
  refine ⟨⟨longestItems xs ys, longestItems_length xs ys, longestItems_standsAt_left xs ys,
    infix_of_standsAt (longestItems_standsAt_right xs ys)⟩, ?_⟩
  rintro i ⟨run, hlen, hx, hinfix⟩
  obtain ⟨j, hy⟩ := exists_standsAt_of_infix hinfix
  obtain hlt | ⟨heq, -⟩ := longestRun_first hpos hlen hx hy
  · exact Nat.le_of_lt hlt
  · exact Nat.le_of_eq heq

theorem isLeast_right (hpos : 0 < (longestRun xs ys).size) :
    IsLeast {j | StandsAt (longestItems xs ys) ys j} (longestRun xs ys).right := by
  refine ⟨longestItems_standsAt_right xs ys, fun j hy => ?_⟩
  obtain hlt | ⟨-, hle⟩ := longestRun_first hpos (longestItems_length xs ys)
    (longestItems_standsAt_left xs ys) hy
  · exact absurd hlt (Nat.lt_irrefl _)
  · exact hle

theorem split_around (hpos : 0 < (longestRun xs ys).size) :
    ∃ right, split xs ys =
      split (xs.take (longestRun xs ys).left) (ys.take (longestRun xs ys).right) ++
        .kept (longestItems xs ys) :: right := by
  rw [split]
  exact ⟨_, dif_neg (Nat.ne_of_gt hpos)⟩

end Alignment

open FormatAudit.Alignment

variable [DecidableEq α] [Hashable α] {xs ys : List α}

/-- What an alignment keeps stands in both sequences, behind all that comes before it. -/
theorem standsAt_of_align {front back : List (Segment α)} {items : List α}
    (h : align xs ys = front ++ .kept items :: back) :
    StandsAt items xs (front.flatMap Segment.before).length ∧
      StandsAt items ys (front.flatMap Segment.after).length := by
  have hbefore := align_before xs ys
  have hafter := align_after xs ys
  rw [h, List.flatMap_append, List.flatMap_cons, ← List.append_assoc] at hbefore hafter
  constructor
  · rw [← hbefore]
    exact standsAt_append _ items _
  · rw [← hafter]
    exact standsAt_append _ items _

theorem length_le_of_kept_mem_align {items : List α} (h : .kept items ∈ align xs ys) :
    items.length ≤ (longestRun xs ys).size := by
  obtain ⟨front, back, heq⟩ := List.append_of_mem h
  obtain ⟨hx, hy⟩ := standsAt_of_align heq
  exact length_le_size hx hy

/-- The longest common run is kept where it was found. -/
theorem align_keeps_longest (hpos : 0 < (longestRun xs ys).size) :
    ∃ front back, align xs ys = front ++ .kept (longestItems xs ys) :: back ∧
      (front.flatMap Segment.before).length = (longestRun xs ys).left ∧
      (front.flatMap Segment.after).length = (longestRun xs ys).right := by
  obtain ⟨right, hsplit⟩ := split_around hpos
  obtain ⟨front, p, q, back, hjoin, hfront⟩ := join_around
    (split (xs.take (longestRun xs ys).left) (ys.take (longestRun xs ys).right))
    (longestItems xs ys) right
  have halign : align xs ys = front ++ .kept (p ++ longestItems xs ys ++ q) :: back := by
    rw [align, hsplit, hjoin]
  -- A run that joining had made longer would be longer than the longest one.
  have hle := length_le_of_kept_mem_align (halign ▸ List.mem_append_right front List.mem_cons_self)
  rw [List.length_append, List.length_append, longestItems_length] at hle
  obtain rfl : p = [] := List.eq_nil_of_length_eq_zero (by omega)
  obtain rfl : q = [] := List.eq_nil_of_length_eq_zero (by omega)
  have hbefore := hfront Segment.before fun _ => rfl
  have hafter := hfront Segment.after fun _ => rfl
  rw [List.append_nil, split_before] at hbefore
  rw [List.append_nil, split_after] at hafter
  have hleft := longestRun_left_le xs ys
  have hright := longestRun_right_le xs ys
  refine ⟨front, back, by simpa using halign, ?_, ?_⟩
  · rw [hbefore, List.length_take]
    omega
  · rw [hafter, List.length_take]
    omega

/-- Before the longest common run, all that is kept is shorter. -/
theorem length_lt_of_kept_mem_front {front back : List (Segment α)} {items run : List α}
    (hpos : 0 < (longestRun xs ys).size) (h : align xs ys = front ++ .kept run :: back)
    (hleft : (front.flatMap Segment.before).length = (longestRun xs ys).left)
    (hmem : .kept items ∈ front) : items.length < (longestRun xs ys).size := by
  have hkept : .kept items ∈ align xs ys := by simp [h, hmem]
  have hle := length_le_of_kept_mem_align hkept
  refine Nat.lt_of_le_of_ne hle fun hlen => ?_
  -- One of the same length would stand before the one that was found first.
  obtain ⟨start, rest, rfl⟩ := List.append_of_mem hmem
  have hsplit : align xs ys = start ++ .kept items :: (rest ++ .kept run :: back) := by
    simpa using h
  obtain ⟨hx, hy⟩ := standsAt_of_align hsplit
  have hfirst := longestRun_first hpos hlen hx hy
  rw [List.flatMap_append, List.flatMap_cons, List.length_append, List.length_append,
    Segment.before] at hleft
  omega

end Items

/-! ### Hunks -/

open FormatAudit.Alignment

/-- The hunk `h` behind the hunks `front` keeps the first of the longest common runs of two lists of
lines, which have `k` lines each. -/
structure Hunk.KeepsFirst (before after : List Text) (k : Nat) (front : List Hunk) (h : Hunk) :
    Prop where
  kind_eq : h.kind = .unchanged
  lineCount_eq : h.lineCount = k
  shorter : ∀ earlier ∈ front, earlier.kind = .unchanged → earlier.lineCount < k
  length_eq : (splitLines h.text).length = k
  standsAt : StandsAt (splitLines h.text) before (oldLines front).length
  left : IsLeast {i | ∃ run, run.length = k ∧ StandsAt run before i ∧ run <:+: after}
    (oldLines front).length
  right : IsLeast {j | StandsAt (splitLines h.text) after j} (newLines front).length

theorem Segment.kept_of_mem_hunks {segs : List (Segment Text)} {h : Hunk}
    (hmem : h ∈ segs.flatMap Segment.hunks) (hkind : h.kind = .unchanged) :
    ∃ lines, .kept lines ∈ segs ∧ h = Hunk.ofLines .unchanged lines := by
  obtain ⟨s, hs, hh⟩ := List.mem_flatMap.1 hmem
  have hkept := (Segment.kind_of_mem_hunks hh).1 hkind
  cases s with
  | kept lines =>
    rw [Segment.hunks, Hunk.ofSome] at hh
    split at hh
    · cases hh
    · exact ⟨lines, hs, List.mem_singleton.1 hh⟩
  | changed removed added => cases hkept

theorem Hunk.keepsFirst_of_align {before after : Text} {front back : List (Segment Text)}
    (hpos : 0 < (longestRun (splitLines before) (splitLines after)).size)
    (halign : align (splitLines before) (splitLines after) =
      front ++ .kept (longestItems (splitLines before) (splitLines after)) :: back)
    (hleft : (front.flatMap Segment.before).length =
      (longestRun (splitLines before) (splitLines after)).left)
    (hright : (front.flatMap Segment.after).length =
      (longestRun (splitLines before) (splitLines after)).right) :
    (Hunk.ofLines .unchanged (longestItems (splitLines before) (splitLines after))).KeepsFirst
      (splitLines before) (splitLines after)
      (longestRun (splitLines before) (splitLines after)).size (front.flatMap Segment.hunks) := by
  have hlines := align_isOfLines before after
  rw [halign] at hlines
  obtain ⟨hfront, hrest⟩ := List.forall_mem_append.1 hlines
  have hkept : splitLines (longestItems (splitLines before) (splitLines after)).flatten =
      longestItems (splitLines before) (splitLines after) :=
    splitLines_of_isLines (List.forall_mem_cons.1 hrest).1.before
  have hlen := longestItems_length (splitLines before) (splitLines after)
  have hold := (congrArg List.length (oldLines_flatMap hfront)).trans hleft
  have hnew := (congrArg List.length (newLines_flatMap hfront)).trans hright
  constructor
  case kind_eq => rfl
  case lineCount_eq => exact hlen
  case shorter =>
    intro earlier hearlier hkind
    obtain ⟨lines, hmem, rfl⟩ := Segment.kept_of_mem_hunks hearlier hkind
    exact length_lt_of_kept_mem_front hpos halign hleft hmem
  case length_eq => exact (congrArg List.length hkept).trans hlen
  case standsAt =>
    rw [hold, Hunk.ofLines, hkept]
    exact longestItems_standsAt_left _ _
  case left =>
    rw [hold]
    exact isLeast_left hpos
  case right =>
    rw [hnew]
    simp only [Hunk.ofLines, hkept]
    exact isLeast_right hpos

/-- The longest runs of lines that two texts have in common have some length; no unchanged hunk is
longer, and if it is not zero the first of these runs is kept. -/
theorem diff_keeps_longest (before after : Text) :
    ∃ k, IsGreatest {n | ∃ run, IsCommon run (splitLines before) (splitLines after) ∧
        run.length = n} k ∧
      (∀ h ∈ diff before after, h.kind = .unchanged → h.lineCount ≤ k) ∧
      (0 < k → ∃ front h back, diff before after = front ++ h :: back ∧
        h.KeepsFirst (splitLines before) (splitLines after) k front) := by
  refine ⟨_, isGreatest_size _ _, ?_, fun hpos => ?_⟩
  · intro h hh hkind
    obtain ⟨lines, hkept, rfl⟩ := Segment.kept_of_mem_hunks hh hkind
    exact length_le_of_kept_mem_align hkept
  · obtain ⟨front, back, halign, hleft, hright⟩ := align_keeps_longest hpos
    have hlen := longestItems_length (splitLines before) (splitLines after)
    have hne := List.ne_nil_of_length_pos (hlen ▸ hpos)
    refine ⟨_, _, back.flatMap Segment.hunks, ?_,
      Hunk.keepsFirst_of_align hpos halign hleft hright⟩
    rw [diff, halign, List.flatMap_append, List.flatMap_cons, Segment.hunks, Hunk.ofSome,
      if_neg hne, List.singleton_append]

end FormatAudit
