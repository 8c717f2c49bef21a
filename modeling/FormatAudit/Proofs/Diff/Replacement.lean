import FormatAudit.Proofs.Diff.Canonical

/-! Where lines were replaced, the new lines are all new: none of them stands among the lines that
they replace. Splitting goes on as long as the two sides of a change have an item in common, however
often that item is repeated. -/
namespace FormatAudit

section Items

variable {α : Type}

/-- If the stretch is a change, its two sides have no item in common. -/
def Segment.IsApart : Segment α → Prop
  | .kept _ => True
  | .changed before after => before.Disjoint after

namespace Alignment

/-- A change stays as it is when kept runs are joined. -/
theorem mem_of_changed_mem_join {segs : List (Segment α)} {before after : List α}
    (h : .changed before after ∈ join segs) : .changed before after ∈ segs := by
  induction segs with
  | nil => cases h
  | cons s rest ih =>
    cases s with
    | kept items =>
      refine List.mem_cons_of_mem _ (ih ?_)
      obtain ⟨hj, -⟩ | ⟨more, tail, hrest, hj⟩ := join_kept items rest
      · rw [hj] at h
        exact (List.mem_cons.1 h).resolve_left nofun
      · rw [hj] at h
        rw [hrest]
        exact List.mem_cons_of_mem _ ((List.mem_cons.1 h).resolve_left nofun)
    | changed removed added =>
      rw [join] at h
      obtain heq | h := List.mem_cons.1 h
      · rw [heq]
        exact List.mem_cons_self
      · exact List.mem_cons_of_mem _ (ih h)

variable [DecidableEq α]

theorem exists_shared_pos {x : α} {xs ys : List α} (hx : x ∈ xs) (hy : x ∈ ys) :
    ∃ i j, 0 < shared (xs.drop i) (ys.drop j) := by
  obtain ⟨i, hi, rfl⟩ := List.mem_iff_getElem.1 hx
  obtain ⟨j, hj, heq⟩ := List.mem_iff_getElem.1 hy
  refine ⟨i, j, ?_⟩
  rw [List.drop_eq_getElem_cons hi, List.drop_eq_getElem_cons hj, heq, shared, if_pos rfl]
  exact Nat.succ_pos _

variable [Hashable α]

theorem disjoint_of_longestRun_size {xs ys : List α} (h : (longestRun xs ys).size = 0) :
    xs.Disjoint ys := by
  intro x hx hy
  obtain ⟨i, j, hpos⟩ := exists_shared_pos hx hy
  have hmax := (longestRun_isFirstLongest xs ys).longest i j
  omega

theorem split_isApart (xs ys : List α) : ∀ s ∈ split xs ys, s.IsApart := by
  induction xs, ys using split_induction with
  | empty => simp
  | apart xs ys hne hsize => simpa [Segment.IsApart] using disjoint_of_longestRun_size hsize
  | around xs ys run hrun hsize left right ihl ihr =>
    exact List.forall_mem_append.2 ⟨ihl, List.forall_mem_cons.2 ⟨trivial, ihr⟩⟩

end Alignment

theorem align_isApart [DecidableEq α] [Hashable α] (xs ys : List α) :
    ∀ s ∈ align xs ys, s.IsApart := by
  intro s hs
  cases s with
  | kept items => trivial
  | changed before after =>
    exact Alignment.split_isApart xs ys _ (Alignment.mem_of_changed_mem_join hs)

end Items

/-! ### Hunks -/

/-- If the hunk `k` puts lines in the place of those of `h`, no line is in both. -/
def Hunk.IsApart (h k : Hunk) : Prop :=
  h.kind = .removed → k.kind = .added → (splitLines h.text).Disjoint (splitLines k.text)

theorem Hunk.splitLines_of_mem_ofSome {ls : List Text} (hls : IsLines ls) {kind : HunkKind}
    {h : Hunk} (hh : h ∈ Hunk.ofSome kind ls) : splitLines h.text = ls := by
  unfold Hunk.ofSome at hh
  split at hh
  · cases hh
  · obtain rfl := List.mem_singleton.1 hh
    exact splitLines_of_isLines hls

theorem Segment.isChain_isApart {s : Segment Text} (hlines : s.IsOfLines) (hapart : s.IsApart) :
    s.hunks.IsChain Hunk.IsApart := by
  refine isChain_hunks ?_
  rintro before after rfl h hh k hk - -
  rw [Hunk.splitLines_of_mem_ofSome hlines.before hh,
    Hunk.splitLines_of_mem_ofSome hlines.after hk]
  exact hapart

theorem Segment.isApart_of_isKept_ne {s t : Segment Text} (hne : s.isKept ≠ t.isKept) {h k : Hunk}
    (hh : h ∈ s.hunks) (hk : k ∈ t.hunks) : h.IsApart k := by
  intro hremoved hadded
  have hs : s.isKept = false := by
    rw [← Bool.not_eq_true, ← kind_of_mem_hunks hh, hremoved]
    exact nofun
  have ht : t.isKept = false := by
    rw [← Bool.not_eq_true, ← kind_of_mem_hunks hk, hadded]
    exact nofun
  exact absurd (hs.trans ht.symm) hne

/-- Lines that are added in the place of removed ones repeat none of them. -/
theorem added_lines_are_new {before after : Text} {removed added : Hunk}
    (hnext : [removed, added] <:+: diff before after) (hremoved : removed.kind = .removed)
    (hadded : added.kind = .added) :
    ∀ line ∈ splitLines removed.text, line ∉ splitLines added.text := by
  have hchain : (diff before after).IsChain Hunk.IsApart := by
    refine isChain_flatMap_hunks_of (align_isProper _ _) (align_isChain _ _) (fun s hs => ?_)
      fun s t hne h hh k hk => Segment.isApart_of_isKept_ne hne hh hk
    exact Segment.isChain_isApart (align_isOfLines before after s hs) (align_isApart _ _ s hs)
  have hpair : [removed, added].IsChain Hunk.IsApart := List.IsChain.infix hchain hnext
  have hapart : removed.IsApart added := (List.isChain_cons_cons.1 hpair).1
  exact fun line hline => hapart hremoved hadded hline

/-- A line that is kept may be added once more, in the place of other lines. -/
theorem added_lines_are_new_again :
    let before := "x\na\nb\n".toList
    let after := "x\nc\nx\n".toList
    let removed : Hunk := ⟨.removed, 2, "a\nb\n".toList⟩
    let added : Hunk := ⟨.added, 2, "c\nx\n".toList⟩
    diff before after = [⟨.unchanged, 1, "x\n".toList⟩, removed, added] ∧
      ∀ line ∈ splitLines removed.text, line ∉ splitLines added.text := by
  intro before after removed added
  have hbefore : splitLines before = ["x\n".toList, "a\n".toList, "b\n".toList] := by decide
  have hafter : splitLines after = ["x\n".toList, "c\n".toList, "x\n".toList] := by decide
  have hdiff : diff before after = [⟨.unchanged, 1, "x\n".toList⟩, removed, added] := by
    rw [diff, hbefore, hafter]
    simp [align, Alignment.split, Alignment.longestRun, Alignment.longestFrom,
      Alignment.getD_placesIn, Alignment.placesFrom, Alignment.rowBefore, Alignment.firstLongest,
      Alignment.join, Segment.hunks, Hunk.ofSome, Hunk.ofLines, removed, added]
  have hnext : [removed, added] <:+: diff before after := by
    rw [hdiff]
    exact (List.suffix_cons _ _).isInfix
  exact ⟨hdiff, added_lines_are_new hnext rfl rfl⟩

end FormatAudit
