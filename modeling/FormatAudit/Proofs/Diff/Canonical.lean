import FormatAudit.Proofs.Diff.Compare

/-! The hunks of two texts give both texts back, and they stand in one normal form: they count
their own lines, hunks of a kind never touch, and lines removed come before those added in their
place. Nothing is assumed of the texts; the last line of either may lack its line feed. -/
namespace FormatAudit

/-! ### Both texts -/

theorem flatten_flatMap_splitLines (hunks : List Hunk) :
    (hunks.flatMap fun h => splitLines h.text).flatten = hunks.flatMap Hunk.text := by
  induction hunks with
  | nil => rfl
  | cons h hunks ih =>
    rw [List.flatMap_cons, List.flatten_append, splitLines_flatten, ih, List.flatMap_cons]

theorem oldLines_diff (before after : Text) : oldLines (diff before after) = splitLines before := by
  rw [diff, oldLines_flatMap (align_isOfLines before after), align_before]

theorem newLines_diff (before after : Text) : newLines (diff before after) = splitLines after := by
  rw [diff, newLines_flatMap (align_isOfLines before after), align_after]

theorem filter_ne_added (hunks : List Hunk) :
    (hunks.filter fun h => h.kind = .unchanged ∨ h.kind = .removed) =
      hunks.filter fun h => h.kind ≠ .added := by
  refine List.filter_congr fun h _ => ?_
  cases h.kind <;> rfl

theorem filter_ne_removed (hunks : List Hunk) :
    (hunks.filter fun h => h.kind = .unchanged ∨ h.kind = .added) =
      hunks.filter fun h => h.kind ≠ .removed := by
  refine List.filter_congr fun h _ => ?_
  cases h.kind <;> rfl

/-- What is unchanged or removed is the first text, and what is unchanged or added is the second. -/
theorem diff_restores (before after : Text) :
    ((diff before after).filter fun h => h.kind = .unchanged ∨ h.kind = .removed).flatMap
        Hunk.text = before ∧
      ((diff before after).filter fun h => h.kind = .unchanged ∨ h.kind = .added).flatMap
        Hunk.text = after := by
  constructor
  · rw [filter_ne_added, ← flatten_flatMap_splitLines]
    calc (oldLines (diff before after)).flatten
        = (splitLines before).flatten := by rw [oldLines_diff]
      _ = before := splitLines_flatten before
  · rw [filter_ne_removed, ← flatten_flatMap_splitLines]
    calc (newLines (diff before after)).flatten
        = (splitLines after).flatten := by rw [newLines_diff]
      _ = after := splitLines_flatten after

/-! ### The order of the hunks -/

structure Hunk.IsCounted (h : Hunk) : Prop where
  pos : 1 ≤ h.lineCount
  lineCount_eq : h.lineCount = (splitLines h.text).length

structure Hunk.MayPrecede (h k : Hunk) : Prop where
  kind_ne : h.kind ≠ k.kind
  after_removed : h.kind = .removed → k.kind = .added ∨ k.kind = .unchanged
  after_added : h.kind = .added → k.kind = .unchanged

theorem Hunk.mayPrecede_iff {h k : Hunk} :
    h.MayPrecede k ↔ h.kind ≠ k.kind ∧ (h.kind = .added → k.kind = .unchanged) := by
  refine ⟨fun hp => ⟨hp.kind_ne, hp.after_added⟩, fun ⟨hne, hadded⟩ => ⟨hne, ?_, hadded⟩⟩
  intro hremoved
  cases hk : k.kind with
  | unchanged => exact Or.inr rfl
  | removed => exact absurd (hremoved.trans hk.symm) hne
  | added => exact Or.inl rfl

theorem Hunk.isCounted_ofLines {ls : List Text} (h : IsLines ls) (hne : ls ≠ [])
    (kind : HunkKind) : (Hunk.ofLines kind ls).IsCounted := by
  constructor
  · exact List.length_pos_of_ne_nil hne
  · exact congrArg List.length (splitLines_of_isLines h).symm

theorem Hunk.isCounted_of_mem_ofSome {ls : List Text} (h : IsLines ls) {kind : HunkKind} {k : Hunk}
    (hk : k ∈ Hunk.ofSome kind ls) : k.IsCounted := by
  unfold Hunk.ofSome at hk
  split at hk
  · cases hk
  · next hne =>
    obtain rfl := List.mem_singleton.1 hk
    exact isCounted_ofLines h hne kind

theorem Segment.isCounted_of_mem_hunks {s : Segment Text} (h : s.IsOfLines) {k : Hunk}
    (hk : k ∈ s.hunks) : k.IsCounted := by
  cases s with
  | kept items => exact Hunk.isCounted_of_mem_ofSome h.before hk
  | changed before after =>
    obtain hk | hk := List.mem_append.1 hk
    · exact Hunk.isCounted_of_mem_ofSome h.before hk
    · exact Hunk.isCounted_of_mem_ofSome h.after hk

theorem Hunk.kind_of_mem_ofSome {ls : List Text} {kind : HunkKind} {k : Hunk}
    (hk : k ∈ Hunk.ofSome kind ls) : k.kind = kind := by
  unfold Hunk.ofSome at hk
  split at hk
  · cases hk
  · obtain rfl := List.mem_singleton.1 hk
    rfl

theorem Segment.kind_of_mem_hunks {s : Segment Text} {k : Hunk} (hk : k ∈ s.hunks) :
    k.kind = .unchanged ↔ s.isKept = true := by
  cases s with
  | kept items => simp [Hunk.kind_of_mem_ofSome hk, Segment.isKept]
  | changed before after =>
    obtain hk | hk := List.mem_append.1 hk <;>
      simp [Hunk.kind_of_mem_ofSome hk, Segment.isKept]

theorem Segment.hunks_ne_nil {s : Segment Text} (h : s.IsProper) : s.hunks ≠ [] := by
  cases s with
  | kept items =>
    have hne : items ≠ [] := h
    simp [Segment.hunks, Hunk.ofSome, hne]
  | changed before after =>
    obtain h | h := h <;> simp [Segment.hunks, Hunk.ofSome, h]

theorem Segment.isChain_hunks {R : Hunk → Hunk → Prop} {s : Segment Text}
    (hR : ∀ before after, s = .changed before after →
      ∀ k ∈ Hunk.ofSome .removed before, ∀ l ∈ Hunk.ofSome .added after, R k l) :
    s.hunks.IsChain R := by
  have hsingle : ∀ kind ls, (Hunk.ofSome kind ls).IsChain R := by
    intro kind ls
    unfold Hunk.ofSome
    split <;> simp
  cases s with
  | kept items => exact hsingle _ _
  | changed before after =>
    refine (hsingle _ _).append (hsingle _ _) fun k hk l hl => ?_
    exact hR before after rfl k (List.mem_of_mem_getLast? hk) l (List.mem_of_mem_head? hl)

/-- Between stretches of different kinds, hunks of different kinds meet, and one of the two is
unchanged. -/
theorem Segment.mayPrecede_of_isKept_ne {s t : Segment Text} (hne : s.isKept ≠ t.isKept)
    {k l : Hunk} (hk : k ∈ s.hunks) (hl : l ∈ t.hunks) : k.MayPrecede l := by
  have hs := kind_of_mem_hunks hk
  have ht := kind_of_mem_hunks hl
  rw [Hunk.mayPrecede_iff]
  constructor
  · intro heq
    rw [heq, ht, Bool.coe_iff_coe] at hs
    exact hne hs.symm
  · intro hadded
    have hchanged : s.isKept = false := by
      rw [← Bool.not_eq_true, ← hs, hadded]
      exact fun h => HunkKind.noConfusion h
    apply ht.2
    cases hkept : t.isKept with
    | true => rfl
    | false => exact absurd (hchanged.trans hkept.symm) hne

/-- What holds of hunks that follow each other within a stretch, and of hunks of stretches that
follow each other. -/
theorem isChain_flatMap_hunks_of {R : Hunk → Hunk → Prop} {segs : List (Segment Text)}
    (hproper : ∀ s ∈ segs, s.IsProper) (hchain : segs.IsChain fun s t => s.isKept ≠ t.isKept)
    (hwithin : ∀ s ∈ segs, s.hunks.IsChain R)
    (hbetween : ∀ s t : Segment Text, s.isKept ≠ t.isKept →
      ∀ k ∈ s.hunks, ∀ l ∈ t.hunks, R k l) :
    (segs.flatMap Segment.hunks).IsChain R := by
  have hnil : [] ∉ segs.map Segment.hunks := by
    intro hmem
    obtain ⟨s, hs, hempty⟩ := List.mem_map.1 hmem
    exact Segment.hunks_ne_nil (hproper s hs) hempty
  rw [List.flatMap_def, List.isChain_flatten hnil, List.isChain_map]
  constructor
  · intro hunks hmem
    obtain ⟨s, hs, rfl⟩ := List.mem_map.1 hmem
    exact hwithin s hs
  · refine hchain.imp fun s t hne k hk l hl => ?_
    exact hbetween s t hne k (List.mem_of_mem_getLast? hk) l (List.mem_of_mem_head? hl)

theorem isChain_flatMap_hunks {segs : List (Segment Text)} (hproper : ∀ s ∈ segs, s.IsProper)
    (hchain : segs.IsChain fun s t => s.isKept ≠ t.isKept) :
    (segs.flatMap Segment.hunks).IsChain Hunk.MayPrecede := by
  refine isChain_flatMap_hunks_of hproper hchain (fun s _ => Segment.isChain_hunks ?_)
    fun s t hne k hk l hl => Segment.mayPrecede_of_isKept_ne hne hk hl
  intro before after _ k hk l hl
  rw [Hunk.mayPrecede_iff, Hunk.kind_of_mem_ofSome hk, Hunk.kind_of_mem_ofSome hl]
  exact ⟨nofun, nofun⟩

theorem diff_self (t : Text) :
    diff t t = if t = [] then [] else [⟨.unchanged, (splitLines t).length, t⟩] := by
  by_cases ht : t = []
  · have hnil : splitLines t = [] := splitLines_eq_nil.2 ht
    rw [diff, align_self, if_pos hnil, if_pos ht, List.flatMap_nil]
  · have hne : splitLines t ≠ [] := fun h => ht (splitLines_eq_nil.1 h)
    rw [diff, align_self, if_neg hne, if_neg ht, List.flatMap_singleton, Segment.hunks, Hunk.ofSome,
      if_neg hne, Hunk.ofLines, splitLines_flatten]

/-- The hunks of two texts are in normal form, and without a change among them there is at most
one of them. -/
theorem diff_isCanonical (before after : Text) :
    (∀ h ∈ diff before after, h.IsCounted) ∧
      (diff before after).IsChain Hunk.MayPrecede ∧
      (hasChanges (diff before after) = false ↔ before = after) ∧
      (before = after → diff before after =
        if before = [] then [] else [⟨.unchanged, (splitLines before).length, before⟩]) := by
  refine ⟨?_, ?_, ?_, ?_⟩
  · intro h hh
    obtain ⟨s, hs, hh⟩ := List.mem_flatMap.1 hh
    exact Segment.isCounted_of_mem_hunks (align_isOfLines before after s hs) hh
  · exact isChain_flatMap_hunks (align_isProper _ _) (align_isChain _ _)
  · rw [← Bool.not_eq_true, hasChanges_diff, not_not]
  · rintro rfl
    exact diff_self before

end FormatAudit
