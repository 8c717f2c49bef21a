import FormatAudit.Proofs.Text.Lines

/-! Lines shown in a message can be read back: a shown line has no line feed of its own, and the
line comes back from it if the marks do not stand in the line. -/
namespace FormatAudit

theorem MarginedLine.ofLine_append (line : Text) :
    (ofLine line).leading ++ (ofLine line).core ++ (ofLine line).trailing = line := by
  simp only [ofLine, List.append_assoc, ← List.reverse_append, List.takeWhile_append_dropWhile,
    List.reverse_reverse]

theorem mem_visible {c : Char} {t : Text} (h : c ∈ visible t) :
    c ∈ t ∨ c = spaceMark ∨ c = tabMark := by
  obtain ⟨d, hd, hc⟩ := List.mem_flatMap.1 h
  rw [visibleChar] at hc
  split at hc
  · exact Or.inr (Or.inl (List.mem_singleton.1 hc))
  · split at hc
    · next htab =>
      obtain rfl | hc := List.mem_cons.1 hc
      · exact Or.inr (Or.inr rfl)
      · obtain rfl := List.mem_singleton.1 hc
        exact Or.inl (htab ▸ hd)
    · obtain rfl := List.mem_singleton.1 hc
      exact Or.inl hd

theorem newline_not_mem_shown {line : Text} (h : '\n' ∉ line) :
    '\n' ∉ (MarginedLine.ofLine line).shown := by
  have hparts := MarginedLine.ofLine_append line
  have hvisible : ∀ t : Text, '\n' ∉ t → '\n' ∉ visible t := by
    intro t ht hm
    obtain hm | hm | hm := mem_visible hm
    · exact ht hm
    · exact absurd hm (by decide)
    · exact absurd hm (by decide)
  rw [← hparts] at h
  simp only [List.mem_append, not_or] at h
  obtain ⟨⟨hl, hc⟩, ht⟩ := h
  simp only [MarginedLine.shown, List.mem_append, not_or]
  exact ⟨⟨hvisible _ hl, hc⟩, hvisible _ ht⟩

theorem newline_not_mem_renderLines {l lead : Text} (h : IsLine l) (hlead : '\n' ∉ lead) :
    '\n' ∉ renderLines l lead := by
  rw [renderLines_of_isLine h, List.mem_append, not_or]
  exact ⟨hlead, newline_not_mem_shown (newline_not_mem_lineBody l)⟩

def unmark (t : Text) : Text :=
  (t.filter (· ≠ tabMark)).map fun c => if c = spaceMark then ' ' else c

theorem unmark_append (s t : Text) : unmark (s ++ t) = unmark s ++ unmark t := by
  simp [unmark]

theorem unmark_cons {c : Char} (hs : c ≠ spaceMark) (ht : c ≠ tabMark) (t : Text) :
    unmark (c :: t) = c :: unmark t := by
  simp [unmark, hs, ht]

theorem unmark_of_unmarked {t : Text} (hs : spaceMark ∉ t) (ht : tabMark ∉ t) : unmark t = t := by
  induction t with
  | nil => rfl
  | cons c t ih =>
    rw [List.mem_cons, not_or] at hs ht
    rw [unmark_cons (Ne.symm hs.1) (Ne.symm ht.1), ih hs.2 ht.2]

theorem unmark_visibleChar {c : Char} (hs : c ≠ spaceMark) (ht : c ≠ tabMark) :
    unmark (visibleChar c) = [c] := by
  rw [visibleChar]
  split
  · next h => subst h; rfl
  · split
    · next h => subst h; rfl
    · exact unmark_cons hs ht []

theorem unmark_visible {t : Text} (hs : spaceMark ∉ t) (ht : tabMark ∉ t) :
    unmark (visible t) = t := by
  induction t with
  | nil => rfl
  | cons c t ih =>
    rw [List.mem_cons, not_or] at hs ht
    have hstep : visible (c :: t) = visibleChar c ++ visible t := List.flatMap_cons ..
    rw [hstep, unmark_append, unmark_visibleChar (Ne.symm hs.1) (Ne.symm ht.1), ih hs.2 ht.2]
    rfl

/-- A line without marks comes back from what is shown of it. -/
theorem unmark_shown {line : Text} (hs : spaceMark ∉ line) (ht : tabMark ∉ line) :
    unmark (MarginedLine.ofLine line).shown = line := by
  have hparts := MarginedLine.ofLine_append line
  rw [← hparts] at hs ht
  simp only [List.mem_append, not_or] at hs ht
  rw [MarginedLine.shown, unmark_append, unmark_append, unmark_visible hs.1.1 ht.1.1,
    unmark_of_unmarked hs.1.2 ht.1.2, unmark_visible hs.2 ht.2, hparts]

end FormatAudit
