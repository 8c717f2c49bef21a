import FormatAudit.Text.Basic

/-! Cutting a text at a separator undoes joining: texts without the separator come back from the
text that they are joined to. What stands behind the last separator comes back by itself. -/
namespace FormatAudit.Text
variable {sep : Char}

theorem pieces_append_sep {x : Text} (h : sep ∉ x) (y : Text) :
    pieces sep (x ++ sep :: y) = x :: pieces sep y := by
  induction x with
  | nil => simp [pieces]
  | cons c x ih =>
    rw [List.mem_cons, not_or] at h
    simp [pieces, Ne.symm h.1, ih h.2]

theorem pieces_of_not_mem {x : Text} (h : sep ∉ x) : pieces sep x = [x] := by
  induction x with
  | nil => rfl
  | cons c x ih =>
    rw [List.mem_cons, not_or] at h
    simp [pieces, Ne.symm h.1, ih h.2]

/-- Of two cuts of a text at a separator, one with no separator behind it comes last. -/
theorem length_le_of_append_sep {x₁ x₂ y₁ y₂ : Text} (hy : sep ∉ y₁)
    (h : x₁ ++ sep :: y₁ = x₂ ++ sep :: y₂) : x₂.length ≤ x₁.length := by
  obtain ⟨z, hx, htail⟩ | ⟨z, hx, -⟩ := List.append_eq_append_iff.1 h
  · cases z with
    | nil => simp [hx]
    | cons c z =>
      -- the second cut would come later, so its separator would stand behind the first
      have hmem : sep ∈ y₁ := by
        rw [(List.cons.inj htail).2]
        exact List.mem_append_right z List.mem_cons_self
      exact absurd hmem hy
  · simp [hx]

theorem append_sep_inj {x₁ x₂ y₁ y₂ : Text} (h₁ : sep ∉ y₁) (h₂ : sep ∉ y₂) :
    x₁ ++ sep :: y₁ = x₂ ++ sep :: y₂ ↔ x₁ = x₂ ∧ y₁ = y₂ := by
  constructor
  · intro h
    have hlength : x₁.length = x₂.length :=
      Nat.le_antisymm (length_le_of_append_sep h₂ h.symm) (length_le_of_append_sep h₁ h)
    obtain ⟨hx, htail⟩ := List.append_inj h hlength
    exact ⟨hx, (List.cons.inj htail).2⟩
  · intro h
    rw [h.1, h.2]

theorem pieces_flatMap_append {xs : List Text} (h : ∀ x ∈ xs, sep ∉ x) (y : Text) :
    pieces sep (xs.flatMap (· ++ [sep]) ++ y) = xs ++ pieces sep y := by
  induction xs with
  | nil => rfl
  | cons x xs ih =>
    obtain ⟨hx, hxs⟩ := List.forall_mem_cons.1 h
    calc pieces sep ((x :: xs).flatMap (· ++ [sep]) ++ y)
        = pieces sep (x ++ sep :: (xs.flatMap (· ++ [sep]) ++ y)) := by
          simp only [List.flatMap_cons, List.append_assoc, List.cons_append, List.nil_append]
      _ = x :: xs ++ pieces sep y := by rw [pieces_append_sep hx, ih hxs, List.cons_append]

theorem intercalate_append_sep {xs : List Text} (h : xs ≠ []) :
    [sep].intercalate xs ++ [sep] = xs.flatMap (· ++ [sep]) := by
  induction xs with
  | nil => exact absurd rfl h
  | cons x xs ih =>
    by_cases hxs : xs = []
    · subst hxs
      simp
    · rw [List.intercalate_cons_of_ne_nil hxs, List.flatMap_cons, ← ih hxs]
      simp only [List.append_assoc]

theorem intercalate_append {xs ys : List Text} (hx : xs ≠ []) (hy : ys ≠ []) :
    [sep].intercalate (xs ++ ys) = [sep].intercalate xs ++ sep :: [sep].intercalate ys := by
  induction xs with
  | nil => exact absurd rfl hx
  | cons x xs ih =>
    by_cases hxs : xs = []
    · subst hxs
      simp [List.intercalate_cons_of_ne_nil hy]
    · have happend : xs ++ ys ≠ [] := List.append_ne_nil_of_left_ne_nil hxs ys
      rw [List.cons_append, List.intercalate_cons_of_ne_nil happend, ih hxs,
        List.intercalate_cons_of_ne_nil hxs]
      simp only [List.append_assoc]

theorem intercalate_eq_nil {xs : List Text} (h : ∀ x ∈ xs, x ≠ []) :
    [sep].intercalate xs = [] ↔ xs = [] := by
  cases xs with
  | nil => simp
  | cons x xs =>
    have hx := h x List.mem_cons_self
    cases xs <;> simp [hx]

theorem eq_sep_or_mem_of_mem_intercalate {xs : List Text} {c : Char}
    (h : c ∈ [sep].intercalate xs) : c = sep ∨ ∃ x ∈ xs, c ∈ x := by
  induction xs with
  | nil => simp at h
  | cons x xs ih =>
    by_cases hxs : xs = []
    · subst hxs
      exact .inr ⟨x, List.mem_cons_self, by simpa using h⟩
    · rw [List.intercalate_cons_of_ne_nil hxs, List.append_assoc, List.mem_append,
        List.mem_append, List.mem_singleton] at h
      obtain h | h | h := h
      · exact .inr ⟨x, List.mem_cons_self, h⟩
      · exact .inl h
      · obtain hsep | ⟨y, hy, hc⟩ := ih h
        · exact .inl hsep
        · exact .inr ⟨y, List.mem_cons_of_mem x hy, hc⟩

theorem mem_intercalate_of_mem {xs : List Text} {x : Text} {c : Char} (hx : x ∈ xs) (hc : c ∈ x) :
    c ∈ [sep].intercalate xs := by
  obtain ⟨before, after, rfl⟩ := List.append_of_mem hx
  have hfront : ∀ after, c ∈ [sep].intercalate (x :: after) := by
    intro after
    by_cases hafter : after = []
    · simpa [hafter] using hc
    · rw [List.intercalate_cons_of_ne_nil hafter]
      simp [hc]
  by_cases hbefore : before = []
  · simpa [hbefore] using hfront after
  · rw [intercalate_append hbefore (List.cons_ne_nil _ _)]
    exact List.mem_append_right _ (List.mem_cons_of_mem _ (hfront after))

theorem mem_of_mem_pieces {x t : Text} {c : Char} (hx : x ∈ pieces sep t) (hc : c ∈ x) : c ∈ t := by
  induction t generalizing x with
  | nil =>
    rw [pieces, List.mem_singleton] at hx
    exact hx ▸ hc
  | cons d r ih =>
    rw [pieces] at hx
    split at hx
    · obtain rfl | hx := List.mem_cons.1 hx
      · cases hc
      · exact List.mem_cons_of_mem d (ih hx hc)
    · split at hx
      · rw [List.mem_singleton] at hx
        subst hx
        simp_all
      · next q qs hq =>
        obtain rfl | hx := List.mem_cons.1 hx
        · obtain rfl | hc := List.mem_cons.1 hc
          · exact List.mem_cons_self
          · exact List.mem_cons_of_mem d (ih (by simp [hq]) hc)
        · exact List.mem_cons_of_mem d (ih (by simp [hq, hx]) hc)

theorem pieces_intercalate {xs : List Text} (h : ∀ x ∈ xs, sep ∉ x) (hne : xs ≠ []) :
    pieces sep ([sep].intercalate xs) = xs := by
  induction xs with
  | nil => exact absurd rfl hne
  | cons x xs ih =>
    obtain ⟨hx, hxs⟩ := List.forall_mem_cons.1 h
    by_cases hnil : xs = []
    · subst hnil
      simpa using pieces_of_not_mem hx
    · rw [List.intercalate_cons_of_ne_nil hnil, List.append_assoc, List.singleton_append,
        pieces_append_sep hx, ih hxs hnil]

end FormatAudit.Text
