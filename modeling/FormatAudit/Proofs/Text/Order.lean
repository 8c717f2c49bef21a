import FormatAudit.Text.Basic

/-! The order of texts is total, so the distinct members of a list stand in it in one way: each
strictly before the next. -/
namespace FormatAudit.Text

theorem le_cons_cons {c d : Char} {s t : Text} :
    le (c :: s) (d :: t) = true ↔ c = d ∧ le s t = true ∨ c.toNat < d.toNat := by
  by_cases h : c = d
  · subst h
    simp [le]
  · simp [le, h]

theorem le_antisymm {s t : Text} (h₁ : le s t = true) (h₂ : le t s = true) : s = t := by
  induction s generalizing t with
  | nil =>
    cases t with
    | nil => rfl
    | cons d t => simp [le] at h₂
  | cons c s ih =>
    cases t with
    | nil => simp [le] at h₁
    | cons d t =>
      obtain ⟨rfl, hst⟩ | hcd := le_cons_cons.mp h₁
      · obtain ⟨-, hts⟩ | hcc := le_cons_cons.mp h₂
        · rw [ih hst hts]
        · omega
      · obtain ⟨rfl, -⟩ | hdc := le_cons_cons.mp h₂ <;> omega

theorem le_trans {s t u : Text} (h₁ : le s t = true) (h₂ : le t u = true) : le s u = true := by
  induction s generalizing t u with
  | nil => rfl
  | cons c s ih =>
    cases t with
    | nil => simp [le] at h₁
    | cons d t =>
      cases u with
      | nil => simp [le] at h₂
      | cons e u =>
        rw [le_cons_cons]
        obtain ⟨rfl, hst⟩ | hcd := le_cons_cons.mp h₁
        · obtain ⟨rfl, htu⟩ | hce := le_cons_cons.mp h₂
          · exact Or.inl ⟨rfl, ih hst htu⟩
          · exact Or.inr hce
        · obtain ⟨rfl, -⟩ | hde := le_cons_cons.mp h₂
          · exact Or.inr hcd
          · exact Or.inr (Nat.lt_trans hcd hde)

theorem le_total (s t : Text) : le s t = true ∨ le t s = true := by
  induction s generalizing t with
  | nil => exact Or.inl rfl
  | cons c s ih =>
    cases t with
    | nil => exact Or.inr rfl
    | cons d t =>
      rw [le_cons_cons, le_cons_cons]
      by_cases hcd : c = d
      · subst hcd
        obtain h | h := ih t
        · exact Or.inl (Or.inl ⟨rfl, h⟩)
        · exact Or.inr (Or.inl ⟨rfl, h⟩)
      · have hne : c.toNat ≠ d.toNat := fun h => hcd (Char.toNat_inj.mp h)
        omega

def Before (s t : Text) : Prop :=
  le s t = true ∧ s ≠ t

theorem Before.trans {s t u : Text} (h₁ : Before s t) (h₂ : Before t u) : Before s u := by
  refine ⟨le_trans h₁.1 h₂.1, ?_⟩
  rintro rfl
  exact h₁.2 (le_antisymm h₁.1 h₂.1)

theorem mem_insertSorted {a t : Text} {l : List Text} :
    a ∈ insertSorted t l ↔ a = t ∨ a ∈ l := by
  induction l with
  | nil => simp [insertSorted]
  | cons s r ih =>
    simp only [insertSorted]
    split
    · next h =>
      subst h
      simp
    · split
      · simp
      · rw [List.mem_cons, ih, List.mem_cons]
        exact or_left_comm

theorem insertSorted_pairwise (t : Text) {l : List Text} (h : l.Pairwise Before) :
    (insertSorted t l).Pairwise Before := by
  induction l with
  | nil => simp [insertSorted]
  | cons s r ih =>
    have hs := List.pairwise_cons.mp h
    simp only [insertSorted]
    split
    · exact h
    · next hne =>
      split
      · next hle =>
        refine List.pairwise_cons.mpr ⟨?_, h⟩
        intro a ha
        obtain rfl | ha := List.mem_cons.mp ha
        · exact ⟨hle, hne⟩
        · exact Before.trans ⟨hle, hne⟩ (hs.1 a ha)
      · next hle =>
        refine List.pairwise_cons.mpr ⟨?_, ih hs.2⟩
        intro a ha
        obtain rfl | ha := mem_insertSorted.mp ha
        · exact ⟨(le_total a s).resolve_left hle, fun e => hne e.symm⟩
        · exact hs.1 a ha

theorem mem_sortedSet {a : Text} {ts : List Text} : a ∈ sortedSet ts ↔ a ∈ ts := by
  induction ts with
  | nil => simp [sortedSet]
  | cons t ts ih =>
    rw [sortedSet, List.foldr_cons, mem_insertSorted, List.mem_cons]
    exact or_congr Iff.rfl ih

theorem sortedSet_pairwise (ts : List Text) : (sortedSet ts).Pairwise Before := by
  induction ts with
  | nil => exact List.Pairwise.nil
  | cons t ts ih => exact insertSorted_pairwise t ih

theorem sortedSet_nodup (ts : List Text) : (sortedSet ts).Nodup :=
  (sortedSet_pairwise ts).imp fun h => h.2

end FormatAudit.Text
