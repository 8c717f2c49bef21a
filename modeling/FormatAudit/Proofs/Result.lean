import Mathlib.Control.Monad.Basic

/-! Results of computations that may fail: what the steps of one that succeeds have come to, and
what a list of them comes to. -/
namespace FormatAudit
variable {α β ε : Type}

theorem exists_of_bind {x : Except ε α} {f : α → Except ε β} {b : β} (h : (x >>= f) = .ok b) :
    ∃ a, x = .ok a ∧ f a = .ok b := by
  cases x with
  | error e => cases h
  | ok a => exact ⟨a, rfl, h⟩

theorem exists_of_map {x : Except ε α} {f : α → β} {b : β} (h : x.map f = .ok b) :
    ∃ a, x = .ok a ∧ f a = b := by
  cases x with
  | error e => cases h
  | ok a => exact ⟨a, rfl, Except.ok.inj h⟩

theorem mapM_congr {m : Type → Type} [Monad m] [LawfulMonad m] {f g : α → m β} {xs : List α}
    (h : ∀ x ∈ xs, f x = g x) : xs.mapM f = xs.mapM g := by
  induction xs with
  | nil => simp
  | cons x xs ih =>
    obtain ⟨hx, hxs⟩ := List.forall_mem_cons.1 h
    rw [List.mapM_cons, List.mapM_cons, hx, ih hxs]

theorem exists_mem_of_mapM {f : α → Except ε β} {xs : List α} {ys : List β}
    (h : xs.mapM f = .ok ys) : ∀ y ∈ ys, ∃ x ∈ xs, f x = .ok y := by
  induction xs generalizing ys with
  | nil =>
    cases h
    simp
  | cons x xs ih =>
    rw [List.mapM_cons] at h
    obtain ⟨y, hy, h⟩ := exists_of_bind h
    obtain ⟨ys, hys, h⟩ := exists_of_bind h
    cases h
    refine List.forall_mem_cons.2 ⟨⟨x, List.mem_cons_self, hy⟩, fun z hz => ?_⟩
    obtain ⟨w, hw, hfw⟩ := ih hys z hz
    exact ⟨w, List.mem_cons_of_mem x hw, hfw⟩

/-- Gathering the answers to all members of a list fails as one of them does, or returns what these
return. -/
theorem mapM_cases (f : α → Except ε (List β)) (xs : List α) :
    (∃ x ∈ xs, ∃ e, f x = .error e ∧ xs.mapM f = .error e) ∨
      (∀ x ∈ xs, ∃ ys, f x = .ok ys) ∧
        ∃ yss, xs.mapM f = .ok yss ∧
          ∀ y, y ∈ yss.flatten ↔ ∃ x ∈ xs, ∃ ys, f x = .ok ys ∧ y ∈ ys := by
  induction xs with
  | nil => exact .inr ⟨by simp, [], rfl, by simp⟩
  | cons x xs ih =>
    rw [List.mapM_cons]
    cases hx : f x with
    | error e => exact .inl ⟨x, List.mem_cons_self, e, hx, rfl⟩
    | ok ys =>
      obtain ⟨z, hz, e, he, hxs⟩ | ⟨hall, yss, hxs, hmem⟩ := ih
      · exact .inl ⟨z, List.mem_cons_of_mem x hz, e, he, by rw [hxs]; rfl⟩
      · refine .inr ⟨List.forall_mem_cons.2 ⟨⟨ys, hx⟩, hall⟩, ys :: yss, by rw [hxs]; rfl, ?_⟩
        intro y
        simp [hmem, hx]

theorem filterAuxM_cases (q : α → Except ε Bool) (xs acc : List α) :
    (∃ x ∈ xs, ∃ e, q x = .error e ∧ xs.filterAuxM q acc = .error e) ∨
      (∀ x ∈ xs, ∃ b, q x = .ok b) ∧
        ∃ ys, xs.filterAuxM q acc = .ok ys ∧ ∀ y, y ∈ ys ↔ y ∈ acc ∨ y ∈ xs ∧ q y = .ok true := by
  induction xs generalizing acc with
  | nil => exact .inr ⟨by simp, acc, rfl, by simp⟩
  | cons x xs ih =>
    rw [List.filterAuxM]
    cases hx : q x with
    | error e => exact .inl ⟨x, List.mem_cons_self, e, hx, rfl⟩
    | ok b =>
      obtain ⟨z, hz, e, he, hxs⟩ | ⟨hall, ys, hxs, hmem⟩ := ih (bif b then x :: acc else acc)
      · exact .inl ⟨z, List.mem_cons_of_mem x hz, e, he, hxs⟩
      · refine .inr ⟨List.forall_mem_cons.2 ⟨⟨b, hx⟩, hall⟩, ys, hxs, fun y => ?_⟩
        rw [hmem, List.mem_cons]
        cases b <;> grind

theorem filterM_cases (q : α → Except ε Bool) (xs : List α) :
    (∃ x ∈ xs, ∃ e, q x = .error e ∧ xs.filterM q = .error e) ∨
      (∀ x ∈ xs, ∃ b, q x = .ok b) ∧
        ∃ ys, xs.filterM q = .ok ys ∧ ∀ y, y ∈ ys ↔ y ∈ xs ∧ q y = .ok true := by
  rw [List.filterM]
  obtain ⟨x, hx, e, he, hxs⟩ | ⟨hall, ys, hxs, hmem⟩ := filterAuxM_cases q xs []
  · exact .inl ⟨x, hx, e, he, by rw [hxs]; rfl⟩
  · exact .inr ⟨hall, ys.reverse, by rw [hxs]; rfl, by simp [hmem]⟩

/-! ### The first failure of a list -/

theorem mapM_eq_error {v : α → Except ε β} {e : ε} {before : List α} {a : α}
    (hbefore : ∀ b ∈ before, ∃ r, v b = .ok r) (ha : v a = .error e) (after : List α) :
    (before ++ a :: after).mapM v = .error e := by
  induction before with
  | nil =>
    rw [List.nil_append, List.mapM_cons, ha]
    rfl
  | cons b before ih =>
    obtain ⟨⟨r, hr⟩, hbefore⟩ := List.forall_mem_cons.1 hbefore
    rw [List.cons_append, List.mapM_cons, hr, ih hbefore]
    rfl

theorem first_of_mapM_eq_error {v : α → Except ε β} {e : ε} {items : List α}
    (h : items.mapM v = .error e) :
    ∃ before a after, items = before ++ a :: after ∧ (∀ b ∈ before, ∃ r, v b = .ok r) ∧
      v a = .error e := by
  induction items with
  | nil => cases h
  | cons b items ih =>
    rw [List.mapM_cons] at h
    cases hb : v b with
    | error e' =>
      rw [hb] at h
      cases h
      exact ⟨[], b, items, rfl, by simp, hb⟩
    | ok r =>
      rw [hb] at h
      cases hitems : items.mapM v with
      | ok rs =>
        rw [hitems] at h
        cases h
      | error e' =>
        rw [hitems] at h
        cases h
        obtain ⟨before, a, after, rfl, hbefore, ha⟩ := ih hitems
        exact ⟨b :: before, a, after, rfl, List.forall_mem_cons.2 ⟨⟨r, hb⟩, hbefore⟩, ha⟩

end FormatAudit
