import FormatAudit.Diff.Alignment

/-! The run that an alignment splits at is a longest common run, and of these the first one: no
other choice is left. The rows of the search are compared with the length of the longest common
beginning of two sequences. -/
namespace FormatAudit.Alignment
variable {α : Type} [DecidableEq α]

/-- The length of the longest common beginning of two sequences. -/
def shared : List α → List α → Nat
  | x :: xs, y :: ys => if x = y then shared xs ys + 1 else 0
  | _, _ => 0

@[simp]
theorem shared_nil_left (ys : List α) : shared [] ys = 0 := by
  cases ys <;> rfl

@[simp]
theorem shared_nil_right (xs : List α) : shared xs [] = 0 := by
  cases xs <;> rfl

theorem take_shared (xs ys : List α) : xs.take (shared xs ys) = ys.take (shared xs ys) := by
  induction xs generalizing ys with
  | nil => simp
  | cons x xs ih =>
    cases ys with
    | nil => simp
    | cons y ys =>
      by_cases h : x = y
      · subst y
        simpa [shared] using ih ys
      · simp [shared, h]

theorem shared_le_left (xs ys : List α) : shared xs ys ≤ xs.length := by
  induction xs generalizing ys with
  | nil => simp
  | cons x xs ih =>
    cases ys with
    | nil => simp
    | cons y ys =>
      have := ih ys
      simp only [shared, List.length_cons]
      split <;> omega

theorem shared_comm (xs ys : List α) : shared xs ys = shared ys xs := by
  induction xs generalizing ys with
  | nil => simp
  | cons x xs ih =>
    cases ys with
    | nil => simp
    | cons y ys => simp only [shared, ih ys, eq_comm]

theorem shared_le_right (xs ys : List α) : shared xs ys ≤ ys.length := by
  rw [shared_comm]
  exact shared_le_left ys xs

theorem le_shared {n : Nat} {xs ys : List α} (hx : n ≤ xs.length) (hy : n ≤ ys.length)
    (h : xs.take n = ys.take n) : n ≤ shared xs ys := by
  induction n generalizing xs ys with
  | zero => exact Nat.zero_le _
  | succ n ih =>
    cases xs with
    | nil => simp at hx
    | cons x xs =>
      cases ys with
      | nil => simp at hy
      | cons y ys =>
        simp only [List.take_succ_cons, List.cons.injEq] at h
        simp only [List.length_cons, Nat.add_le_add_iff_right] at hx hy
        have := ih hx hy h.2
        simp only [shared, h.1, if_true]
        omega

def placesFrom (x : α) : Nat → List α → List Nat
  | _, [] => []
  | j, y :: ys => if y = x then j :: placesFrom x (j + 1) ys else placesFrom x (j + 1) ys

theorem le_of_mem_placesFrom {x : α} {j k : Nat} {ys : List α} (h : k ∈ placesFrom x j ys) :
    j ≤ k := by
  induction ys generalizing j with
  | nil => simp [placesFrom] at h
  | cons y ys ih =>
    simp only [placesFrom] at h
    split at h
    · obtain rfl | h := List.mem_cons.1 h
      · exact Nat.le_refl _
      · exact Nat.le_of_succ_le (ih h)
    · exact Nat.le_of_succ_le (ih h)

theorem getD_placesIn [Hashable α] (x : α) (ys : List α) :
    (placesIn ys).getD x [] = placesFrom x 0 ys := by
  unfold placesIn
  generalize 0 = j
  induction ys generalizing j with
  | nil => simp [placesFrom]
  | cons y ys ih =>
    simp only [List.zipIdx_cons, List.foldr_cons, Std.HashMap.getD_insert, beq_iff_eq, placesFrom]
    split
    · next h => subst h; rw [ih]
    · exact ih (j + 1)

/-- The row of `xs` by its meaning: every place with a common run, and the length of the run. The
places of `ys` are counted from `j` on. -/
def rowFrom (xs : List α) : Nat → List α → Row
  | _, [] => []
  | j, y :: ys =>
    if shared xs (y :: ys) = 0 then rowFrom xs (j + 1) ys
    else (j, shared xs (y :: ys)) :: rowFrom xs (j + 1) ys

theorem mem_rowFrom {xs ys : List α} {j k n : Nat} :
    (k, n) ∈ rowFrom xs j ys ↔ j ≤ k ∧ n = shared xs (ys.drop (k - j)) ∧ 0 < n := by
  induction ys generalizing j with
  | nil =>
    simp only [rowFrom, List.not_mem_nil, List.drop_nil, shared_nil_right, false_iff]
    omega
  | cons y ys ih =>
    have later : (k, n) ∈ rowFrom xs (j + 1) ys ↔
        j < k ∧ n = shared xs ((y :: ys).drop (k - j)) ∧ 0 < n := by
      rw [ih, Nat.succ_le_iff]
      refine and_congr_right fun h => ?_
      obtain ⟨d, rfl⟩ := Nat.exists_eq_add_of_lt h
      have h1 : j + d + 1 - (j + 1) = d := by omega
      have h2 : j + d + 1 - j = d + 1 := by omega
      rw [h1, h2, List.drop_succ_cons]
    have here : k = j → ((y :: ys).drop (k - j) = y :: ys) := by
      rintro rfl
      simp
    simp only [rowFrom]
    split
    · next h =>
      rw [later]
      constructor
      · rintro ⟨hk, hn⟩
        exact ⟨Nat.le_of_lt hk, hn⟩
      · rintro ⟨hk, hn, hpos⟩
        refine ⟨Nat.lt_of_le_of_ne hk ?_, hn, hpos⟩
        intro he
        rw [here he.symm, h] at hn
        omega
    · next h =>
      rw [List.mem_cons, later, Prod.mk.injEq]
      constructor
      · rintro (⟨rfl, rfl⟩ | ⟨hk, hn⟩)
        · exact ⟨Nat.le_refl _, by rw [here rfl], Nat.pos_of_ne_zero h⟩
        · exact ⟨Nat.le_of_lt hk, hn⟩
      · rintro ⟨hk, hn, hpos⟩
        obtain he | hlt := Nat.eq_or_lt_of_le hk
        · exact Or.inl ⟨he.symm, by rw [hn, here he.symm]⟩
        · exact Or.inr ⟨hlt, hn, hpos⟩

theorem rowFrom_sorted (xs ys : List α) (j : Nat) :
    (rowFrom xs j ys).Pairwise fun a b => a.1 < b.1 := by
  induction ys generalizing j with
  | nil => simp [rowFrom]
  | cons y ys ih =>
    simp only [rowFrom]
    split
    · exact ih (j + 1)
    · refine List.pairwise_cons.2 ⟨?_, ih (j + 1)⟩
      rintro ⟨k, n⟩ hk
      exact (mem_rowFrom.1 hk).1

theorem rowBefore_cons_of_le {js : List Nat} {run : Nat × Nat} {next : Row}
    (h : ∀ j ∈ js, run.1 ≤ j) : rowBefore js (run :: next) = rowBefore js next := by
  cases js with
  | nil => rfl
  | cons j js =>
    have hj : run.1 ≤ j := h j (by simp)
    simp [rowBefore, hj]

theorem dropWhile_rowFrom (xs ys : List α) (j : Nat) :
    (rowFrom xs (j + 1) ys).dropWhile (fun run => run.1 ≤ j) = rowFrom xs (j + 1) ys := by
  cases h : rowFrom xs (j + 1) ys with
  | nil => rfl
  | cons run row =>
    have hm : run ∈ rowFrom xs (j + 1) ys := by simp [h]
    have hj : j + 1 ≤ run.1 := (mem_rowFrom.1 hm).1
    have hn : ¬ run.1 ≤ j := by omega
    simp [hn]

def headSize (j : Nat) : Row → Nat
  | [] => 0
  | run :: _ => if run.1 = j then run.2 else 0

theorem rowBefore_cons {j : Nat} {js : List Nat} {next later : Row}
    (h : next.dropWhile (fun run => run.1 ≤ j) = later) :
    rowBefore (j :: js) next = (j, headSize (j + 1) later + 1) :: rowBefore js later := by
  subst h
  simp only [rowBefore]
  cases next.dropWhile (fun run => run.1 ≤ j) <;> rfl

theorem headSize_rowFrom (xs ys : List α) (j : Nat) :
    headSize j (rowFrom xs j ys) = shared xs ys := by
  cases ys with
  | nil => simp [rowFrom, headSize]
  | cons y ys =>
    simp only [rowFrom]
    split
    · next h =>
      rw [h]
      cases hr : rowFrom xs (j + 1) ys with
      | nil => rfl
      | cons run row =>
        have hm : run ∈ rowFrom xs (j + 1) ys := by simp [hr]
        have hj : j + 1 ≤ run.1 := (mem_rowFrom.1 hm).1
        exact if_neg (by omega)
    · simp [headSize]

/-- One step of the search: from the row of `xs` to that of `x :: xs`. -/
theorem rowBefore_rowFrom (x : α) (xs ys : List α) (j : Nat) :
    rowBefore (placesFrom x j ys) (rowFrom xs j ys) = rowFrom (x :: xs) j ys := by
  induction ys generalizing j with
  | nil => rfl
  | cons y ys ih =>
    -- an entry at `j` itself plays no part for the places behind it
    have hskip : rowBefore (placesFrom x (j + 1) ys) (rowFrom xs j (y :: ys)) =
        rowFrom (x :: xs) (j + 1) ys := by
      rw [← ih (j + 1)]
      simp only [rowFrom]
      split
      · rfl
      · exact rowBefore_cons_of_le fun k hk => Nat.le_of_succ_le (le_of_mem_placesFrom hk)
    by_cases h : y = x
    · subst y
      have hlater : (rowFrom xs j (x :: ys)).dropWhile (fun run => run.1 ≤ j) =
          rowFrom xs (j + 1) ys := by
        simp only [rowFrom]
        split
        · exact dropWhile_rowFrom xs ys j
        · simp [dropWhile_rowFrom]
      simp only [placesFrom, if_true]
      rw [rowBefore_cons hlater, headSize_rowFrom, ih]
      simp [rowFrom, shared]
    · have hx : x ≠ y := Ne.symm h
      simp only [placesFrom, h, if_false, hskip]
      simp [rowFrom, shared, hx]

theorem firstLongest_mem {row : Row} (h : (firstLongest row).2 ≠ 0) : firstLongest row ∈ row := by
  induction row with
  | nil => simp [firstLongest] at h
  | cons run row ih =>
    simp only [firstLongest] at h ⊢
    split at h
    · next hle => simp [hle]
    · next hle => simp [hle, ih h]

theorem le_firstLongest {row : Row} : ∀ run ∈ row, run.2 ≤ (firstLongest row).2 := by
  induction row with
  | nil => simp
  | cons first row ih =>
    intro run hr
    simp only [firstLongest]
    obtain rfl | hr := List.mem_cons.1 hr
    · split <;> omega
    · have := ih run hr
      split <;> omega

theorem firstLongest_le_of_mem {row : Row} (sorted : row.Pairwise fun a b => a.1 < b.1) :
    ∀ run ∈ row, run.2 = (firstLongest row).2 → (firstLongest row).1 ≤ run.1 := by
  induction row with
  | nil => simp
  | cons first row ih =>
    obtain ⟨hfirst, hrow⟩ := List.pairwise_cons.1 sorted
    intro run hr
    simp only [firstLongest]
    obtain rfl | hr := List.mem_cons.1 hr
    · split
      · exact fun _ => Nat.le_refl _
      · omega
    · split
      · exact fun _ => Nat.le_of_lt (hfirst run hr)
      · exact ih hrow run hr

structure IsFirstLongest (xs ys : List α) (run : Run) : Prop where
  size_eq : run.size = shared (xs.drop run.left) (ys.drop run.right)
  longest : ∀ i j, shared (xs.drop i) (ys.drop j) ≤ run.size
  first : 0 < run.size → ∀ i j, shared (xs.drop i) (ys.drop j) = run.size →
    run.left < i ∨ run.left = i ∧ run.right ≤ j

/-- The first of the longest entries of a row, against all places of the second sequence. -/
theorem firstLongest_rowFrom (xs ys : List α) :
    (firstLongest (rowFrom xs 0 ys)).2 = shared xs (ys.drop (firstLongest (rowFrom xs 0 ys)).1) ∧
      (∀ j, shared xs (ys.drop j) ≤ (firstLongest (rowFrom xs 0 ys)).2) ∧
      (0 < (firstLongest (rowFrom xs 0 ys)).2 → ∀ j,
        shared xs (ys.drop j) = (firstLongest (rowFrom xs 0 ys)).2 →
          (firstLongest (rowFrom xs 0 ys)).1 ≤ j) := by
  have hmem : ∀ j, 0 < shared xs (ys.drop j) → (j, shared xs (ys.drop j)) ∈ rowFrom xs 0 ys :=
    fun j hj => mem_rowFrom.2 ⟨Nat.zero_le _, rfl, hj⟩
  have hmax : ∀ j, shared xs (ys.drop j) ≤ (firstLongest (rowFrom xs 0 ys)).2 := by
    intro j
    obtain h | h := Nat.eq_zero_or_pos (shared xs (ys.drop j))
    · omega
    · exact le_firstLongest _ (hmem j h)
  refine ⟨?_, hmax, ?_⟩
  · obtain h | h := Nat.eq_zero_or_pos (firstLongest (rowFrom xs 0 ys)).2
    · have := hmax (firstLongest (rowFrom xs 0 ys)).1
      omega
    · exact (mem_rowFrom.1 (firstLongest_mem (Nat.ne_of_gt h))).2.1
  · intro hpos j hj
    exact firstLongest_le_of_mem (rowFrom_sorted xs ys 0) _ (hmem j (hj ▸ hpos)) hj

variable [Hashable α]

theorem longestFrom_row (xs ys : List α) :
    (longestFrom (placesIn ys) xs).1 = rowFrom xs 0 ys := by
  induction xs with
  | nil =>
    have : ∀ j, rowFrom ([] : List α) j ys = [] := by
      induction ys with
      | nil => exact fun _ => rfl
      | cons y ys ih => simp [rowFrom, ih]
    simp [longestFrom, this]
  | cons x xs ih => simp only [longestFrom, ih, getD_placesIn, rowBefore_rowFrom]

theorem longestRun_isFirstLongest (xs ys : List α) : IsFirstLongest xs ys (longestRun xs ys) := by
  unfold longestRun
  induction xs with
  | nil => exact ⟨by simp [longestFrom], by simp, by simp [longestFrom]⟩
  | cons x xs ih =>
    obtain ⟨hsize, hlongest, hfirst⟩ := firstLongest_rowFrom (x :: xs) ys
    simp only [longestFrom, longestFrom_row, getD_placesIn, rowBefore_rowFrom]
    generalize firstLongest (rowFrom (x :: xs) 0 ys) = head at hsize hlongest hfirst
    generalize (longestFrom (placesIn ys) xs).2 = best at ih
    obtain ⟨bsize, blongest, bfirst⟩ := ih
    split
    · next hle =>
      refine ⟨by simpa using hsize, ?_, ?_⟩
      · intro i j
        cases i with
        | zero => simpa using hlongest j
        | succ i => exact Nat.le_trans (by simpa using blongest i j) hle
      · intro hpos i j hij
        cases i with
        | zero => exact Or.inr ⟨rfl, hfirst hpos j (by simpa using hij)⟩
        | succ i => exact Or.inl (Nat.succ_pos i)
    · next hlt =>
      refine ⟨by simpa using bsize, ?_, ?_⟩
      · intro i j
        cases i with
        | zero => exact Nat.le_trans (by simpa using hlongest j) (by dsimp only; omega)
        | succ i => simpa using blongest i j
      · intro hpos i j hij
        cases i with
        | zero =>
          have := hlongest j
          simp only [List.drop_zero] at hij
          omega
        | succ i =>
          obtain h | ⟨h, hj⟩ := bfirst hpos i j (by simpa using hij)
          · exact Or.inl (Nat.succ_lt_succ h)
          · exact Or.inr ⟨congrArg Nat.succ h, hj⟩

theorem longestRun_common (xs ys : List α) :
    (xs.drop (longestRun xs ys).left).take (longestRun xs ys).size =
      (ys.drop (longestRun xs ys).right).take (longestRun xs ys).size := by
  rw [(longestRun_isFirstLongest xs ys).size_eq]
  exact take_shared _ _

theorem longestRun_right_le (xs ys : List α) :
    (longestRun xs ys).size ≤ ys.length - (longestRun xs ys).right := by
  rw [(longestRun_isFirstLongest xs ys).size_eq, ← List.length_drop]
  exact shared_le_right _ _

theorem longestRun_self (xs : List α) : longestRun xs xs = ⟨0, 0, xs.length⟩ := by
  cases hx : xs with
  | nil => rfl
  | cons x rest =>
    rw [← hx]
    have hself : shared xs xs = xs.length :=
      Nat.le_antisymm (shared_le_left xs xs) (le_shared (Nat.le_refl _) (Nat.le_refl _) rfl)
    have hspec := longestRun_isFirstLongest xs xs
    have hleft := longestRun_left_le xs xs
    have hright := longestRun_right_le xs xs
    have hsize : (longestRun xs xs).size = xs.length := by
      have := hspec.longest 0 0
      simp only [List.drop_zero, hself] at this
      omega
    have hpos : 0 < xs.length := by simp [hx]
    have hl : (longestRun xs xs).left = 0 := by omega
    have hr : (longestRun xs xs).right = 0 := by omega
    calc longestRun xs xs
        = ⟨(longestRun xs xs).left, (longestRun xs xs).right, (longestRun xs xs).size⟩ := rfl
      _ = ⟨0, 0, xs.length⟩ := by rw [hl, hr, hsize]

end FormatAudit.Alignment
