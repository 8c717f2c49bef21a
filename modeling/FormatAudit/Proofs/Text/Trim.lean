import FormatAudit.Text.Blank
import Mathlib.Data.List.TakeWhile

/-! Trimming a text by its ends: nothing of the class is left at either of them, and a text that has
nothing of it there stays as it is. -/
namespace FormatAudit.Text
variable {p : Char → Bool} {s t : Text}

def begins (p : Char → Bool) (t : Text) : Bool :=
  t.head?.any p

def ends (p : Char → Bool) (t : Text) : Bool :=
  t.getLast?.any p

theorem ends_eq_begins_reverse (p : Char → Bool) (t : Text) : ends p t = begins p t.reverse := by
  rw [begins, ends, List.head?_reverse]

theorem begins_eq_false (h : ∀ c ∈ t, p c = false) : begins p t = false := by
  cases t with
  | nil => rfl
  | cons c r => exact h c List.mem_cons_self

theorem ends_eq_false (h : ∀ c ∈ t, p c = false) : ends p t = false := by
  rw [ends_eq_begins_reverse]
  exact begins_eq_false fun c hc => h c (List.mem_reverse.1 hc)

theorem begins_dropWhile (p : Char → Bool) (t : Text) : begins p (t.dropWhile p) = false := by
  have h := List.head?_dropWhile_not p t
  rw [begins]
  cases hd : (t.dropWhile p).head? with
  | none => rfl
  | some c => simpa [hd] using h

theorem dropWhile_eq_self (h : begins p t = false) : t.dropWhile p = t := by
  cases t with
  | nil => rfl
  | cons c r => exact List.dropWhile_cons_of_neg (Bool.not_eq_true _ ▸ h)

theorem length_dropWhile_lt (h : begins p t) : (t.dropWhile p).length < t.length := by
  cases t with
  | nil => exact absurd h Bool.false_ne_true
  | cons c r =>
    have hc : p c = true := h
    rw [List.dropWhile_cons_of_pos hc]
    exact Nat.lt_succ_of_le (List.dropWhile_sublist p).length_le

theorem ends_of_suffix (h : s <:+ t) (hs : ends p s) : ends p t := by
  obtain ⟨front, rfl⟩ := h
  rw [ends] at hs ⊢
  rw [List.getLast?_append]
  cases hlast : s.getLast? with
  | none => simp [hlast] at hs
  | some c => simpa [hlast] using hs

theorem ends_trim (p : Char → Bool) (t : Text) : ends p (trim p t) = false := by
  rw [ends_eq_begins_reverse, trim, List.reverse_reverse]
  exact begins_dropWhile p _

theorem trim_eq_self (hbegins : begins p t = false) (hends : ends p t = false) : trim p t = t := by
  rw [ends_eq_begins_reverse] at hends
  rw [trim, dropWhile_eq_self hbegins, dropWhile_eq_self hends, List.reverse_reverse]

theorem length_trim_lt (h : begins p t) : (trim p t).length < t.length := by
  have hle := (List.dropWhile_sublist p (l := (t.dropWhile p).reverse)).length_le
  rw [List.length_reverse] at hle
  rw [trim, List.length_reverse]
  exact Nat.lt_of_le_of_lt hle (length_dropWhile_lt h)

end FormatAudit.Text
