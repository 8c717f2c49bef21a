import FormatAudit.Text.Digits
import Mathlib.Data.Nat.Digits.Defs

/-! Numbers come back from their digits. Decimal digits have no zero in front but the lone one, so
their count is as small as it can be; hexadecimal digits of a fixed width keep the number below the
bound of the width. -/
namespace FormatAudit

theorem isDigit_eq (c : Char) : isDigit c = c.isDigit := by
  simp only [isDigit, Char.isDigit, Char.toNat, UInt32.le_iff_toNat_le]
  rfl

namespace Text

theorem isDigit_of_mem_ofNat {n : Nat} {c : Char} (h : c ∈ ofNat n) : isDigit c = true := by
  rw [isDigit_eq]
  exact Nat.isDigit_of_mem_toDigits (by decide) (by decide) h

theorem not_mem_ofNat {n : Nat} {c : Char} (h : isDigit c = false) : c ∉ ofNat n :=
  fun hmem => Bool.noConfusion (h.symm.trans (isDigit_of_mem_ofNat hmem))

theorem ofNat_ne_nil (n : Nat) : ofNat n ≠ [] :=
  Nat.toDigits_ne_nil

theorem toNat_ofNat (n : Nat) : toNat (ofNat n) = n := by
  have h : Nat.ofDigitChars 10 (ofNat n) 0 = n := Nat.ofDigitChars_toDigits (by decide) (by decide)
  rw [Nat.ofDigitChars_eq_foldl] at h
  exact h

theorem ofNat_injective {m n : Nat} (h : ofNat m = ofNat n) : m = n := by
  rw [← toNat_ofNat m, h, toNat_ofNat]

theorem length_ofNat_le_iff {n k : Nat} (hk : 0 < k) :
    (ofNat n).length ≤ k ↔ n < 10 ^ k :=
  Nat.length_toDigits_le_iff (by decide) hk

theorem length_ofNat_of_head?_eq_zero {n : Nat} (h : (ofNat n).head? = some '0') :
    (ofNat n).length = 1 := by
  induction n using Nat.strongRecOn with
  | ind n ih =>
    by_cases hn : n < 10
    · rw [ofNat, Nat.toDigits_of_lt_base hn]
      rfl
    · -- the digits before the last one would be those of a smaller positive number
      have hsplit : ofNat n = ofNat (n / 10) ++ [(n % 10).digitChar] :=
        Nat.toDigits_of_base_le (by decide) (by omega)
      have hhead : (ofNat (n / 10)).head? = some '0' := by
        rw [hsplit, List.head?_append] at h
        cases hds : ofNat (n / 10) with
        | nil => exact absurd hds (ofNat_ne_nil _)
        | cons d ds =>
          rw [hds] at h
          exact h
      have hone := ih (n / 10) (by omega) hhead
      obtain ⟨c, hc⟩ := List.length_eq_one_iff.mp hone
      rw [hc, List.head?_cons, Option.some.injEq] at hhead
      have hzero : n / 10 = 0 := by
        have hback := toNat_ofNat (n / 10)
        rw [hc, hhead] at hback
        exact hback.symm
      omega

/-! ### Hexadecimal digits -/

theorem hexValue?_hexDigit : ∀ d, d < 16 → hexValue? (hexDigit d) = some d := by
  decide

theorem mapM_hexValue?_hex (width n : Nat) :
    ∃ ds, (hex width n).mapM hexValue? = some ds ∧
      ds.foldl (fun n d => 16 * n + d) 0 = n % 16 ^ width := by
  induction width generalizing n with
  | zero => exact ⟨[], rfl, by rw [Nat.pow_zero, Nat.mod_one]; rfl⟩
  | succ width ih =>
    obtain ⟨ds, hds, hvalue⟩ := ih (n / 16)
    have hlast := hexValue?_hexDigit (n % 16) (Nat.mod_lt n (by decide))
    refine ⟨ds ++ [n % 16], ?_, ?_⟩
    · rw [hex, List.mapM_append, hds, List.mapM_cons, hlast]
      rfl
    · rw [List.foldl_append, hvalue, Nat.pow_succ, Nat.mul_comm, Nat.mod_mul]
      simp only [List.foldl_cons, List.foldl_nil]
      omega

theorem ofHex?_hex (width n : Nat) : ofHex? (hex width n) = some (n % 16 ^ width) := by
  obtain ⟨ds, hds, hvalue⟩ := mapM_hexValue?_hex width n
  rw [ofHex?, hds, Option.map_some, hvalue]

end Text

end FormatAudit
