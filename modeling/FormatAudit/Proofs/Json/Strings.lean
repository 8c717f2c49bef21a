import FormatAudit.Json.Printer
import FormatAudit.Json.Reader
import FormatAudit.Proofs.Text.Numeral

/-! Strings come back from the form in which they are printed, whatever characters they hold. Each
character is printed in one of three forms, and none of them holds a quote that would close the
string. -/
namespace FormatAudit.Json

inductive Form (c : Char) : Text → Prop
  | short {d : Char} (hd : d ≠ 'u') (hread : shortEscape? d = some c) : Form c ['\\', d]
  | number (hc : c.toNat < 32) : Form c ('\\' :: 'u' :: Text.hex 4 c.toNat)
  | itself (hquote : c ≠ '"') (hslash : c ≠ '\\') (hc : 32 ≤ c.toNat) : Form c [c]

theorem escape_form (c : Char) : Form c (escape c) := by
  have hshort : ∀ n, c.toNat = n → c = Char.ofNat n := fun n h => by rw [← h, Char.ofNat_toNat]
  unfold escape
  split
  · next h => subst h; exact .short (by decide) rfl
  split
  · next h => subst h; exact .short (by decide) rfl
  split
  · next h => subst h; exact .short (by decide) rfl
  split
  · next h => subst h; exact .short (by decide) rfl
  split
  · next h => subst h; exact .short (by decide) rfl
  split
  · next h => rw [hshort 8 h]; exact .short (by decide) rfl
  split
  · next h => rw [hshort 12 h]; exact .short (by decide) rfl
  split
  · next h => exact .number h
  · next hquote hslash _ _ _ _ _ hc => exact .itself hquote hslash (Nat.le_of_not_lt hc)

/-! ### Finding the end of a string -/

theorem rawString_escaped (c : Char) (t : Text) :
    rawString ('\\' :: c :: t) = (rawString t).map fun (s, rest) => ('\\' :: c :: s, rest) := by
  rw [rawString]

theorem rawString_plain {c : Char} (hquote : c ≠ '"') (hslash : c ≠ '\\') (hc : 32 ≤ c.toNat)
    (t : Text) : rawString (c :: t) = (rawString t).map fun (s, rest) => (c :: s, rest) := by
  rw [rawString]
  · rw [if_neg hquote, if_neg (Nat.not_lt.mpr hc)]
  · intro d r h
    exact absurd h hslash

theorem hexDigit_isPlain : ∀ d, d < 16 →
    Text.hexDigit d ≠ '"' ∧ Text.hexDigit d ≠ '\\' ∧ 32 ≤ (Text.hexDigit d).toNat := by
  decide

theorem rawString_hex (width n : Nat) (t : Text) :
    rawString (Text.hex width n ++ t) =
      (rawString t).map fun (s, rest) => (Text.hex width n ++ s, rest) := by
  induction width generalizing n t with
  | zero => cases h : rawString t <;> simp [Text.hex, h]
  | succ width ih =>
    obtain ⟨hquote, hslash, hc⟩ := hexDigit_isPlain (n % 16) (Nat.mod_lt n (by decide))
    rw [Text.hex, List.append_assoc, ih, List.singleton_append, rawString_plain hquote hslash hc]
    cases rawString t with
    | none => rfl
    | some _ => simp

theorem rawString_escape (c : Char) (t : Text) :
    rawString (escape c ++ t) = (rawString t).map fun (s, rest) => (escape c ++ s, rest) := by
  have hform := escape_form c
  generalize escape c = e at hform ⊢
  cases hform with
  | short hd hread => exact rawString_escaped _ t
  | number hc =>
    rw [List.cons_append, List.cons_append, rawString_escaped, rawString_hex]
    cases rawString t <;> rfl
  | itself hquote hslash hc => exact rawString_plain hquote hslash hc t

theorem rawString_string (t rest : Text) :
    rawString (t.flatMap escape ++ '"' :: rest) = some (t.flatMap escape, rest) := by
  induction t with
  | nil => simp [rawString]
  | cons c t ih =>
    rw [List.flatMap_cons, List.append_assoc, rawString_escape, ih]
    rfl

/-! ### Replacing escapes -/

theorem unescape?_short {c d : Char} (hd : d ≠ 'u') (hread : shortEscape? d = some c) (t : Text) :
    unescape? ('\\' :: d :: t) = (unescape? t).map (c :: ·) := by
  rw [unescape?]
  · rw [hread]
    rfl
  · intro _ _ _ _ _ h
    exact absurd h hd

theorem unescape?_number {n : Nat} (hn : n < 32) (t : Text) :
    unescape? ('\\' :: 'u' :: (Text.hex 4 n ++ t)) = (unescape? t).map (Char.ofNat n :: ·) := by
  have hread : Text.ofHex? (Text.hex 4 n) = some n := by
    rw [Text.ofHex?_hex, Nat.mod_eq_of_lt (by omega)]
  have hhigh : isHighSurrogate n = false := by simp [isHighSurrogate]; omega
  have hlow : isLowSurrogate n = false := by simp [isLowSurrogate]; omega
  have hdigits : Text.hex 4 n = [Text.hexDigit (n / 16 / 16 / 16 % 16),
      Text.hexDigit (n / 16 / 16 % 16), Text.hexDigit (n / 16 % 16), Text.hexDigit (n % 16)] := rfl
  rw [hdigits] at hread
  rw [hdigits, List.cons_append, List.cons_append, List.cons_append, List.cons_append,
    List.nil_append, unescape?, hread]
  simp [hhigh, hlow]

theorem unescape?_plain {c : Char} (hslash : c ≠ '\\') (t : Text) :
    unescape? (c :: t) = (unescape? t).map (c :: ·) := by
  rw [unescape?]
  · intro _ _ _ _ _ h
    exact absurd h hslash
  · intro _ _ h
    exact absurd h hslash

theorem unescape?_escape (c : Char) (t : Text) :
    unescape? (escape c ++ t) = (unescape? t).map (c :: ·) := by
  have hform := escape_form c
  generalize escape c = e at hform ⊢
  cases hform with
  | short hd hread => exact unescape?_short hd hread t
  | number hc =>
    have h := unescape?_number hc t
    rwa [Char.ofNat_toNat] at h
  | itself hquote hslash hc => exact unescape?_plain hslash t

theorem unescape?_flatMap_escape (t : Text) : unescape? (t.flatMap escape) = some t := by
  induction t with
  | nil => rw [List.flatMap_nil, unescape?]
  | cons c t ih => rw [List.flatMap_cons, unescape?_escape, ih, Option.map_some]

theorem stringFrom_string (t rest : Text) :
    stringFrom (t.flatMap escape ++ '"' :: rest) = some (t, rest) := by
  rw [stringFrom, rawString_string]
  simp [unescape?_flatMap_escape]

end FormatAudit.Json
