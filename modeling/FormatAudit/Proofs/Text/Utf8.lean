import FormatAudit.Text.Utf8

/-! Decoding well formed bytes loses nothing: the text encodes to the bytes again, so different
bytes give different texts. The decoder that puts stand-ins has none to put. -/
namespace FormatAudit.Utf8

theorem toNat_ofNat_of_isValidChar {n : Nat} (h : n.isValidChar) : (Char.ofNat n).toNat = n := by
  rw [Char.ofNat, dif_pos h]
  rfl

theorem toUInt8_of_toNat_eq {b : UInt8} {n : Nat} (h : b.toNat = n) : n.toUInt8 = b := by
  subst h
  exact UInt8.ofNat_toNat

theorem follow_succ {acc n low high m : Nat} {r rest : Bytes}
    (h : follow acc (n + 1) low high r = (some m, rest)) :
    ∃ b r', r = b :: r' ∧ low ≤ b.toNat ∧ b.toNat ≤ high ∧
      follow (acc * 64 + (b.toNat - 0x80)) n 0x80 0xbf r' = (some m, rest) := by
  cases r with
  | nil => simp [follow] at h
  | cons b r' =>
    simp only [follow] at h
    split at h
    · next hb =>
      rw [Bool.and_eq_true, decide_eq_true_iff, decide_eq_true_iff] at hb
      exact ⟨b, r', rfl, hb.1, hb.2, h⟩
    · simp at h

/-- What a class of leading bytes asks of the byte behind them. The bounds leave out what has a
shorter form, the surrogates, and what is beyond the last scalar value. -/
def Lead.IsOf (l : Lead) (b : Nat) : Prop :=
  0x80 ≤ l.low ∧ l.high ≤ 0xbf ∧
    (l.more = 1 ∧ b = 0xc0 + l.bits ∧ 2 ≤ l.bits ∧ l.bits < 0x20 ∨
      l.more = 2 ∧ b = 0xe0 + l.bits ∧ l.bits < 0x10 ∧ (l.bits = 0 → 0xa0 ≤ l.low) ∧
        (l.bits = 0xd → l.high ≤ 0x9f) ∨
      l.more = 3 ∧ b = 0xf0 + l.bits ∧ l.bits ≤ 4 ∧ (l.bits = 0 → 0x90 ≤ l.low) ∧
        (l.bits = 4 → l.high ≤ 0x8f))

theorem isOf_of_lead? {b : Nat} {l : Lead} (h : lead? b = some l) : l.IsOf b := by
  unfold lead? at h
  simp only [Bool.and_eq_true, decide_eq_true_iff, beq_iff_eq] at h
  repeat' split at h
  case isFalse.isFalse.isFalse.isFalse.isFalse.isFalse.isFalse => cases h
  all_goals
    obtain rfl := Option.some.inj h
    dsimp only [Lead.IsOf]
    clear h
    omega

theorem encodeChar_two {n : Nat} {a b : UInt8} (ha : a.toNat = 0xc0 + n / 64)
    (hb : b.toNat = 0x80 + n % 64) (h1 : 0x80 ≤ n) (h2 : n < 0x800) :
    encodeChar (Char.ofNat n) = [a, b] := by
  have hn : (Char.ofNat n).toNat = n := toNat_ofNat_of_isValidChar (Or.inl (by omega))
  simp only [encodeChar, hn, if_neg (show ¬ n < 0x80 by omega), if_pos h2,
    toUInt8_of_toNat_eq ha, toUInt8_of_toNat_eq hb]

theorem encodeChar_three {n : Nat} {a b c : UInt8} (ha : a.toNat = 0xe0 + n / 4096)
    (hb : b.toNat = 0x80 + n / 64 % 64) (hc : c.toNat = 0x80 + n % 64) (h1 : 0x800 ≤ n)
    (h2 : n < 0x10000) (hvalid : n.isValidChar) : encodeChar (Char.ofNat n) = [a, b, c] := by
  have hn : (Char.ofNat n).toNat = n := toNat_ofNat_of_isValidChar hvalid
  simp only [encodeChar, hn, if_neg (show ¬ n < 0x80 by omega), if_neg (show ¬ n < 0x800 by omega),
    if_pos h2, toUInt8_of_toNat_eq ha, toUInt8_of_toNat_eq hb, toUInt8_of_toNat_eq hc]

theorem encodeChar_four {n : Nat} {a b c d : UInt8} (ha : a.toNat = 0xf0 + n / 262144)
    (hb : b.toNat = 0x80 + n / 4096 % 64) (hc : c.toNat = 0x80 + n / 64 % 64)
    (hd : d.toNat = 0x80 + n % 64) (h1 : 0x10000 ≤ n) (h2 : n < 0x110000) :
    encodeChar (Char.ofNat n) = [a, b, c, d] := by
  have hn : (Char.ofNat n).toNat = n := toNat_ofNat_of_isValidChar (Or.inr (by omega))
  simp only [encodeChar, hn, if_neg (show ¬ n < 0x80 by omega), if_neg (show ¬ n < 0x800 by omega),
    if_neg (show ¬ n < 0x10000 by omega), toUInt8_of_toNat_eq ha, toUInt8_of_toNat_eq hb,
    toUInt8_of_toNat_eq hc, toUInt8_of_toNat_eq hd]

/-- A sequence that is followed to its end is the one that encodes the character found. -/
theorem encodeChar_follow {b : UInt8} {l : Lead} (hl : l.IsOf b.toNat) {n : Nat} {r rest : Bytes}
    (h : follow l.bits l.more l.low l.high r = (some n, rest)) :
    encodeChar (Char.ofNat n) ++ rest = b :: r := by
  obtain ⟨bits, low, high, more⟩ := l
  obtain ⟨hlow, hhigh, ⟨rfl, hb, hbits⟩ | ⟨rfl, hb, hbits⟩ | ⟨rfl, hb, hbits⟩⟩ := hl
  · obtain ⟨b₁, r₁, rfl, h1, h2, h⟩ := follow_succ h
    simp only [follow, Prod.mk.injEq, Option.some.injEq] at h
    obtain ⟨rfl, rfl⟩ := h
    dsimp only at *
    rw [encodeChar_two (a := b) (b := b₁) (by omega) (by omega) (by omega) (by omega)]
    rfl
  · obtain ⟨b₁, r₁, rfl, h1, h2, h⟩ := follow_succ h
    obtain ⟨b₂, r₂, rfl, h3, h4, h⟩ := follow_succ h
    simp only [follow, Prod.mk.injEq, Option.some.injEq] at h
    obtain ⟨rfl, rfl⟩ := h
    dsimp only at *
    have hvalid : ((bits * 64 + (b₁.toNat - 0x80)) * 64 + (b₂.toNat - 0x80)).isValidChar := by
      unfold Nat.isValidChar
      omega
    rw [encodeChar_three (a := b) (b := b₁) (c := b₂) (by omega) (by omega) (by omega) (by omega)
      (by omega) hvalid]
    rfl
  · obtain ⟨b₁, r₁, rfl, h1, h2, h⟩ := follow_succ h
    obtain ⟨b₂, r₂, rfl, h3, h4, h⟩ := follow_succ h
    obtain ⟨b₃, r₃, rfl, h5, h6, h⟩ := follow_succ h
    simp only [follow, Prod.mk.injEq, Option.some.injEq] at h
    obtain ⟨rfl, rfl⟩ := h
    dsimp only at *
    rw [encodeChar_four (a := b) (b := b₁) (c := b₂) (d := b₃) (by omega) (by omega) (by omega)
      (by omega) (by omega) (by omega)]
    rfl

theorem step_encode {b : UInt8} {c : Char} {r rest : Bytes} (h : step b r = (some c, rest)) :
    encodeChar c ++ rest = b :: r := by
  unfold step at h
  split at h
  · next hb =>
    simp only [Prod.mk.injEq, Option.some.injEq] at h
    obtain ⟨rfl, rfl⟩ := h
    have hn : (Char.ofNat b.toNat).toNat = b.toNat :=
      toNat_ofNat_of_isValidChar (Or.inl (by omega))
    simp only [encodeChar, hn, if_pos hb, toUInt8_of_toNat_eq rfl]
    rfl
  · split at h
    · simp at h
    · next l hl =>
      rcases hf : follow l.bits l.more l.low l.high r with ⟨n, rest'⟩
      rw [hf] at h
      cases n with
      | none => simp at h
      | some n =>
        simp only [Option.map_some, Prod.mk.injEq, Option.some.injEq] at h
        obtain ⟨rfl, rfl⟩ := h
        exact encodeChar_follow (isOf_of_lead? hl) hf

/-- Where nothing is missing, the characters found encode the bytes. -/
theorem flatMap_scan {bytes : Bytes} {t : Text} (h : scan bytes = t.map some) :
    t.flatMap encodeChar = bytes := by
  induction bytes using scan.induct generalizing t with
  | case1 =>
    rw [scan] at h
    have ht : t = [] := List.map_eq_nil_iff.mp h.symm
    rw [ht, List.flatMap_nil]
  | case2 b r ih =>
    rw [scan] at h
    cases t with
    | nil => simp at h
    | cons c t =>
      rw [List.map_cons, List.cons.injEq] at h
      rw [List.flatMap_cons, ih h.2]
      exact step_encode (Prod.ext h.1 rfl)

theorem mapM_id_eq_some {cs : List (Option Char)} {t : Text} (h : cs.mapM id = some t) :
    cs = t.map some := by
  induction cs generalizing t with
  | nil =>
    cases h
    rfl
  | cons c cs ih =>
    rw [List.mapM_cons] at h
    cases c with
    | none => simp at h
    | some c =>
      cases hcs : cs.mapM id with
      | none => simp [hcs] at h
      | some t' =>
        simp only [hcs, id, Option.bind_eq_bind, Option.bind_some, Option.pure_def,
          Option.some.injEq] at h
        rw [← h, ih hcs, List.map_cons]

theorem encode_of_decode? {bytes : Bytes} {t : Text} (h : decode? bytes = some t) :
    encode t = bytes :=
  flatMap_scan (mapM_id_eq_some h)

theorem decodeReplacing_of_decode? {bytes : Bytes} {t : Text} (h : decode? bytes = some t) :
    decodeReplacing bytes = t := by
  rw [decodeReplacing, mapM_id_eq_some h, List.map_map]
  exact List.map_id t

def IsValid (bytes : Bytes) : Prop :=
  (decode? bytes).isSome = true

instance (bytes : Bytes) : Decidable (IsValid bytes) :=
  inferInstanceAs (Decidable ((decode? bytes).isSome = true))

theorem decodeReplacing_inj {b₁ b₂ : Bytes} (h₁ : IsValid b₁) (h₂ : IsValid b₂) :
    decodeReplacing b₁ = decodeReplacing b₂ ↔ b₁ = b₂ := by
  obtain ⟨t₁, ht₁⟩ := Option.isSome_iff_exists.mp h₁
  obtain ⟨t₂, ht₂⟩ := Option.isSome_iff_exists.mp h₂
  rw [decodeReplacing_of_decode? ht₁, decodeReplacing_of_decode? ht₂,
    ← encode_of_decode? ht₁, ← encode_of_decode? ht₂]
  constructor
  · rintro rfl
    rfl
  · intro h
    rw [encode_of_decode? ht₁, encode_of_decode? ht₂] at h
    rw [h, ht₂] at ht₁
    exact (Option.some.inj ht₁).symm

end FormatAudit.Utf8
