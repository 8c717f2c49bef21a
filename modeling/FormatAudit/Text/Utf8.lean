import FormatAudit.Text.Basic

/-!
UTF-8. A decoding step looks at the front of a byte sequence and finds either one encoded scalar
value or the longest part of one that cannot be completed. The three decoders differ only in what
they do with such a part: give up, leave it out, or put U+FFFD in its place.
-/
namespace FormatAudit

abbrev Bytes := List UInt8

namespace Utf8

/-- The bytes that may stand second after a leading byte, and how many bytes follow in all. -/
structure Lead where
  bits : Nat
  low : Nat
  high : Nat
  more : Nat

def lead? (b : Nat) : Option Lead :=
  if 0xc2 ≤ b && b ≤ 0xdf then some ⟨b - 0xc0, 0x80, 0xbf, 1⟩
  else if b == 0xe0 then some ⟨0, 0xa0, 0xbf, 2⟩
  else if b == 0xed then some ⟨0xd, 0x80, 0x9f, 2⟩
  else if 0xe1 ≤ b && b ≤ 0xef then some ⟨b - 0xe0, 0x80, 0xbf, 2⟩
  else if b == 0xf0 then some ⟨0, 0x90, 0xbf, 3⟩
  else if 0xf1 ≤ b && b ≤ 0xf3 then some ⟨b - 0xf0, 0x80, 0xbf, 3⟩
  else if b == 0xf4 then some ⟨4, 0x80, 0x8f, 3⟩
  else none

/-- Follows a sequence of which `n` bytes are missing and whose bits so far are `acc`. The answer
is the scalar value, or nothing if the sequence breaks off, with the bytes left. -/
def follow (acc : Nat) : Nat → Nat → Nat → Bytes → Option Nat × Bytes
  | 0, _, _, r => (some acc, r)
  | _ + 1, _, _, [] => (none, [])
  | n + 1, low, high, b :: r =>
    if low ≤ b.toNat && b.toNat ≤ high then
      follow (acc * 64 + (b.toNat - 0x80)) n 0x80 0xbf r
    else (none, b :: r)

def step (b : UInt8) (r : Bytes) : Option Char × Bytes :=
  if b.toNat < 0x80 then (some (Char.ofNat b.toNat), r)
  else match lead? b.toNat with
    | none => (none, r)
    | some l =>
      let (n, rest) := follow l.bits l.more l.low l.high r
      (n.map Char.ofNat, rest)

theorem follow_length (acc n low high : Nat) (r : Bytes) :
    (follow acc n low high r).2.length ≤ r.length := by
  induction n generalizing acc low high r with
  | zero => simp [follow]
  | succ n ih =>
    cases r with
    | nil => simp [follow]
    | cons b r =>
      simp only [follow]
      split
      · exact Nat.le_succ_of_le (ih ..)
      · exact Nat.le_refl _

theorem step_length (b : UInt8) (r : Bytes) : (step b r).2.length ≤ r.length := by
  unfold step
  split
  · exact Nat.le_refl _
  · split
    · exact Nat.le_refl _
    · exact follow_length ..

def scan : Bytes → List (Option Char)
  | [] => []
  | b :: r => (step b r).1 :: scan (step b r).2
termination_by bytes => bytes.length
decreasing_by exact Nat.lt_succ_of_le (step_length b r)

def decode? (bytes : Bytes) : Option Text :=
  (scan bytes).mapM id

def decodeReplacing (bytes : Bytes) : Text :=
  (scan bytes).map (·.getD '\uFFFD')

def decodeDropping (bytes : Bytes) : Text :=
  (scan bytes).filterMap id

def encodeChar (c : Char) : Bytes :=
  let n := c.toNat
  if n < 0x80 then [n.toUInt8]
  else if n < 0x800 then [(0xc0 + n / 64).toUInt8, (0x80 + n % 64).toUInt8]
  else if n < 0x10000 then
    [(0xe0 + n / 4096).toUInt8, (0x80 + n / 64 % 64).toUInt8, (0x80 + n % 64).toUInt8]
  else
    [(0xf0 + n / 262144).toUInt8, (0x80 + n / 4096 % 64).toUInt8, (0x80 + n / 64 % 64).toUInt8,
      (0x80 + n % 64).toUInt8]

def encode (t : Text) : Bytes :=
  t.flatMap encodeChar

end Utf8

end FormatAudit
