import FormatAudit.Text.Basic

/-!
Groups in braces. A group without inner braces is replaced by each of its alternatives in turn,
until no such group is left.
-/
namespace FormatAudit

namespace Braces

def isBrace (c : Char) : Bool :=
  c = '\x7b' || c = '\x7d'

/-- A text around its first group without inner braces. -/
structure Split where
  head : Text
  body : Text
  tail : Text
  deriving DecidableEq, Repr

def split? : Text → Option Split
  | [] => none
  | c :: r =>
    let later := (split? r).map fun s => { s with head := c :: s.head }
    if c = '\x7b' then
      match r.dropWhile (!isBrace ·) with
      | '\x7d' :: tail => some ⟨[], r.takeWhile (!isBrace ·), tail⟩
      | _ => later
    else later

theorem split?_length {t : Text} {s : Split} (h : split? t = some s) :
    s.head.length + s.body.length + s.tail.length < t.length := by
  induction t generalizing s with
  | nil => simp [split?] at h
  | cons c r ih =>
    have later : ∀ {s : Split}, (split? r).map (fun s => { s with head := c :: s.head }) = some s →
        s.head.length + s.body.length + s.tail.length < (c :: r).length := by
      intro s hs
      obtain ⟨u, hu, rfl⟩ := Option.map_eq_some_iff.1 hs
      have := ih hu
      simp only [List.length_cons]
      omega
    simp only [split?] at h
    split at h
    · split at h
      · next tail ht =>
        cases h
        have := congrArg List.length (List.takeWhile_append_dropWhile (p := (!isBrace ·)) (l := r))
        simp only [List.length_append, ht, List.length_cons] at this
        simp only [List.length_nil, List.length_cons]
        omega
      · exact later h
    · exact later h

theorem length_le_of_mem_pieces {sep : Char} {t p : Text} (h : p ∈ Text.pieces sep t) :
    p.length ≤ t.length := by
  induction t generalizing p with
  | nil => simp_all [Text.pieces]
  | cons c r ih =>
    simp only [Text.pieces] at h
    split at h
    · rcases List.mem_cons.1 h with rfl | h
      · simp
      · exact Nat.le_succ_of_le (ih h)
    · split at h
      · simp_all
      · next q qs hq =>
        rcases List.mem_cons.1 h with rfl | h
        · have := ih (p := q) (by simp [hq])
          simpa using this
        · exact Nat.le_succ_of_le (ih (by simp [hq, h]))

/-- However many groups there are, all of them are replaced: that a runtime may run out of depth at
about a thousand is left out. -/
def expand (t : Text) : List Text :=
  match _ : split? t with
  | none => [t]
  | some s =>
    ((Text.pieces ',' s.body).attach.flatMap fun o => expand (s.head ++ o.1 ++ s.tail)).eraseDups
termination_by t.length
decreasing_by
  have := split?_length ‹split? t = some s›
  have := length_le_of_mem_pieces o.2
  simp only [List.length_append]
  omega

end Braces

end FormatAudit
