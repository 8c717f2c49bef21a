import FormatAudit.Discovery.Extension
import FormatAudit.Proofs.Discovery.Braces
import FormatAudit.Proofs.Text.Trim
import Mathlib.Data.List.Nodup

/-! Which extensions are left of a list, and what their pattern stands for. -/
namespace FormatAudit.Extension
variable {found ts es exts : List Text} {p x : Text}

theorem mem_add {t : Text} : x ∈ add found t ↔ x ∈ found ∨ x ≠ [] ∧ clean t = x := by
  by_cases hskip : clean t = [] ∨ clean t ∈ found
  · rw [add, if_pos hskip, iff_self_or]
    rintro ⟨hne, rfl⟩
    exact hskip.resolve_left hne
  · rw [add, if_neg hskip, List.mem_append, List.mem_singleton, eq_comm]
    refine or_congr_right (iff_and_self.2 ?_)
    rintro rfl
    exact (not_or.1 hskip).1

theorem mem_foldl_add :
    x ∈ ts.foldl add found ↔ x ∈ found ∨ x ≠ [] ∧ ∃ t ∈ ts, clean t = x := by
  induction ts generalizing found with
  | nil => simp
  | cons t ts ih =>
    rw [List.foldl_cons, ih, mem_add, or_assoc, ← and_or_left]
    simp

theorem normalize?_eq_some :
    normalize? ts = some exts ↔ exts ≠ [] ∧ ts.foldl add [] = exts := by
  rw [normalize?]
  split
  · next hnil => simp [hnil, eq_comm]
  · next hne =>
    rw [Option.some.injEq]
    exact ⟨fun h => ⟨h ▸ hne, h⟩, And.right⟩

theorem mem_of_normalize? (h : normalize? ts = some exts) :
    x ∈ exts ↔ x ≠ [] ∧ ∃ t ∈ ts, clean t = x := by
  rw [← (normalize?_eq_some.1 h).2, mem_foldl_add]
  simp

theorem normalize?_append {xs ys : List Text} (hes : normalize? es = some xs)
    (hts : normalize? ts = some ys) :
    ∃ zs, normalize? (es ++ ts) = some zs ∧ ∀ x, x ∈ zs ↔ x ∈ xs ∨ x ∈ ys := by
  have hmem : ∀ x, x ∈ (es ++ ts).foldl add [] ↔ x ∈ xs ∨ x ∈ ys := by
    intro x
    rw [mem_of_normalize? hes, mem_of_normalize? hts, mem_foldl_add, ← and_or_left]
    simp [or_and_right, exists_or]
  obtain ⟨x, hx⟩ := List.exists_mem_of_ne_nil _ (normalize?_eq_some.1 hes).1
  have hne := List.ne_nil_of_mem ((hmem x).2 (.inl hx))
  exact ⟨_, normalize?_eq_some.2 ⟨hne, rfl⟩, hmem⟩

/-! ### Normal lists -/

def isPoint (c : Char) : Bool :=
  c = '.'

theorem begins_clean_point (t : Text) : Text.begins isPoint (clean t) = false :=
  Text.begins_dropWhile isPoint (Text.strip t)

theorem ends_clean_blank (t : Text) : Text.ends isBlank (clean t) = false := by
  rw [Bool.eq_false_iff]
  intro hends
  have hstrip := Text.ends_of_suffix (List.dropWhile_suffix isPoint) hends
  exact Bool.false_ne_true ((Text.ends_trim isBlank t).symm.trans hstrip)

theorem clean_eq_self (hpoint : Text.begins isPoint x = false)
    (hblank : Text.begins isBlank x = false) (hends : Text.ends isBlank x = false) :
    clean x = x := by
  rw [clean, Text.strip, Text.trim_eq_self hblank hends]
  exact Text.dropWhile_eq_self hpoint

theorem length_clean_lt (h : Text.begins isBlank x) : (clean x).length < x.length :=
  Nat.lt_of_le_of_lt (List.dropWhile_sublist _).length_le (Text.length_trim_lt h)

theorem foldl_add_nodup (h : found.Nodup) : (ts.foldl add found).Nodup := by
  induction ts generalizing found with
  | nil => exact h
  | cons t ts ih =>
    refine ih ?_
    rw [add]
    split
    · exact h
    · next hnew => exact List.concat_eq_append ▸ h.concat (not_or.1 hnew).2

/-- Clean extensions are put behind others as they are. -/
theorem foldl_add_eq_append (hclean : ∀ e ∈ es, e ≠ [] ∧ clean e = e) (h : (found ++ es).Nodup) :
    es.foldl add found = found ++ es := by
  induction es generalizing found with
  | nil => exact (List.append_nil found).symm
  | cons e es ih =>
    obtain ⟨⟨hne, he⟩, hes⟩ := List.forall_mem_cons.1 hclean
    have hnew : e ∉ found := fun hmem =>
      (List.nodup_append.1 h).2.2 e hmem e List.mem_cons_self rfl
    rw [List.append_cons] at h ⊢
    rw [List.foldl_cons, add, he, if_neg (not_or.2 ⟨hne, hnew⟩), ih hes h]

/-- Whether a blank comes to the front of an extension when its points are taken off. -/
def hidesBlank (t : Text) : Bool :=
  Text.begins isBlank ((Text.strip t).dropWhile isPoint)

/-- Where every extension is clean already, there is nothing left to do. -/
theorem normalize?_eq_self (h : normalize? ts = some exts)
    (hblank : ∀ e ∈ exts, Text.begins isBlank e = false) : normalize? exts = some exts := by
  obtain ⟨hne, hfold⟩ := normalize?_eq_some.1 h
  have hnodup : exts.Nodup := hfold ▸ foldl_add_nodup List.nodup_nil
  refine normalize?_eq_some.2 ⟨hne, foldl_add_eq_append (fun e he => ?_) hnodup⟩
  obtain ⟨hnil, t, -, rfl⟩ := (mem_of_normalize? h).1 he
  exact ⟨hnil, clean_eq_self (begins_clean_point t) (hblank _ he) (ends_clean_blank t)⟩

/-- If a list is its own normal form, an extension that began with a blank would come from a longer
one that does. -/
theorem exists_longer_of_normalize?_self (h : normalize? exts = some exts) {e : Text}
    (he : e ∈ exts) (hblank : Text.begins isBlank e) :
    ∃ t ∈ exts, Text.begins isBlank t ∧ e.length < t.length := by
  obtain ⟨-, t, ht, rfl⟩ := (mem_of_normalize? h).1 he
  obtain ⟨-, u, -, hu⟩ := (mem_of_normalize? h).1 ht
  have htblank : Text.begins isBlank t := by
    by_contra hnot
    rw [Bool.not_eq_true] at hnot
    subst hu
    rw [clean_eq_self (begins_clean_point u) hnot (ends_clean_blank u)] at hblank
    exact Bool.false_ne_true (hnot.symm.trans hblank)
  exact ⟨t, ht, htblank, length_clean_lt htblank⟩

theorem not_begins_blank_of_normalize?_self (h : normalize? exts = some exts) :
    ∀ e ∈ exts, Text.begins isBlank e = false := by
  intro e he
  by_contra hblank
  rw [Bool.not_eq_false] at hblank
  -- Such extensions would be of any length, but the list has only so many characters.
  have hlong : ∀ n, ∃ t ∈ exts, Text.begins isBlank t ∧ n ≤ t.length := by
    intro n
    induction n with
    | zero => exact ⟨e, he, hblank, Nat.zero_le _⟩
    | succ n ih =>
      obtain ⟨t, ht, htblank, hn⟩ := ih
      obtain ⟨u, hu, hublank, hlt⟩ := exists_longer_of_normalize?_self h ht htblank
      exact ⟨u, hu, hublank, Nat.succ_le_of_lt (Nat.lt_of_le_of_lt hn hlt)⟩
  obtain ⟨t, ht, -, hn⟩ := hlong (exts.flatten.length + 1)
  have hle := (List.sublist_flatten_of_mem ht).length_le
  omega

/-- The extensions that are left of a list are distinct and not empty, and neither begin with a
point nor end with a blank. They begin with no blank, and are their own normal form, exactly if no
extension of the list has a blank behind its points. -/
theorem normalize?_isNormal (h : normalize? ts = some exts) :
    exts.Nodup ∧
      (∀ e ∈ exts, e ≠ [] ∧ Text.begins isPoint e = false ∧ Text.ends isBlank e = false) ∧
      ((∀ e ∈ exts, Text.begins isBlank e = false) ↔ ∀ t ∈ ts, hidesBlank t = false) ∧
      (normalize? exts = some exts ↔ ∀ t ∈ ts, hidesBlank t = false) := by
  have hblank : (∀ e ∈ exts, Text.begins isBlank e = false) ↔ ∀ t ∈ ts, hidesBlank t = false := by
    constructor
    · intro hexts t ht
      by_cases hnil : clean t = []
      · exact congrArg (Text.begins isBlank) hnil
      · exact hexts _ ((mem_of_normalize? h).2 ⟨hnil, t, ht, rfl⟩)
    · intro hts e he
      obtain ⟨-, t, ht, rfl⟩ := (mem_of_normalize? h).1 he
      exact hts t ht
  refine ⟨?_, fun e he => ?_, hblank, ?_⟩
  · rw [← (normalize?_eq_some.1 h).2]
    exact foldl_add_nodup List.nodup_nil
  · obtain ⟨hne, t, -, rfl⟩ := (mem_of_normalize? h).1 he
    exact ⟨hne, begins_clean_point t, ends_clean_blank t⟩
  · rw [← hblank]
    exact ⟨not_begins_blank_of_normalize?_self, normalize?_eq_self h⟩

/-- Points and blanks around extensions are no matter as long as the points come last. -/
theorem normalize?_isNormal_padded :
    normalize? [" .c".toList, "..mm\t".toList, "c".toList] = some ["c".toList, "mm".toList] ∧
      normalize? ["c".toList, "mm".toList] = some ["c".toList, "mm".toList] := by
  have h : normalize? [" .c".toList, "..mm\t".toList, "c".toList] =
      some ["c".toList, "mm".toList] := by decide
  exact ⟨h, (normalize?_isNormal h).2.2.2.2 (by decide)⟩

/-- A blank behind a point is left at the front, and goes only when the result is normalized once
more. -/
theorem normalize?_point_blank :
    normalize? [". c".toList] = some [" c".toList] ∧ Text.begins isBlank " c".toList ∧
      normalize? [" c".toList] = some ["c".toList] := by
  decide

/-! ### Patterns -/

def anyFile : Text :=
  "**/*.".toList

theorem mem_expand_pattern (hexts : normalize? ts = some exts)
    (h : ∀ e ∈ exts, Braces.isClosed 0 e) :
    p ∈ Braces.expand (pattern exts) ↔ ∃ e ∈ exts, p ∈ Braces.expand (anyFile ++ e) := by
  have hne := (normalize?_eq_some.1 hexts).1
  match exts with
  | [e] =>
    have hone : pattern [e] = anyFile ++ e := rfl
    simp [hone]
  | e :: f :: more =>
    have hplain : '\x7d' ∉ anyFile := by decide
    exact Braces.mem_expand_intercalate hplain hne h

end FormatAudit.Extension
