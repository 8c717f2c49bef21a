import FormatAudit.ShellWords
import Mathlib.Data.List.Basic

/-! Splitting a command line that was put together from words gives these words back. A quoted word
is read to its end whatever comes behind it, so the words can be taken one after the other. -/
namespace FormatAudit.ShellWords

variable {c : Char}

theorem isGap_of_isPlain (h : isPlain c) : isGap c = false := by
  rw [← Bool.not_eq_true]
  intro hgap
  simp only [isGap, Bool.or_eq_true, decide_eq_true_eq] at hgap
  obtain ((rfl | rfl) | rfl) | rfl := hgap <;> exact absurd h (by decide)

theorem isSpecial_of_isPlain (h : isPlain c) : isSpecial c = false := by
  rw [← Bool.not_eq_true]
  intro hspecial
  simp only [isSpecial, Bool.or_eq_true, decide_eq_true_eq] at hspecial
  obtain (rfl | rfl) | rfl := hspecial <;> exact absurd h (by decide)

/-! ### One word -/

theorem scan_bare_plain {w : Text} (h : ∀ c ∈ w, isPlain c) (word rest : Text) :
    scan .bare word (w ++ rest) = scan .bare (w.reverse ++ word) rest := by
  induction w generalizing word with
  | nil => rfl
  | cons c w ih =>
    obtain ⟨hc, hw⟩ := List.forall_mem_cons.1 h
    rw [List.cons_append, scan, isGap_of_isPlain hc, isSpecial_of_isPlain hc]
    simpa using ih hw (c :: word)

/-- A single quote in a word closes the quotes, stands between double quotes, and opens the single
ones again. -/
theorem scan_single_quote (word rest : Text) :
    scan .single word ("'\"'\"'".toList ++ rest) = scan .single ('\'' :: word) rest := by
  simp [scan, isGap, isSpecial, opened]

theorem scan_single_quoted (w word rest : Text) :
    scan .single word
        (w.flatMap (fun c => if c = '\'' then "'\"'\"'".toList else [c]) ++ '\'' :: rest) =
      scan .bare (w.reverse ++ word) rest := by
  induction w generalizing word with
  | nil => rw [List.flatMap_nil, List.nil_append, scan, if_pos rfl, List.reverse_nil,
      List.nil_append]
  | cons c w ih =>
    have hword : (c :: w).reverse ++ word = w.reverse ++ c :: word := by simp
    rw [List.flatMap_cons, List.append_assoc, hword, ← ih]
    by_cases hc : c = '\''
    · rw [if_pos hc, scan_single_quote, hc]
    · rw [if_neg hc, List.singleton_append, scan, if_neg hc]

/-- Whatever comes behind a word in quotes, the word is read to its end. -/
theorem scan_quote (w rest : Text) :
    scan .gap [] (quote w ++ rest) = scan .bare w.reverse rest := by
  rw [quote]
  split
  · next h =>
    obtain ⟨hne, hplain⟩ := h
    obtain ⟨c, w, rfl⟩ := List.exists_cons_of_ne_nil hne
    obtain ⟨hc, hw⟩ := List.forall_mem_cons.1 (List.all_eq_true.1 hplain)
    rw [List.cons_append, scan, isGap_of_isPlain hc, isSpecial_of_isPlain hc]
    simpa using scan_bare_plain hw [c] rest
  · have hquoted := scan_single_quoted w [] rest
    rw [List.append_nil] at hquoted
    rw [← hquoted, List.append_assoc, List.cons_append]
    rfl

/-! ### All words -/

theorem split_join (words : List Text) : split (join words) = .ok words := by
  induction words with
  | nil => rfl
  | cons w words ih =>
    by_cases hnil : words = []
    · subst hnil
      have hjoin : join [w] = quote w ++ [] := by simp [join]
      rw [hjoin, split, scan_quote, scan, List.reverse_reverse]
    · have hmap : words.map quote ≠ [] := by simpa using hnil
      have hjoin : join (w :: words) = quote w ++ ' ' :: join words := by
        rw [join, List.map_cons, List.intercalate_cons_of_ne_nil hmap, List.append_assoc]
        rfl
      calc split (join (w :: words))
          = scan .bare w.reverse (' ' :: join words) := by rw [hjoin, split, scan_quote]
        _ = (split (join words)).map (w :: ·) := by
            rw [scan, if_pos (by decide), List.reverse_reverse, split]
        _ = .ok (w :: words) := by rw [ih]; rfl

end FormatAudit.ShellWords
