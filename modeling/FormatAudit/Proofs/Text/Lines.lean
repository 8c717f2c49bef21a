import FormatAudit.Text.Lines
import Mathlib.Data.List.TakeWhile

/-! Lines by what they look like: a line feed ends a line and stands nowhere else in it, and only
the last line of a text may lack it. Splitting a text gives its lines, no other lists of lines
concatenate to it, and any stretch of them is a list of lines again. -/
namespace FormatAudit

structure IsLine (l : Text) : Prop where
  ne_nil : l ≠ []
  inner : '\n' ∉ l.dropLast

def IsEnded (l : Text) : Prop :=
  l.getLast? = some '\n'

instance : DecidablePred IsEnded :=
  fun l => inferInstanceAs (Decidable (l.getLast? = some '\n'))

structure IsLines (ls : List Text) : Prop where
  isLine : ∀ l ∈ ls, IsLine l
  ended : ∀ l ∈ ls.dropLast, IsEnded l

def lineBody (l : Text) : Text :=
  l.takeWhile (· ≠ '\n')

theorem newline_not_mem_lineBody (l : Text) : '\n' ∉ lineBody l := by
  intro h
  simpa using List.mem_takeWhile_imp h

theorem lineBody_cons {c : Char} {l : Text} (h : c ≠ '\n') :
    lineBody (c :: l) = c :: lineBody l := by
  simp [lineBody, h]

theorem isLine_newline : IsLine ['\n'] :=
  ⟨by simp, by simp⟩

theorem isLine_singleton (c : Char) : IsLine [c] :=
  ⟨by simp, by simp⟩

theorem IsLine.cons {c : Char} {l : Text} (h : IsLine l) (hc : c ≠ '\n') : IsLine (c :: l) := by
  refine ⟨by simp, ?_⟩
  rw [List.dropLast_cons_of_ne_nil h.ne_nil, List.mem_cons]
  rintro (he | hm)
  · exact hc he.symm
  · exact h.inner hm

theorem isEnded_cons {c : Char} {l : Text} (h : l ≠ []) : IsEnded (c :: l) ↔ IsEnded l := by
  obtain ⟨d, r, rfl⟩ := List.exists_cons_of_ne_nil h
  simp [IsEnded]

theorem lineBody_of_not_mem {l : Text} (h : '\n' ∉ l) : lineBody l = l := by
  refine List.takeWhile_eq_self_iff.2 fun c hc => ?_
  rw [decide_eq_true_iff]
  rintro rfl
  exact h hc

theorem IsLine.eq_of_isEnded {l : Text} (h : IsLine l) (he : IsEnded l) :
    l = lineBody l ++ ['\n'] := by
  obtain ⟨body, rfl⟩ := List.getLast?_eq_some_iff.1 he
  have hbody : '\n' ∉ body := by simpa using h.inner
  have hb := lineBody_of_not_mem hbody
  rw [lineBody] at hb ⊢
  rw [List.takeWhile_append_of_pos fun c hc => ?_]
  · simp
  · exact List.takeWhile_eq_self_iff.1 hb c hc

theorem isLines_nil : IsLines [] :=
  ⟨by simp, by simp⟩

theorem isLines_cons {l : Text} {ls : List Text} :
    IsLines (l :: ls) ↔ IsLine l ∧ (ls ≠ [] → IsEnded l) ∧ IsLines ls := by
  cases ls with
  | nil => exact ⟨fun h => ⟨h.isLine l (by simp), by simp, isLines_nil⟩,
      fun h => ⟨by simpa using h.1, by simp⟩⟩
  | cons m ls =>
    constructor
    · rintro ⟨hl, he⟩
      rw [List.dropLast_cons_of_ne_nil (by simp)] at he
      obtain ⟨hl, hls⟩ := List.forall_mem_cons.1 hl
      obtain ⟨he, hes⟩ := List.forall_mem_cons.1 he
      exact ⟨hl, fun _ => he, hls, hes⟩
    · rintro ⟨hl, he, hls, hes⟩
      refine ⟨List.forall_mem_cons.2 ⟨hl, hls⟩, ?_⟩
      rw [List.dropLast_cons_of_ne_nil (by simp)]
      exact List.forall_mem_cons.2 ⟨he (by simp), hes⟩

theorem IsLines.append_left {ls ms : List Text} (h : IsLines (ls ++ ms)) : IsLines ls := by
  induction ls with
  | nil => exact isLines_nil
  | cons l ls ih =>
    obtain ⟨hl, he, hls⟩ := isLines_cons.1 h
    refine isLines_cons.2 ⟨hl, fun hne => he ?_, ih hls⟩
    exact List.append_ne_nil_of_left_ne_nil hne ms

theorem IsLines.append_right {ls ms : List Text} (h : IsLines (ls ++ ms)) : IsLines ms := by
  induction ls with
  | nil => exact h
  | cons l ls ih => exact ih (isLines_cons.1 h).2.2

/-- Of the lines of a text, only those at its end may lack their line feed. -/
theorem IsLines.isEnded_of_append {ls ms : List Text} (h : IsLines (ls ++ ms)) (hne : ms ≠ []) :
    ∀ l ∈ ls, IsEnded l := by
  induction ls with
  | nil => simp
  | cons l ls ih =>
    obtain ⟨-, he, hls⟩ := isLines_cons.1 h
    exact List.forall_mem_cons.2 ⟨he (List.append_ne_nil_of_right_ne_nil ls hne), ih hls⟩

/-! ### Splitting -/

/-- What a character before a text does to its lines, if it is no line feed: it goes to the first
line, or makes one. -/
theorem splitLines_cons_cases {c : Char} (hc : c ≠ '\n') (t : Text) :
    splitLines t = [] ∧ splitLines (c :: t) = [[c]] ∨
      ∃ l ls, splitLines t = l :: ls ∧ splitLines (c :: t) = (c :: l) :: ls := by
  cases h : splitLines t with
  | nil => exact Or.inl (by simp [splitLines, hc, h])
  | cons l ls => exact Or.inr ⟨l, ls, rfl, by simp [splitLines, hc, h]⟩

theorem splitLines_newline (t : Text) : splitLines ('\n' :: t) = ['\n'] :: splitLines t := by
  simp [splitLines]

theorem splitLines_flatten (t : Text) : (splitLines t).flatten = t := by
  induction t with
  | nil => rfl
  | cons c t ih =>
    by_cases hc : c = '\n'
    · subst c
      rw [splitLines_newline, List.flatten_cons, ih]
      rfl
    · obtain ⟨hn, h⟩ | ⟨l, ls, hl, h⟩ := splitLines_cons_cases hc t
      · rw [hn] at ih
        rw [h, ← ih]
        rfl
      · rw [hl] at ih
        rw [h, ← ih]
        rfl

theorem isLines_splitLines (t : Text) : IsLines (splitLines t) := by
  induction t with
  | nil => exact isLines_nil
  | cons c t ih =>
    by_cases hc : c = '\n'
    · subst c
      rw [splitLines_newline]
      exact isLines_cons.2 ⟨isLine_newline, fun _ => rfl, ih⟩
    · obtain ⟨-, h⟩ | ⟨l, ls, hl, h⟩ := splitLines_cons_cases hc t
      · rw [h]
        exact isLines_cons.2 ⟨isLine_singleton c, by simp, isLines_nil⟩
      · rw [hl] at ih
        obtain ⟨hline, he, hls⟩ := isLines_cons.1 ih
        rw [h]
        exact isLines_cons.2
          ⟨hline.cons hc, fun hne => (isEnded_cons hline.ne_nil).2 (he hne), hls⟩

theorem splitLines_eq_nil {t : Text} : splitLines t = [] ↔ t = [] := by
  constructor
  · intro h
    rw [← splitLines_flatten t, h]
    rfl
  · rintro rfl
    rfl

theorem splitLines_injective {s t : Text} (h : splitLines s = splitLines t) : s = t := by
  rw [← splitLines_flatten s, h, splitLines_flatten]

theorem splitLines_append_newline {body : Text} (h : '\n' ∉ body) (t : Text) :
    splitLines (body ++ '\n' :: t) = (body ++ ['\n']) :: splitLines t := by
  induction body with
  | nil => exact splitLines_newline t
  | cons c body ih =>
    obtain ⟨hc, hbody⟩ := not_or.1 fun hm => h (List.mem_cons.2 hm)
    simp [splitLines, Ne.symm hc, ih hbody]

theorem splitLines_of_not_mem {body : Text} (h : '\n' ∉ body) (hne : body ≠ []) :
    splitLines body = [body] := by
  induction body with
  | nil => exact absurd rfl hne
  | cons c body ih =>
    obtain ⟨hc, hbody⟩ := not_or.1 fun hm => h (List.mem_cons.2 hm)
    by_cases hn : body = []
    · subst hn
      simp [splitLines, Ne.symm hc]
    · simp [splitLines, Ne.symm hc, ih hbody hn]

theorem IsLine.not_mem_of_not_isEnded {l : Text} (h : IsLine l) (he : ¬ IsEnded l) : '\n' ∉ l := by
  intro hm
  rw [← List.dropLast_concat_getLast h.ne_nil, List.mem_append, List.mem_singleton] at hm
  obtain hm | hm := hm
  · exact h.inner hm
  · exact he (by rw [IsEnded, List.getLast?_eq_some_getLast h.ne_nil, ← hm])

/-- No other lists of lines concatenate to a text. -/
theorem splitLines_of_isLines {ls : List Text} (h : IsLines ls) : splitLines ls.flatten = ls := by
  induction ls with
  | nil => rfl
  | cons l ls ih =>
    obtain ⟨hl, he, hls⟩ := isLines_cons.1 h
    by_cases hend : IsEnded l
    · have heq := hl.eq_of_isEnded hend
      calc splitLines (l ++ ls.flatten)
          = splitLines ((lineBody l ++ ['\n']) ++ ls.flatten) :=
            congrArg (fun m => splitLines (m ++ ls.flatten)) heq
        _ = splitLines (lineBody l ++ '\n' :: ls.flatten) := by
            rw [List.append_assoc, List.singleton_append]
        _ = (lineBody l ++ ['\n']) :: splitLines ls.flatten :=
            splitLines_append_newline (newline_not_mem_lineBody l) _
        _ = l :: ls := by rw [ih hls, ← heq]
    · have hnil : ls = [] := by
        by_contra hne
        exact hend (he hne)
      subst hnil
      simpa using splitLines_of_not_mem (hl.not_mem_of_not_isEnded hend) hl.ne_nil

/-- A text has one division into lines: none of them is empty, a line feed stands only at the end
of a line, and all lines but the last end with one. -/
theorem splitLines_eq_iff {t : Text} {ls : List Text} :
    splitLines t = ls ↔ ls.flatten = t ∧ IsLines ls := by
  constructor
  · intro h
    subst ls
    exact ⟨splitLines_flatten t, isLines_splitLines t⟩
  · intro h
    obtain ⟨hflat, hlines⟩ := h
    subst t
    exact splitLines_of_isLines hlines

/-! ### Lines in messages -/

/-- The pieces between line feeds are the bodies of the lines, and an empty one if the text ends
with a line feed or has no lines. -/
theorem pieces_newline (t : Text) :
    Text.pieces '\n' t =
      (splitLines t).map lineBody ++ if t = [] ∨ IsEnded t then [[]] else [] := by
  induction t with
  | nil => rfl
  | cons c t ih =>
    by_cases hc : c = '\n'
    · subst c
      have hend : IsEnded ('\n' :: t) ↔ t = [] ∨ IsEnded t := by
        by_cases ht : t = []
        · simp [ht, IsEnded]
        · simp [isEnded_cons, ht]
      have hbody : lineBody ['\n'] = [] := rfl
      simp [Text.pieces, splitLines_newline, ih, hbody, hend]
    · by_cases ht : t = []
      · subst ht
        simp [Text.pieces, splitLines, hc, lineBody, IsEnded]
      · obtain ⟨hn, -⟩ | ⟨l, ls, hl, h⟩ := splitLines_cons_cases hc t
        · exact absurd (splitLines_eq_nil.1 hn) ht
        · simp [Text.pieces, hc, ih, hl, h, lineBody_cons hc, isEnded_cons, ht]

theorem shownLines_eq {t : Text} (h : t ≠ []) : shownLines t = (splitLines t).map lineBody := by
  by_cases he : IsEnded t
  · have hl : t.getLast? = some '\n' := he
    simp [shownLines, pieces_newline, hl, he]
  · have hl : ¬ t.getLast? = some '\n' := he
    simp [shownLines, pieces_newline, hl, he, h]

theorem shownLines_ne_nil (t : Text) : shownLines t ≠ [] := by
  by_cases h : t = []
  · subst h
    simp [shownLines, Text.pieces]
  · simpa [shownLines_eq h, splitLines_eq_nil] using h

theorem renderLines_ne_nil (t : Text) {lead : Text} (h : lead ≠ []) : renderLines t lead ≠ [] := by
  obtain ⟨l, ls, hl⟩ := List.exists_cons_of_ne_nil (shownLines_ne_nil t)
  cases ls <;> simp [renderLines, hl, List.intercalate, h]

theorem renderLines_of_isLine {l : Text} (h : IsLine l) (lead : Text) :
    renderLines l lead = lead ++ (MarginedLine.ofLine (lineBody l)).shown := by
  have hs : splitLines l = [l] := by
    simpa using splitLines_of_isLines (isLines_cons.2 ⟨h, by simp, isLines_nil⟩)
  simp [renderLines, shownLines_eq h.ne_nil, hs]

theorem renderLines_flatten {ls : List Text} (h : IsLines ls) (hne : ls ≠ []) (lead : Text) :
    renderLines ls.flatten lead = ['\n'].intercalate (ls.map (renderLines · lead)) := by
  have hflat : ls.flatten ≠ [] := by
    intro hn
    rw [← splitLines_eq_nil, splitLines_of_isLines h] at hn
    exact hne hn
  have hmap : ls.map (renderLines · lead) =
      ls.map fun l => lead ++ (MarginedLine.ofLine (lineBody l)).shown :=
    List.map_congr_left fun l hl => renderLines_of_isLine (h.isLine l hl) lead
  rw [hmap, renderLines, shownLines_eq hflat, splitLines_of_isLines h, List.map_map]
  rfl

end FormatAudit
