import FormatAudit.Proofs.Text.Margin
import FormatAudit.Proofs.Text.Pieces
import FormatAudit.Proofs.Text.Trim
import Mathlib.Data.List.Forall2

/-! What is shown of a text. Each of its lines is shown as one line behind the lead, with marks for
the blanks of its margins and nothing else changed. Taking the marks away again, first those before
tabs and then those for spaces, gives the lines back, unless the text has such marks of its own. -/
namespace FormatAudit

/-- The lines of a text without their line feeds. A text without a line counts as an empty line. -/
def textLines (t : Text) : List Text :=
  if t = [] then [[]] else (splitLines t).map lineBody

/-- The three parts of a line: all the blanks that it begins with, and all that it ends with. The
core of a line of blanks is empty, and so is what follows it. -/
structure MarginedLine.IsOf (m : MarginedLine) (line : Text) : Prop where
  line_eq : m.leading ++ m.core ++ m.trailing = line
  leading_blank : ∀ c ∈ m.leading, isBlank c
  trailing_blank : ∀ c ∈ m.trailing, isBlank c
  leading_longest : Text.begins isBlank (m.core ++ m.trailing) = false
  trailing_longest : Text.ends isBlank m.core = false

/-- There is no space, and every tab is directly behind a mark. -/
structure IsMarked (t : Text) : Prop where
  noSpace : ' ' ∉ t
  behindMark : ∀ front back, t = front ++ '\t' :: back → front.getLast? = some tabMark

/-- The text `body` is what is shown of a line: marked margins around the core as it is. -/
def IsShownAs (line body : Text) : Prop :=
  ∃ m : MarginedLine, m.IsOf line ∧ body = visible m.leading ++ m.core ++ visible m.trailing ∧
    IsMarked (visible m.leading) ∧ IsMarked (visible m.trailing)

/-- Every mark that is followed by a tab is taken away. -/
def withoutTabMarks : Text → Text
  | [] => []
  | c :: r => if c = tabMark ∧ r.head? = some '\t' then withoutTabMarks r
    else c :: withoutTabMarks r

def withoutSpaceMarks (t : Text) : Text :=
  t.map fun c => if c = spaceMark then ' ' else c

def withoutMarks (t : Text) : Text :=
  withoutSpaceMarks (withoutTabMarks t)

/-! ### Lines -/

theorem shownLines_eq_textLines (t : Text) : shownLines t = textLines t := by
  by_cases ht : t = []
  · subst ht
    rfl
  · rw [shownLines_eq ht, textLines, if_neg ht]

theorem newline_not_mem_of_mem_textLines {t line : Text} (h : line ∈ textLines t) :
    '\n' ∉ line := by
  rw [textLines] at h
  split at h
  · rw [List.mem_singleton.1 h]
    exact List.not_mem_nil
  · obtain ⟨l, -, rfl⟩ := List.mem_map.1 h
    exact newline_not_mem_lineBody l

theorem mem_of_mem_textLines {t line : Text} {c : Char} (h : line ∈ textLines t) (hc : c ∈ line) :
    c ∈ t := by
  rw [textLines] at h
  split at h
  · rw [List.mem_singleton.1 h] at hc
    cases hc
  · obtain ⟨l, hl, rfl⟩ := List.mem_map.1 h
    rw [← splitLines_flatten t]
    exact List.mem_flatten.2 ⟨l, hl, (List.takeWhile_sublist _).subset hc⟩

/-! ### Margins -/

theorem MarginedLine.ofLine_isOf (line : Text) : (ofLine line).IsOf line := by
  have hrest : (ofLine line).core ++ (ofLine line).trailing = line.dropWhile isBlank := by
    simp only [ofLine, ← List.reverse_append, List.takeWhile_append_dropWhile, List.reverse_reverse]
  constructor
  case line_eq => exact ofLine_append line
  case leading_blank => exact fun c hc => List.mem_takeWhile_imp hc
  case trailing_blank => exact fun c hc => List.mem_takeWhile_imp (List.mem_reverse.1 hc)
  case leading_longest =>
    rw [hrest]
    exact Text.begins_dropWhile isBlank line
  case trailing_longest => exact Text.ends_trim isBlank line

theorem isMarked_nil : IsMarked [] :=
  ⟨List.not_mem_nil, by simp⟩

theorem IsMarked.cons {c : Char} {t : Text} (hspace : c ≠ ' ') (htab : c ≠ '\t') (h : IsMarked t) :
    IsMarked (c :: t) := by
  refine ⟨fun hmem => ?_, fun front back heq => ?_⟩
  · obtain rfl | hmem := List.mem_cons.1 hmem
    · exact hspace rfl
    · exact h.noSpace hmem
  · cases front with
    | nil => exact absurd (List.cons.inj heq).1 htab
    | cons d front =>
      have hlast := h.behindMark front back (List.cons.inj heq).2
      rw [List.getLast?_cons, hlast]
      rfl

theorem IsMarked.tab {t : Text} (h : IsMarked t) : IsMarked (tabMark :: '\t' :: t) := by
  refine ⟨by simpa [tabMark] using h.noSpace, fun front back heq => ?_⟩
  match front with
  | [] => exact absurd (List.cons.inj heq).1 (by decide)
  | [d] => rw [(List.cons.inj heq).1, List.getLast?_singleton]
  | d :: e :: front =>
    have hlast := h.behindMark front back (List.cons.inj (List.cons.inj heq).2).2
    rw [List.getLast?_cons, List.getLast?_cons, hlast]
    rfl

theorem visible_cons (c : Char) (t : Text) : visible (c :: t) = visibleChar c ++ visible t :=
  List.flatMap_cons ..

theorem isMarked_visible (t : Text) : IsMarked (visible t) := by
  induction t with
  | nil => exact isMarked_nil
  | cons c t ih =>
    rw [visible_cons, visibleChar]
    by_cases hspace : c = ' '
    · rw [if_pos hspace]
      exact ih.cons (by decide) (by decide)
    · rw [if_neg hspace]
      by_cases htab : c = '\t'
      · rw [if_pos htab]
        exact ih.tab
      · rw [if_neg htab]
        exact ih.cons hspace htab

theorem shown_isShownAs (line : Text) : IsShownAs line (MarginedLine.ofLine line).shown :=
  ⟨MarginedLine.ofLine line, MarginedLine.ofLine_isOf line, rfl, isMarked_visible _,
    isMarked_visible _⟩

/-! ### Taking the marks away -/

theorem withoutMarks_cons {c : Char} (hspace : c ≠ spaceMark) (htab : c ≠ tabMark) (t : Text) :
    withoutMarks (c :: t) = c :: withoutMarks t := by
  simp [withoutMarks, withoutTabMarks, withoutSpaceMarks, hspace, htab]

theorem withoutMarks_space (t : Text) : withoutMarks (spaceMark :: t) = ' ' :: withoutMarks t := by
  have hne : spaceMark ≠ tabMark := by decide
  simp [withoutMarks, withoutTabMarks, withoutSpaceMarks, hne]

theorem withoutMarks_tab (t : Text) :
    withoutMarks (tabMark :: '\t' :: t) = '\t' :: withoutMarks t := by
  rw [withoutMarks, withoutTabMarks, if_pos ⟨rfl, rfl⟩]
  exact withoutMarks_cons (by decide) (by decide) t

section Unmarked
variable {t : Text}

theorem withoutMarks_append (hspace : spaceMark ∉ t) (htab : tabMark ∉ t) (rest : Text) :
    withoutMarks (t ++ rest) = t ++ withoutMarks rest := by
  induction t with
  | nil => rfl
  | cons c t ih =>
    obtain ⟨hspace, hspaces⟩ := not_or.1 (List.mem_cons.not.1 hspace)
    obtain ⟨htab, htabs⟩ := not_or.1 (List.mem_cons.not.1 htab)
    rw [List.cons_append, withoutMarks_cons (Ne.symm hspace) (Ne.symm htab), ih hspaces htabs,
      List.cons_append]

/-- Taking the marks away undoes marking, whatever comes behind it. -/
theorem withoutMarks_visible_append (hspace : spaceMark ∉ t) (htab : tabMark ∉ t) (rest : Text) :
    withoutMarks (visible t ++ rest) = t ++ withoutMarks rest := by
  induction t with
  | nil => rfl
  | cons c t ih =>
    obtain ⟨hspace, hspaces⟩ := not_or.1 (List.mem_cons.not.1 hspace)
    obtain ⟨htab, htabs⟩ := not_or.1 (List.mem_cons.not.1 htab)
    rw [visible_cons, visibleChar, List.append_assoc, List.cons_append, ← ih hspaces htabs]
    by_cases hc : c = ' '
    · rw [if_pos hc, hc]
      exact withoutMarks_space _
    · rw [if_neg hc]
      by_cases hc : c = '\t'
      · rw [if_pos hc, hc]
        exact withoutMarks_tab _
      · rw [if_neg hc]
        exact withoutMarks_cons (Ne.symm hspace) (Ne.symm htab) _

theorem withoutMarks_visible (hspace : spaceMark ∉ t) (htab : tabMark ∉ t) :
    withoutMarks (visible t) = t := by
  have hnil : withoutMarks [] = [] := rfl
  have h := withoutMarks_visible_append hspace htab []
  rwa [hnil, List.append_nil, List.append_nil] at h

end Unmarked

theorem withoutMarks_shown {line : Text} (hspace : spaceMark ∉ line) (htab : tabMark ∉ line) :
    withoutMarks (MarginedLine.ofLine line).shown = line := by
  have hparts := MarginedLine.ofLine_append line
  rw [← hparts] at hspace htab
  simp only [List.mem_append, not_or] at hspace htab
  rw [MarginedLine.shown, List.append_assoc, withoutMarks_visible_append hspace.1.1 htab.1.1,
    withoutMarks_append hspace.1.2 htab.1.2, withoutMarks_visible hspace.2 htab.2,
    ← List.append_assoc, hparts]

/-- A text is shown line by line, with marks in the margins, and its lines come back from that. -/
theorem renderLines_shows (t lead : Text) (hlead : '\n' ∉ lead) :
    ∃ bodies, renderLines t lead = ['\n'].intercalate (bodies.map (lead ++ ·)) ∧
      Text.pieces '\n' (renderLines t lead) = bodies.map (lead ++ ·) ∧
      List.Forall₂ IsShownAs (textLines t) bodies ∧
      (spaceMark ∉ t → tabMark ∉ t → bodies.map withoutMarks = textLines t) := by
  let shownOf := fun line => (MarginedLine.ofLine line).shown
  have hrender : renderLines t lead =
      ['\n'].intercalate (((textLines t).map shownOf).map (lead ++ ·)) := by
    rw [renderLines, shownLines_eq_textLines, List.map_map]
    rfl
  refine ⟨(textLines t).map shownOf, hrender, ?_, ?_, fun hspace htab => ?_⟩
  · rw [hrender]
    refine Text.pieces_intercalate (fun shownLine hmem => ?_) ?_
    · obtain ⟨body, hbody, rfl⟩ := List.mem_map.1 hmem
      obtain ⟨line, hline, rfl⟩ := List.mem_map.1 hbody
      rw [List.mem_append, not_or]
      exact ⟨hlead, newline_not_mem_shown (newline_not_mem_of_mem_textLines hline)⟩
    · have hne := shownLines_ne_nil t
      rw [shownLines_eq_textLines] at hne
      simpa using hne
  · rw [List.forall₂_map_right_iff, List.forall₂_same]
    exact fun line _ => shown_isShownAs line
  · rw [List.map_map]
    refine (List.map_congr_left fun line hline => ?_).trans (List.map_id _)
    exact withoutMarks_shown (fun hmem => hspace (mem_of_mem_textLines hline hmem))
      fun hmem => htab (mem_of_mem_textLines hline hmem)

/-- A tab and a carriage return behind a word, a line of blanks, and an indented line without its
line feed. -/
theorem renderLines_shows_blanks :
    let t := " x\t\r\n\t \n\u00a0 y z".toList
    let lines := [" x\t\r".toList, "\t ".toList, "\u00a0 y z".toList]
    '\n' ∉ "- ".toList ∧ spaceMark ∉ t ∧ tabMark ∉ t ∧
      ∃ bodies, renderLines t "- ".toList = ['\n'].intercalate (bodies.map ("- ".toList ++ ·)) ∧
        Text.pieces '\n' (renderLines t "- ".toList) = bodies.map ("- ".toList ++ ·) ∧
        List.Forall₂ IsShownAs lines bodies ∧ bodies.map withoutMarks = lines := by
  intro t lines
  have hlead : '\n' ∉ "- ".toList := by decide
  have hspace : spaceMark ∉ t := by decide
  have htab : tabMark ∉ t := by decide
  have hlines : textLines t = lines := by decide
  obtain ⟨bodies, hjoined, hpieces, hshown, hback⟩ := renderLines_shows t "- ".toList hlead
  rw [hlines] at hshown hback
  exact ⟨hlead, hspace, htab, bodies, hjoined, hpieces, hshown, hback hspace htab⟩

end FormatAudit
