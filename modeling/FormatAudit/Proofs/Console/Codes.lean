import FormatAudit.Console.Report
import FormatAudit.Proofs.Text.Pieces
import FormatAudit.Proofs.Violation.Naming

/-! Colour codes in what is printed. Without colour nothing is printed but characters of the texts
given and a few that are put between them, so an escape character cannot come from anywhere else.
With colour, codes stand around pieces of the texts and nothing else is different. -/
namespace FormatAudit.Console

def escape : Char := '\x1b'

def IsPlain (t : Text) : Prop :=
  escape ∉ t

instance (t : Text) : Decidable (IsPlain t) :=
  inferInstanceAs (Decidable (escape ∉ t))

theorem isPlain_append {t u : Text} : IsPlain (t ++ u) ↔ IsPlain t ∧ IsPlain u := by
  rw [IsPlain, List.mem_append, not_or]
  rfl

theorem isPlain_cons {c : Char} {t : Text} : IsPlain (c :: t) ↔ c ≠ escape ∧ IsPlain t := by
  rw [IsPlain, List.mem_cons, not_or, ne_comm]
  rfl

theorem isPlain_clean {t : Text} (h : IsPlain t) : IsPlain (clean t) :=
  fun hmem => h (List.mem_filter.1 hmem).1

/-! ### Characters of what is printed without colour -/

section Characters

variable {c : Char} {column : Nat} {p t : Text}

theorem mem_of_mem_piecesAtStops {ps : List Text} (hp : p ∈ piecesAtStops column ps) (hc : c ∈ p) :
    c = ' ' ∨ ∃ q ∈ ps, c ∈ q := by
  fun_induction piecesAtStops column ps with
  | case1 column => cases hp
  | case2 column piece =>
    rw [List.mem_singleton] at hp
    exact .inr ⟨piece, List.mem_cons_self, hp ▸ hc⟩
  | case3 column piece rest _ stop more ih =>
    obtain rfl | hp := List.mem_cons.1 hp
    · rw [List.mem_append, List.mem_cons] at hc
      obtain hc | rfl | hc := hc
      · exact .inr ⟨piece, List.mem_cons_self, hc⟩
      · exact .inl rfl
      · exact .inl (List.eq_of_mem_replicate hc)
    · obtain hblank | ⟨q, hq, hcq⟩ := ih hp
      · exact .inl hblank
      · exact .inr ⟨q, List.mem_cons_of_mem piece hq, hcq⟩

theorem mem_of_mem_tabPieces (hp : p ∈ tabPieces column t) (hc : c ∈ p) : c = ' ' ∨ c ∈ t := by
  obtain hblank | ⟨q, hq, hcq⟩ := mem_of_mem_piecesAtStops hp hc
  · exact .inl hblank
  · exact .inr (Text.mem_of_mem_pieces hq hcq)

theorem mem_of_mem_linePieces {ps : List Text} (hps : ps ∈ (linePieces column t).1) (hp : p ∈ ps)
    (hc : c ∈ p) : c = ' ' ∨ c ∈ t := by
  have hline : ∀ line ∈ Text.pieces '\n' t, ∀ column, p ∈ tabPieces column line →
      c = ' ' ∨ c ∈ t := by
    intro line hline column hp
    exact (mem_of_mem_tabPieces hp hc).imp_right (Text.mem_of_mem_pieces hline)
  unfold linePieces at hps
  split at hps
  · cases hps
  · next first rest hpieces =>
    obtain rfl | hps := List.mem_cons.1 hps
    · exact hline first (by simp [hpieces]) column hp
    · obtain ⟨line, hmem, rfl⟩ := List.mem_map.1 hps
      exact hline line (by simp [hpieces, hmem]) 0 hp

theorem flatMap_dress_none (ps : List Text) : ps.flatMap (dress none) = ps.flatten :=
  List.flatMap_id'

theorem mem_of_mem_spansFrom {spans : List Span} (hspans : ∀ s ∈ spans, s.style = none)
    (hc : c ∈ spansFrom column spans) : c = '\n' ∨ c = ' ' ∨ ∃ s ∈ spans, c ∈ s.text := by
  induction spans generalizing column with
  | nil => cases hc
  | cons s spans ih =>
    obtain ⟨hs, hspans⟩ := List.forall_mem_cons.1 hspans
    rw [spansFrom] at hc
    obtain hc | hc := List.mem_append.1 hc
    · obtain hfeed | ⟨line, hline, hc⟩ := Text.eq_sep_or_mem_of_mem_intercalate hc
      · exact .inl hfeed
      · obtain ⟨ps, hps, rfl⟩ := List.mem_map.1 hline
        rw [hs, flatMap_dress_none] at hc
        obtain ⟨p, hp, hc⟩ := List.mem_flatten.1 hc
        obtain hblank | hc := mem_of_mem_linePieces hps hp hc
        · exact .inr (.inl hblank)
        · exact .inr (.inr ⟨s, List.mem_cons_self, (List.mem_filter.1 hc).1⟩)
    · obtain hfeed | hblank | ⟨u, hu, hc⟩ := ih hspans hc
      · exact .inl hfeed
      · exact .inr (.inl hblank)
      · exact .inr (.inr ⟨u, List.mem_cons_of_mem s hu, hc⟩)

/-- Nothing is made up: what is printed without colour are the characters of the texts, blanks where
tabs were, and line feeds. -/
theorem mem_of_mem_printed {spans : List Span} (hc : c ∈ printed false spans) :
    c = '\n' ∨ c = ' ' ∨ ∃ s ∈ spans, c ∈ s.text := by
  rw [printed] at hc
  obtain hc | hc := List.mem_append.1 hc
  · have hstyles : ∀ s ∈ spans.map fun s => (⟨none, s.text⟩ : Span), s.style = none := by
      intro s hs
      obtain ⟨u, -, rfl⟩ := List.mem_map.1 hs
      rfl
    obtain hfeed | hblank | ⟨s, hs, hc⟩ := mem_of_mem_spansFrom hstyles hc
    · exact .inl hfeed
    · exact .inr (.inl hblank)
    · obtain ⟨u, hu, rfl⟩ := List.mem_map.1 hs
      exact .inr (.inr ⟨u, hu, hc⟩)
  · exact .inl (List.mem_singleton.1 hc)

theorem isPlain_printed {spans : List Span} (h : ∀ s ∈ spans, IsPlain s.text) :
    IsPlain (printed false spans) := by
  intro hmem
  obtain hfeed | hblank | ⟨s, hs, hc⟩ := mem_of_mem_printed hmem
  · cases hfeed
  · cases hblank
  · exact h s hs hc

theorem mem_or_mem_append {s r : Text} : c ∈ t ++ s ∨ c ∈ r ↔ c ∈ t ∨ c ∈ s ++ r := by
  rw [List.mem_append, List.mem_append, or_assoc]

theorem mem_of_mem_clustersAfter {last : Option Char} {k cluster : Text.Cluster} {r : Text}
    (hk : k ∈ Text.clustersAfter last cluster r) (hc : c ∈ k.text) : c ∈ cluster.text ∨ c ∈ r := by
  fun_induction Text.clustersAfter last cluster r with
  | case1 last cluster =>
    rw [List.mem_singleton] at hk
    exact .inl (hk ▸ hc)
  | case2 last cluster =>
    rw [List.mem_singleton] at hk
    subst hk
    exact List.mem_append.1 hc
  | case3 last cluster d r ih => exact mem_or_mem_append.1 (ih hk)
  | case4 last cluster r wider _ ih => exact mem_or_mem_append.1 (ih hk)
  | case5 last cluster d r _ _ _ ih => exact mem_or_mem_append.1 (ih hk)
  | case6 last cluster d r _ _ _ ih =>
    obtain rfl | hk := List.mem_cons.1 hk
    · exact .inl hc
    · exact .inr (List.mem_append.2 (ih hk))

theorem mem_of_mem_clusters {k : Text.Cluster} (hk : k ∈ Text.clusters t) (hc : c ∈ k.text) :
    c ∈ t := by
  cases t with
  | nil => cases hk
  | cons d r =>
    rw [Text.clusters] at hk
    split at hk
    all_goals
      obtain hc | hc := mem_of_mem_clustersAfter hk hc
      · exact List.mem_cons.2 (.inl (List.mem_singleton.1 hc))
      · exact List.mem_cons_of_mem d hc

theorem mem_of_mem_fitting {room : Nat} {ks : List Text.Cluster} (hc : c ∈ fitting room ks) :
    c = ' ' ∨ ∃ k ∈ ks, c ∈ k.text := by
  fun_induction fitting room ks with
  | case1 room => cases hc
  | case2 room k ks _ ih =>
    obtain hc | hc := List.mem_append.1 hc
    · exact .inr ⟨k, List.mem_cons_self, hc⟩
    · obtain hblank | ⟨k', hk', hc⟩ := ih hc
      · exact .inl hblank
      · exact .inr ⟨k', List.mem_cons_of_mem k hk', hc⟩
  | case3 k ks _ => cases hc
  | case4 room k ks _ _ => exact .inl (List.mem_singleton.1 hc)

theorem isPlain_shortTitle (h : IsPlain t) : IsPlain (shortTitle t) := by
  unfold shortTitle
  split
  · exact h
  · refine isPlain_append.2 ⟨fun hmem => ?_, by decide⟩
    obtain hblank | ⟨k, hk, hc⟩ := mem_of_mem_fitting hmem
    · cases hblank
    · exact h (mem_of_mem_clusters hk hc)

theorem isPlain_rule (h : IsPlain t) : IsPlain (rule t false) := by
  unfold rule
  split
  · exact isPlain_printed (by decide)
  · have hdashes : ∀ n, IsPlain (List.replicate n ruleChar) :=
      fun n hmem => absurd (List.eq_of_mem_replicate hmem) (by decide)
    have htitle : IsPlain (expandTabs 0 ((clean t).map fun c => if c = '\n' then ' ' else c)) := by
      intro hmem
      obtain ⟨p, hp, hc⟩ := List.mem_flatten.1 hmem
      obtain hblank | hc := mem_of_mem_tabPieces hp hc
      · cases hblank
      · obtain ⟨d, hd, heq⟩ := List.mem_map.1 hc
        split at heq
        · cases heq
        · exact isPlain_clean h (heq ▸ hd)
    refine isPlain_printed ?_
    rintro s hs
    simp only [List.mem_cons, List.not_mem_nil, or_false] at hs
    obtain rfl | rfl | rfl := hs
    · exact isPlain_append.2 ⟨hdashes _, by decide⟩
    · exact isPlain_shortTitle htitle
    · exact fun hmem => isPlain_cons.2 ⟨by decide, hdashes _⟩ (List.mem_of_mem_take hmem)

theorem isPlain_header {color isTerminal : Bool} (h : IsPlain t)
    (hcolor : (color && isTerminal) = false) : IsPlain (header t color isTerminal) := by
  unfold header
  split
  · next hon =>
    rw [hon, Bool.true_and] at hcolor
    rw [hcolor]
    exact isPlain_cons.2 ⟨by decide, isPlain_rule h⟩
  · refine isPlain_printed (List.forall_mem_singleton.2 ?_)
    exact isPlain_append.2 ⟨isPlain_append.2 ⟨by decide, h⟩, by decide⟩

theorem isPlain_message (level : Level) (h : IsPlain t) (emoji : Bool) :
    IsPlain (message level t emoji false) := by
  refine isPlain_printed (List.forall_mem_singleton.2 (isPlain_append.2 ⟨?_, h⟩))
  cases emoji
  · exact List.not_mem_nil
  · cases level <;> decide

theorem isPlain_location {v : Violation} (h : IsPlain v.path) : IsPlain v.location := by
  have hrange : IsPlain v.range := Violation.not_mem_range (by decide) (by decide)
  exact isPlain_append.2 ⟨h, isPlain_cons.2 ⟨by decide, hrange⟩⟩

theorem isPlain_violationSpans {v : Violation} (hpath : IsPlain v.path)
    (hmessage : IsPlain v.message) (severity : Severity) (color : Bool) :
    ∀ s ∈ violationSpans v severity color, IsPlain s.text := by
  have hname : IsPlain (severity.name ++ ": ".toList) := by cases severity <;> decide
  have htrimmed : IsPlain (Text.dropRight '\n' v.message) := by
    intro hmem
    have hdropped := (List.dropWhile_sublist _).subset (List.mem_reverse.1 hmem)
    exact hmessage (List.mem_reverse.1 hdropped)
  simp only [violationSpans, List.forall_mem_cons]
  refine ⟨hname, isPlain_clean (isPlain_location hpath), ?_, List.forall_mem_nil _⟩
  exact isPlain_cons.2 ⟨by decide, isPlain_clean htrimmed⟩

end Characters

/-! ### Deleting codes -/

def isParameter (c : Char) : Bool :=
  isDigit c || c = ';'

/-- What follows a code of which the first character is left out. -/
def afterCode? : Text → Option Text
  | '[' :: r => Text.after? ['m'] (r.dropWhile isParameter)
  | _ => none

theorem length_lt_of_afterCode? {t rest : Text} (h : afterCode? t = some rest) :
    rest.length < t.length := by
  cases t with
  | nil => cases h
  | cons c r =>
    unfold afterCode? at h
    split at h
    · next r heq =>
      cases heq
      have hle := (List.dropWhile_sublist isParameter (l := r)).length_le
      cases hr : r.dropWhile isParameter with
      | nil => simp [hr, Text.after?] at h
      | cons d ds =>
        rw [hr] at h hle
        simp only [Text.after?] at h
        split at h
        · cases h
          simp only [List.length_cons] at hle ⊢
          omega
        · cases h
    · cases h

def withoutCodes : Text → Text
  | [] => []
  | c :: r =>
    if c = escape then
      match _h : afterCode? r with
      | some rest => withoutCodes rest
      | none => c :: withoutCodes r
    else c :: withoutCodes r
termination_by t => t.length
decreasing_by
  · exact Nat.lt_succ_of_lt (length_lt_of_afterCode? _h)
  · exact Nat.lt_succ_self _
  · exact Nat.lt_succ_self _

/-- Without codes the first text is the second one, whatever follows. -/
def Undresses (t u : Text) : Prop :=
  ∀ rest, withoutCodes (t ++ rest) = u ++ withoutCodes rest

section Undresses

variable {t u t' u' : Text}

theorem Undresses.eq (h : Undresses t u) : withoutCodes t = u := by
  have hnil : withoutCodes [] = [] := by rw [withoutCodes]
  have hall := h []
  rwa [hnil, List.append_nil, List.append_nil] at hall

theorem Undresses.append (h : Undresses t u) (h' : Undresses t' u') :
    Undresses (t ++ t') (u ++ u') := by
  intro rest
  rw [List.append_assoc, h, h', List.append_assoc]

theorem undresses_of_isPlain (h : IsPlain t) : Undresses t t := by
  intro rest
  induction t with
  | nil => rfl
  | cons c t ih =>
    obtain ⟨hc, ht⟩ := isPlain_cons.1 h
    rw [List.cons_append, withoutCodes, if_neg hc, ih ht, List.cons_append]

theorem undresses_code {style : Style} (h : style.all isParameter = true) :
    Undresses (code style) [] := by
  intro rest
  have hafter : afterCode? ('[' :: (style ++ 'm' :: rest)) = some rest := by
    have hm : isParameter 'm' = false := by decide
    rw [afterCode?, List.dropWhile_append_of_pos (List.all_eq_true.1 h),
      List.dropWhile_cons_of_neg (by simp [hm])]
    rfl
  have htext : code style ++ rest = escape :: '[' :: (style ++ 'm' :: rest) := by
    simp [code, escape]
  rw [htext, withoutCodes, if_pos rfl]
  split
  · next heq => rw [Option.some.inj (hafter.symm.trans heq), List.nil_append]
  · next heq => cases hafter.symm.trans heq

theorem undresses_dress {style : Option Style}
    (h : ∀ codes, style = some codes → codes.all isParameter = true) (ht : IsPlain t) :
    Undresses (dress style t) t := by
  cases style with
  | none => exact undresses_of_isPlain ht
  | some codes =>
    rw [dress]
    split
    · next hnil =>
      rw [hnil]
      exact undresses_of_isPlain List.not_mem_nil
    · have hcode := undresses_code (h codes rfl)
      have hend : Undresses (code ['0']) [] := undresses_code (by decide)
      simpa using (hcode.append (undresses_of_isPlain ht)).append hend

theorem undresses_flatMap {α : Type} {f g : α → Text} {xs : List α}
    (h : ∀ x ∈ xs, Undresses (f x) (g x)) : Undresses (xs.flatMap f) (xs.flatMap g) := by
  induction xs with
  | nil => exact undresses_of_isPlain List.not_mem_nil
  | cons x xs ih =>
    obtain ⟨hx, hxs⟩ := List.forall_mem_cons.1 h
    rw [List.flatMap_cons, List.flatMap_cons]
    exact hx.append (ih hxs)

theorem undresses_intercalate {α : Type} {f g : α → Text} {sep : Text} (hsep : IsPlain sep)
    {xs : List α} (h : ∀ x ∈ xs, Undresses (f x) (g x)) :
    Undresses (sep.intercalate (xs.map f)) (sep.intercalate (xs.map g)) := by
  induction xs with
  | nil => exact undresses_of_isPlain List.not_mem_nil
  | cons x xs ih =>
    obtain ⟨hx, hxs⟩ := List.forall_mem_cons.1 h
    by_cases hnil : xs = []
    · subst hnil
      simpa using hx
    · have hf : xs.map f ≠ [] := by simpa using hnil
      have hg : xs.map g ≠ [] := by simpa using hnil
      rw [List.map_cons, List.map_cons, List.intercalate_cons_of_ne_nil hf,
        List.intercalate_cons_of_ne_nil hg]
      exact (hx.append (undresses_of_isPlain hsep)).append (ih hxs)

end Undresses

def Span.bare (s : Span) : Span :=
  ⟨none, s.text⟩

/-- The style of a span is made of numbers, and its text has no escape character. -/
structure Span.IsProper (s : Span) : Prop where
  style : ∀ codes, s.style = some codes → codes.all isParameter = true
  text : IsPlain s.text

theorem undresses_spansFrom {spans : List Span} (h : ∀ s ∈ spans, s.IsProper) (column : Nat) :
    Undresses (spansFrom column spans) (spansFrom column (spans.map Span.bare)) := by
  induction spans generalizing column with
  | nil => exact undresses_of_isPlain List.not_mem_nil
  | cons s spans ih =>
    obtain ⟨hs, hspans⟩ := List.forall_mem_cons.1 h
    rw [List.map_cons, spansFrom, spansFrom]
    refine Undresses.append (undresses_intercalate (by decide) fun ps hps => ?_) (ih hspans _)
    refine undresses_flatMap fun p hp => undresses_dress hs.style fun hmem => ?_
    obtain hblank | hc := mem_of_mem_linePieces hps hp hmem
    · cases hblank
    · exact isPlain_clean hs.text hc

/-- Deleting the codes from what is printed with colour leaves what is printed without. -/
theorem undresses_printed {spans : List Span} (h : ∀ s ∈ spans, s.IsProper) :
    Undresses (printed true spans) (printed false spans) :=
  (undresses_spansFrom h 0).append (undresses_of_isPlain (by decide))

end FormatAudit.Console
