import FormatAudit.Discovery.Braces
import FormatAudit.Proofs.Text.Pieces
import Mathlib.Logic.Basic

/-! Texts whose braces pair up, as trees of groups and alternatives. Such a text stands for what is
left when one alternative is chosen in each group, whatever stands around it. -/
namespace FormatAudit.Braces
variable {t p pre body post : Text}

def isPlain (c : Char) : Bool :=
  !isBrace c && c != ','

theorem isPlain_of_ne {c : Char} (hopen : c ≠ '\x7b') (hclose : c ≠ '\x7d') (hcomma : c ≠ ',') :
    isPlain c := by
  simp [isPlain, isBrace, hopen, hclose, hcomma]

theorem isBrace_eq_false {c : Char} (h : isPlain c) : isBrace c = false := by
  simp only [isPlain, Bool.and_eq_true, Bool.not_eq_true'] at h
  exact h.1

mutual

/-- A text that has commas in groups only. -/
inductive Word where
  | done
  | char (c : Char) (plain : isPlain c) (rest : Word)
  | group (alternatives : Alternatives) (rest : Word)

inductive Alternatives where
  | last (w : Word)
  | more (w : Word) (rest : Alternatives)

end

mutual

def Word.render : Word → Text
  | .done => []
  | .char c _ rest => c :: rest.render
  | .group a rest => '\x7b' :: a.render ++ '\x7d' :: rest.render

def Alternatives.render : Alternatives → Text
  | .last w => w.render
  | .more w rest => w.render ++ ',' :: rest.render

end

mutual

def Word.choices : Word → List Text
  | .done => [[]]
  | .char c _ rest => rest.choices.map (c :: ·)
  | .group a rest => a.choices.flatMap fun v => rest.choices.map (v ++ ·)

def Alternatives.choices : Alternatives → List Text
  | .last w => w.choices
  | .more w rest => w.choices ++ rest.choices

end

def Alternatives.lists : Alternatives → List (List Text)
  | .last w => w.choices.map ([·])
  | .more w rest => w.choices.flatMap fun v => rest.lists.map (v :: ·)

mutual

theorem Word.isPlain_of_mem_choices :
    ∀ (w : Word) {v : Text}, v ∈ w.choices → ∀ c ∈ v, isPlain c
  | .done, v, h => by
    simp only [Word.choices, List.mem_singleton] at h
    simp [h]
  | .char d plain rest, v, h => by
    simp only [Word.choices, List.mem_map] at h
    obtain ⟨u, hu, rfl⟩ := h
    exact List.forall_mem_cons.2 ⟨plain, rest.isPlain_of_mem_choices hu⟩
  | .group a rest, v, h => by
    simp only [Word.choices, List.mem_flatMap, List.mem_map] at h
    obtain ⟨x, hx, y, hy, rfl⟩ := h
    exact List.forall_mem_append.2 ⟨a.isPlain_of_mem_choices hx, rest.isPlain_of_mem_choices hy⟩

theorem Alternatives.isPlain_of_mem_choices :
    ∀ (a : Alternatives) {v : Text}, v ∈ a.choices → ∀ c ∈ v, isPlain c
  | .last w, _, h => w.isPlain_of_mem_choices h
  | .more w rest, _, h => (List.mem_append.1 h).elim w.isPlain_of_mem_choices
      rest.isPlain_of_mem_choices

end

mutual

theorem Word.choices_ne_nil : ∀ w : Word, w.choices ≠ []
  | .done => List.cons_ne_nil _ _
  | .char c _ rest => by simpa [Word.choices] using rest.choices_ne_nil
  | .group a rest => by
    obtain ⟨v, hv⟩ := List.exists_mem_of_ne_nil _ a.choices_ne_nil
    obtain ⟨u, hu⟩ := List.exists_mem_of_ne_nil _ rest.choices_ne_nil
    refine List.ne_nil_of_mem (a := v ++ u) ?_
    simp only [Word.choices, List.mem_flatMap, List.mem_map]
    exact ⟨v, hv, u, hu, rfl⟩

theorem Alternatives.choices_ne_nil : ∀ a : Alternatives, a.choices ≠ []
  | .last w => w.choices_ne_nil
  | .more w _ => List.append_ne_nil_of_left_ne_nil w.choices_ne_nil _

end

theorem Alternatives.lists_ne_nil (a : Alternatives) : a.lists ≠ [] := by
  match a with
  | .last w => simpa [Alternatives.lists] using w.choices_ne_nil
  | .more w rest =>
    obtain ⟨v, hv⟩ := List.exists_mem_of_ne_nil _ w.choices_ne_nil
    obtain ⟨vs, hvs⟩ := List.exists_mem_of_ne_nil _ rest.lists_ne_nil
    refine List.ne_nil_of_mem (a := v :: vs) ?_
    simp only [Alternatives.lists, List.mem_flatMap, List.mem_map]
    exact ⟨v, hv, vs, hvs, rfl⟩

theorem Alternatives.ne_nil_of_mem_lists {a : Alternatives} {vs : List Text} (h : vs ∈ a.lists) :
    vs ≠ [] := by
  match a with
  | .last w =>
    obtain ⟨v, -, rfl⟩ := List.mem_map.1 h
    exact List.cons_ne_nil _ _
  | .more w rest =>
    simp only [Alternatives.lists, List.mem_flatMap, List.mem_map] at h
    obtain ⟨v, -, us, -, rfl⟩ := h
    exact List.cons_ne_nil _ _

theorem Alternatives.exists_mem_lists (a : Alternatives) {v : Text} :
    (∃ vs ∈ a.lists, v ∈ vs) ↔ v ∈ a.choices := by
  match a with
  | .last w => simp [Alternatives.lists, Alternatives.choices]
  | .more w rest =>
    have ih := rest.exists_mem_lists (v := v)
    rw [Alternatives.choices, List.mem_append, ← ih]
    simp only [Alternatives.lists, List.mem_flatMap, List.mem_map]
    constructor
    · rintro ⟨_, ⟨u, hu, us, hus, rfl⟩, hv⟩
      obtain rfl | hv := List.mem_cons.1 hv
      · exact .inl hu
      · exact .inr ⟨us, hus, hv⟩
    · rintro (hv | ⟨us, hus, hv⟩)
      · obtain ⟨us, hus⟩ := List.exists_mem_of_ne_nil _ rest.lists_ne_nil
        exact ⟨v :: us, ⟨v, hv, us, hus, rfl⟩, List.mem_cons_self⟩
      · obtain ⟨u, hu⟩ := List.exists_mem_of_ne_nil _ w.choices_ne_nil
        exact ⟨u :: us, ⟨u, hu, us, hus, rfl⟩, List.mem_cons_of_mem u hv⟩

theorem closing_not_mem_of_isPlain (h : ∀ c ∈ t, isPlain c) : '\x7d' ∉ t :=
  fun hc => absurd (h _ hc) (by decide)

theorem comma_not_mem_of_isPlain (h : ∀ c ∈ t, isPlain c) : ',' ∉ t :=
  fun hc => absurd (h _ hc) (by decide)

theorem dropWhile_append_closing (post : Text) (h : ∀ c ∈ body, isBrace c = false) :
    (body ++ '\x7d' :: post).dropWhile (!isBrace ·) = '\x7d' :: post ∧
      (body ++ '\x7d' :: post).takeWhile (!isBrace ·) = body := by
  have hplain : ∀ c ∈ body, (!isBrace c) = true := fun c hc => by simp [h c hc]
  have hclosing : isBrace '\x7d' = true := rfl
  rw [List.dropWhile_append_of_pos hplain, List.takeWhile_append_of_pos hplain]
  simp [hclosing]

theorem head?_dropWhile_append_opening (h : '\x7d' ∉ pre) (x : Text) :
    ((pre ++ '\x7b' :: x).dropWhile (!isBrace ·)).head? = some '\x7b' := by
  induction pre with
  | nil => rfl
  | cons c pre ih =>
    rw [List.mem_cons, not_or] at h
    by_cases hc : c = '\x7b'
    · subst hc
      rfl
    · have hplain : isBrace c = false := by simp [isBrace, hc, Ne.symm h.1]
      simpa [hplain] using ih h.2

theorem split?_group (hpre : '\x7d' ∉ pre) (hbody : ∀ c ∈ body, isBrace c = false) :
    split? (pre ++ '\x7b' :: (body ++ '\x7d' :: post)) = some ⟨pre, body, post⟩ := by
  induction pre with
  | nil =>
    obtain ⟨hdrop, htake⟩ := dropWhile_append_closing post hbody
    simp [split?, hdrop, htake]
  | cons c pre ih =>
    rw [List.mem_cons, not_or] at hpre
    have hhead := head?_dropWhile_append_opening hpre.2 (body ++ '\x7d' :: post)
    rw [List.cons_append, split?, ih hpre.2]
    by_cases hc : c = '\x7b'
    · -- The next brace opens a group too, so this one has a brace inside.
      rw [if_pos hc]
      split
      · next tail ht => simp [ht] at hhead
      · rfl
    · rw [if_neg hc]
      rfl

theorem split?_eq_none (h : '\x7d' ∉ t) : split? t = none := by
  induction t with
  | nil => rfl
  | cons c r ih =>
    rw [List.mem_cons, not_or] at h
    have hnot : ∀ tail, r.dropWhile (!isBrace ·) ≠ '\x7d' :: tail := fun tail ht =>
      h.2 ((List.dropWhile_sublist _).subset (ht ▸ List.mem_cons_self))
    rw [split?, ih h.2]
    split
    · split
      · next tail ht => exact absurd ht (hnot tail)
      · rfl
    · rfl

theorem expand_of_closing_not_mem (h : '\x7d' ∉ t) : expand t = [t] := by
  rw [expand]
  split
  · rfl
  · next s hs => simp [split?_eq_none h] at hs

theorem mem_expand_of_split? {s : Split} (h : split? t = some s) :
    p ∈ expand t ↔ ∃ o ∈ Text.pieces ',' s.body, p ∈ expand (s.head ++ o ++ s.tail) := by
  rw [expand]
  split
  · next hnone => simp [hnone] at h
  · next u hu =>
    obtain rfl : u = s := Option.some.inj (hu.symm.trans h)
    simp only [List.mem_eraseDups, List.mem_flatMap, List.mem_attach, true_and, Subtype.exists,
      exists_prop]

theorem mem_expand_group {vs : List Text} (hpre : '\x7d' ∉ pre) (hne : vs ≠ [])
    (hvs : ∀ v ∈ vs, ∀ c ∈ v, isPlain c) :
    p ∈ expand (pre ++ '\x7b' :: ([','].intercalate vs ++ '\x7d' :: post)) ↔
      ∃ v ∈ vs, p ∈ expand (pre ++ v ++ post) := by
  have hbody : ∀ c ∈ [','].intercalate vs, isBrace c = false := by
    intro c hc
    obtain rfl | ⟨v, hv, hc⟩ := Text.eq_sep_or_mem_of_mem_intercalate hc
    · rfl
    · exact isBrace_eq_false (hvs v hv c hc)
  rw [mem_expand_of_split? (split?_group hpre hbody)]
  simp only [Text.pieces_intercalate (fun v hv => comma_not_mem_of_isPlain (hvs v hv)) hne]

theorem closing_not_mem_append {x : Text} (hpre : '\x7d' ∉ pre) (hx : '\x7d' ∉ x) :
    '\x7d' ∉ pre ++ x :=
  fun h => (List.mem_append.1 h).elim hpre hx

mutual

/-- Whatever stands around a word, expanding it with its groups comes to the same as expanding it
with a choice in each of them. -/
theorem Word.mem_expand : ∀ (w : Word) {pre : Text} (post : Text), '\x7d' ∉ pre →
    (p ∈ expand (pre ++ w.render ++ post) ↔ ∃ v ∈ w.choices, p ∈ expand (pre ++ v ++ post))
  | .done, pre, post, _ => by simp [Word.render, Word.choices]
  | .char c plain rest, pre, post, hpre => by
    have hc : '\x7d' ∉ pre ++ [c] :=
      closing_not_mem_append hpre (closing_not_mem_of_isPlain (by simpa using plain))
    have ih := rest.mem_expand post hc
    simpa [Word.render, Word.choices] using ih
  | .group a rest, pre, post, hpre => by
    have hopen : '\x7d' ∉ pre ++ ['\x7b'] := closing_not_mem_append hpre (by decide)
    calc p ∈ expand (pre ++ (Word.group a rest).render ++ post)
        ↔ ∃ vs ∈ a.lists, p ∈ expand
            (pre ++ '\x7b' :: ([','].intercalate vs ++ '\x7d' :: (rest.render ++ post))) := by
          have ih := a.mem_expand ('\x7d' :: (rest.render ++ post)) hopen
          simpa [Word.render] using ih
      _ ↔ ∃ vs ∈ a.lists, ∃ v ∈ vs, p ∈ expand (pre ++ v ++ rest.render ++ post) := by
          refine exists_congr fun vs => and_congr_right fun hvs => ?_
          have hplain : ∀ v ∈ vs, ∀ c ∈ v, isPlain c := fun v hv =>
            a.isPlain_of_mem_choices (a.exists_mem_lists.1 ⟨vs, hvs, hv⟩)
          simp only [mem_expand_group hpre (a.ne_nil_of_mem_lists hvs) hplain, List.append_assoc]
      _ ↔ ∃ v ∈ a.choices, p ∈ expand (pre ++ v ++ rest.render ++ post) := by
          simp only [← a.exists_mem_lists]
          grind
      _ ↔ ∃ v ∈ a.choices, ∃ u ∈ rest.choices, p ∈ expand (pre ++ v ++ u ++ post) := by
          refine exists_congr fun v => and_congr_right fun hv => ?_
          have hplain := closing_not_mem_of_isPlain (a.isPlain_of_mem_choices hv)
          exact rest.mem_expand post (closing_not_mem_append hpre hplain)
      _ ↔ ∃ v ∈ (Word.group a rest).choices, p ∈ expand (pre ++ v ++ post) := by
          simp only [Word.choices, List.mem_flatMap, List.mem_map]
          constructor
          · rintro ⟨v, hv, u, hu, hp⟩
            exact ⟨v ++ u, ⟨v, hv, u, hu, rfl⟩, by simpa using hp⟩
          · rintro ⟨_, ⟨v, hv, u, hu, rfl⟩, hp⟩
            exact ⟨v, hv, u, hu, by simpa using hp⟩

theorem Alternatives.mem_expand : ∀ (a : Alternatives) {pre : Text} (post : Text), '\x7d' ∉ pre →
    (p ∈ expand (pre ++ a.render ++ post) ↔
      ∃ vs ∈ a.lists, p ∈ expand (pre ++ [','].intercalate vs ++ post))
  | .last w, pre, post, hpre => by
    have ih := w.mem_expand post hpre
    simpa [Alternatives.render, Alternatives.lists] using ih
  | .more w rest, pre, post, hpre => by
    calc p ∈ expand (pre ++ (Alternatives.more w rest).render ++ post)
        ↔ ∃ v ∈ w.choices, p ∈ expand (pre ++ v ++ ',' :: (rest.render ++ post)) := by
          have ih := w.mem_expand (',' :: (rest.render ++ post)) hpre
          simpa [Alternatives.render] using ih
      _ ↔ ∃ v ∈ w.choices, ∃ vs ∈ rest.lists,
            p ∈ expand (pre ++ v ++ ',' :: ([','].intercalate vs ++ post)) := by
          refine exists_congr fun v => and_congr_right fun hv => ?_
          have hplain := closing_not_mem_of_isPlain (w.isPlain_of_mem_choices hv)
          have hcomma : '\x7d' ∉ pre ++ (v ++ [',']) :=
            closing_not_mem_append hpre (closing_not_mem_append hplain (by decide))
          have ih := rest.mem_expand post hcomma
          simpa using ih
      _ ↔ ∃ vs ∈ (Alternatives.more w rest).lists,
            p ∈ expand (pre ++ [','].intercalate vs ++ post) := by
          simp only [Alternatives.lists, List.mem_flatMap, List.mem_map]
          constructor
          · rintro ⟨v, hv, vs, hvs, hp⟩
            refine ⟨v :: vs, ⟨v, hv, vs, hvs, rfl⟩, ?_⟩
            rw [List.intercalate_cons_of_ne_nil (rest.ne_nil_of_mem_lists hvs)]
            simpa using hp
          · rintro ⟨_, ⟨v, hv, vs, hvs, rfl⟩, hp⟩
            rw [List.intercalate_cons_of_ne_nil (rest.ne_nil_of_mem_lists hvs)] at hp
            exact ⟨v, hv, vs, hvs, by simpa using hp⟩

end

theorem Word.mem_expand_render (w : Word) (hpre : '\x7d' ∉ pre) :
    p ∈ expand (pre ++ w.render) ↔ ∃ v ∈ w.choices, p = pre ++ v := by
  have h := w.mem_expand (p := p) [] hpre
  rw [List.append_nil] at h
  refine h.trans (exists_congr fun v => and_congr_right fun hv => ?_)
  have hplain := closing_not_mem_of_isPlain (w.isPlain_of_mem_choices hv)
  rw [List.append_nil, expand_of_closing_not_mem (closing_not_mem_append hpre hplain),
    List.mem_singleton]

theorem Word.mem_choices (w : Word) : p ∈ w.choices ↔ p ∈ expand w.render := by
  simpa using (w.mem_expand_render (p := p) List.not_mem_nil).symm

/-- Whether the braces of a text pair up, with `depth` of them open at its start, and every comma
is in a group. -/
def isClosed : Nat → Text → Bool
  | depth, [] => depth = 0
  | depth, c :: r =>
    if c = '\x7b' then isClosed (depth + 1) r
    else if c = '\x7d' then 0 < depth && isClosed (depth - 1) r
    else if c = ',' then 0 < depth && isClosed depth r
    else isClosed depth r

theorem Alternatives.exists_render_append (a : Alternatives) {x : Text}
    (h : ∀ w : Word, ∃ w' : Word, w'.render = x ++ w.render) :
    ∃ a' : Alternatives, a'.render = x ++ a.render := by
  match a with
  | .last w =>
    obtain ⟨w', hw⟩ := h w
    exact ⟨.last w', hw⟩
  | .more w rest =>
    obtain ⟨w', hw⟩ := h w
    exact ⟨.more w' rest, by simp [Alternatives.render, hw]⟩

/-- With a group open, a closed text goes on with alternatives and the brace that closes them. -/
theorem exists_alternatives {t : Text} {depth : Nat} (h : isClosed (depth + 1) t) :
    ∃ (a : Alternatives) (rest : Text),
      t = a.render ++ '\x7d' :: rest ∧ isClosed depth rest := by
  match t with
  | [] => simp [isClosed] at h
  | c :: r =>
    rw [isClosed] at h
    split at h
    · next hc =>
      subst hc
      obtain ⟨inner, after, rfl, hafter⟩ := exists_alternatives h
      obtain ⟨a, rest, hrest, hclosed⟩ := exists_alternatives hafter
      obtain ⟨a', ha⟩ := a.exists_render_append (x := '\x7b' :: inner.render ++ ['\x7d'])
        fun w => ⟨.group inner w, by simp [Word.render]⟩
      exact ⟨a', rest, by simp [ha, hrest], hclosed⟩
    · split at h
      · next hc =>
        subst hc
        exact ⟨.last .done, r, rfl, by simpa using h⟩
      · split at h
        · next hc =>
          subst hc
          obtain ⟨a, rest, rfl, hclosed⟩ := exists_alternatives (by simpa using h)
          exact ⟨.more .done a, rest, rfl, hclosed⟩
        · next hopen hclose hcomma =>
          obtain ⟨a, rest, rfl, hclosed⟩ := exists_alternatives h
          have plain := isPlain_of_ne hopen hclose hcomma
          obtain ⟨a', ha⟩ := a.exists_render_append (x := [c]) fun w => ⟨.char c plain w, rfl⟩
          exact ⟨a', rest, by simp [ha], hclosed⟩
termination_by t.length

theorem exists_word {t : Text} (h : isClosed 0 t) : ∃ w : Word, w.render = t := by
  match t with
  | [] => exact ⟨.done, rfl⟩
  | c :: r =>
    rw [isClosed] at h
    split at h
    · next hc =>
      subst hc
      obtain ⟨a, rest, rfl, hclosed⟩ := exists_alternatives h
      obtain ⟨w, rfl⟩ := exists_word hclosed
      exact ⟨.group a w, rfl⟩
    · split at h
      · simp at h
      · split at h
        · simp at h
        · next hopen hclose hcomma =>
          have plain := isPlain_of_ne hopen hclose hcomma
          obtain ⟨w, rfl⟩ := exists_word h
          exact ⟨.char c plain w, rfl⟩
termination_by t.length

theorem isClosed_of_isPlain (h : ∀ c ∈ t, isPlain c) : isClosed 0 t := by
  induction t with
  | nil => rfl
  | cons c r ih =>
    obtain ⟨hc, hr⟩ := List.forall_mem_cons.1 h
    simp only [isPlain, isBrace, Bool.and_eq_true, Bool.not_eq_true', Bool.or_eq_false_iff,
      decide_eq_false_iff_not, bne_iff_ne] at hc
    obtain ⟨⟨hopen, hclose⟩, hcomma⟩ := hc
    simpa only [isClosed, hopen, hclose, hcomma, if_false] using ih hr

/-- Plain text in front of a closed text comes in front of all that it expands to. -/
theorem mem_expand_append (hpre : '\x7d' ∉ pre) (h : isClosed 0 t) :
    p ∈ expand (pre ++ t) ↔ ∃ v ∈ expand t, p = pre ++ v := by
  obtain ⟨w, rfl⟩ := exists_word h
  simp only [w.mem_expand_render hpre, w.mem_choices]

theorem exists_alternatives_intercalate {ts : List Text} (hne : ts ≠ [])
    (h : ∀ t ∈ ts, isClosed 0 t) :
    ∃ a : Alternatives, a.render = [','].intercalate ts ∧
      ∀ v, v ∈ a.choices ↔ ∃ t ∈ ts, v ∈ expand t := by
  induction ts with
  | nil => exact absurd rfl hne
  | cons t ts ih =>
    obtain ⟨ht, hts⟩ := List.forall_mem_cons.1 h
    obtain ⟨w, rfl⟩ := exists_word ht
    by_cases hnil : ts = []
    · subst hnil
      refine ⟨.last w, by simp [Alternatives.render], fun v => ?_⟩
      simp [Alternatives.choices, w.mem_choices]
    · obtain ⟨a, ha, hmem⟩ := ih hnil hts
      refine ⟨.more w a, ?_, fun v => ?_⟩
      · rw [Alternatives.render, ha, List.intercalate_cons_of_ne_nil hnil]
        simp
      · simp [Alternatives.choices, w.mem_choices, hmem]

/-- Closed texts as the alternatives of one group expand to what each of them expands to. -/
theorem mem_expand_intercalate {ts : List Text} (hpre : '\x7d' ∉ pre) (hne : ts ≠ [])
    (h : ∀ t ∈ ts, isClosed 0 t) :
    p ∈ expand (pre ++ '\x7b' :: [','].intercalate ts ++ ['\x7d']) ↔
      ∃ t ∈ ts, p ∈ expand (pre ++ t) := by
  obtain ⟨a, ha, hmem⟩ := exists_alternatives_intercalate hne h
  calc p ∈ expand (pre ++ '\x7b' :: [','].intercalate ts ++ ['\x7d'])
      ↔ p ∈ expand (pre ++ (Word.group a .done).render) := by simp [Word.render, ha]
    _ ↔ ∃ v, (∃ t ∈ ts, v ∈ expand t) ∧ p = pre ++ v := by
        simp [(Word.group a .done).mem_expand_render hpre, Word.choices, ← hmem]
    _ ↔ ∃ t ∈ ts, ∃ v ∈ expand t, p = pre ++ v := by grind
    _ ↔ ∃ t ∈ ts, p ∈ expand (pre ++ t) :=
        exists_congr fun t => and_congr_right fun ht => (mem_expand_append hpre (h t ht)).symm

end FormatAudit.Braces
