import FormatAudit.Proofs.Discovery.Braces
import Mathlib.Data.List.Nodup

/-! What a pattern with groups in braces expands to: each choice of one alternative in each group,
and each result once. No result has a group left, whatever the text was. -/
namespace FormatAudit.Braces
variable {t pre body tail : Text}

/-- A pattern of characters and groups. Outside the groups a comma is a character as any other. -/
inductive Pattern where
  | done
  | char (c : Char) (notBrace : isBrace c = false) (rest : Pattern)
  | group (alternatives : Alternatives) (rest : Pattern)

namespace Pattern

def render : Pattern → Text
  | .done => []
  | .char c _ rest => c :: rest.render
  | .group a rest => '\x7b' :: a.render ++ '\x7d' :: rest.render

def choices : Pattern → List Text
  | .done => [[]]
  | .char c _ rest => rest.choices.map (c :: ·)
  | .group a rest => a.choices.flatMap fun v => rest.choices.map (v ++ ·)

theorem closing_ne {c : Char} (h : isBrace c = false) : '\x7d' ≠ c := by
  rintro rfl
  exact Bool.noConfusion h

/-- Behind a text without closing braces, a pattern expands to its choices. -/
theorem mem_expand_append : ∀ (p : Pattern) {pre : Text}, '\x7d' ∉ pre →
    (t ∈ expand (pre ++ p.render) ↔ ∃ v ∈ p.choices, t = pre ++ v)
  | .done, pre, hpre => by
    simp [render, choices, expand_of_closing_not_mem hpre]
  | .char c notBrace rest, pre, hpre => by
    have hc : '\x7d' ∉ pre ++ [c] :=
      closing_not_mem_append hpre (by simpa using closing_ne notBrace)
    have ih := rest.mem_expand_append hc
    simpa [render, choices] using ih
  | .group a rest, pre, hpre => by
    calc t ∈ expand (pre ++ (Pattern.group a rest).render)
        ↔ t ∈ expand (pre ++ (Word.group a .done).render ++ rest.render) := by
          simp [render, Word.render]
      _ ↔ ∃ v ∈ a.choices, t ∈ expand (pre ++ v ++ rest.render) := by
          rw [(Word.group a .done).mem_expand rest.render hpre]
          simp [Word.choices]
      _ ↔ ∃ v ∈ a.choices, ∃ u ∈ rest.choices, t = pre ++ v ++ u := by
          refine exists_congr fun v => and_congr_right fun hv => ?_
          have hplain := closing_not_mem_of_isPlain (a.isPlain_of_mem_choices hv)
          exact rest.mem_expand_append (closing_not_mem_append hpre hplain)
      _ ↔ ∃ v ∈ (Pattern.group a rest).choices, t = pre ++ v := by
          simp only [choices, List.mem_flatMap, List.mem_map]
          constructor
          · rintro ⟨v, hv, u, hu, rfl⟩
            exact ⟨v ++ u, ⟨v, hv, u, hu, rfl⟩, List.append_assoc pre v u⟩
          · rintro ⟨_, ⟨v, hv, u, hu, rfl⟩, rfl⟩
            exact ⟨v, hv, u, hu, (List.append_assoc pre v u).symm⟩

end Pattern

theorem eraseDups_nodup (ts : List Text) : ts.eraseDups.Nodup := by
  match ts with
  | [] => exact List.nodup_nil
  | t :: ts =>
    rw [List.eraseDups_cons, List.nodup_cons]
    have hlen : (ts.filter fun u => !u == t).length ≤ ts.length := List.length_filter_le _ ts
    exact ⟨by simp [List.mem_eraseDups], eraseDups_nodup _⟩
termination_by ts.length

theorem expand_nodup (t : Text) : (expand t).Nodup := by
  rw [expand]
  split
  · exact List.nodup_singleton t
  · exact eraseDups_nodup _

/-- The text has a group without inner braces. -/
def HasGroup (t : Text) : Prop :=
  ∃ head body tail, t = head ++ '\x7b' :: (body ++ '\x7d' :: tail) ∧ ∀ c ∈ body, isBrace c = false

theorem split?_ne_none (h : HasGroup t) : split? t ≠ none := by
  obtain ⟨head, body, tail, rfl, hbody⟩ := h
  induction head with
  | nil =>
    have hsplit : split? ('\x7b' :: (body ++ '\x7d' :: tail)) = some ⟨[], body, tail⟩ :=
      split?_group List.not_mem_nil hbody
    exact hsplit ▸ Option.some_ne_none _
  | cons c head ih =>
    rw [List.cons_append, split?]
    split
    · split
      · exact Option.some_ne_none _
      · simpa using ih
    · simpa using ih

theorem split?_eq_none_of_mem_expand {p : Text} (h : p ∈ expand t) : split? p = none := by
  induction t using expand.induct with
  | case1 t hnone =>
    rw [expand] at h
    split at h
    · exact List.mem_singleton.1 h ▸ hnone
    · next s hs => simp [hnone] at hs
  | case2 t s hsome ih =>
    obtain ⟨o, ho, hp⟩ := (mem_expand_of_split? hsome).1 h
    exact ih ⟨o, ho⟩ hp

/-- A pattern expands to its choices, each of them once, and nothing expands to a text that still
has a group. -/
theorem expand_eq_choices :
    (∀ p : Pattern, (expand p.render).Nodup ∧ ∀ t, t ∈ expand p.render ↔ t ∈ p.choices) ∧
      ∀ t, ∀ p ∈ expand t, ¬ HasGroup p := by
  refine ⟨fun p => ⟨expand_nodup _, fun t => ?_⟩, fun t p hp hgroup => ?_⟩
  · simpa using p.mem_expand_append (t := t) List.not_mem_nil
  · exact split?_ne_none hgroup (split?_eq_none_of_mem_expand hp)

end FormatAudit.Braces
