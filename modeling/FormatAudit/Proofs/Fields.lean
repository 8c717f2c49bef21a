import FormatAudit.Value
import Mathlib.Data.List.Nodup

/-! Lists of pairs as mappings: what stands for a key in a list in which no key comes twice, and in
tables after insertions and when two are merged, where the later value counts and a key keeps its
place. -/
namespace FormatAudit

section Keyed

variable {α : Type} {l : List (Text × α)} {k : Text} {a : α}

theorem mem_of_find?_map (h : (l.find? fun e => e.1 = k).map (·.2) = some a) : (k, a) ∈ l := by
  obtain ⟨e, he, rfl⟩ := Option.map_eq_some_iff.1 h
  have hk : e.1 = k := by simpa using List.find?_some he
  exact hk ▸ List.mem_of_find?_eq_some he

theorem find?_map_eq_some (hkeys : (l.map (·.1)).Nodup) :
    (l.find? fun e => e.1 = k).map (·.2) = some a ↔ (k, a) ∈ l := by
  refine ⟨mem_of_find?_map, fun h => ?_⟩
  induction l with
  | nil => cases h
  | cons e l ih =>
    obtain ⟨j, b⟩ := e
    rw [List.map_cons, List.nodup_cons] at hkeys
    obtain heq | h := List.mem_cons.1 h
    · cases heq
      simp
    · have hne : j ≠ k := by
        rintro rfl
        exact hkeys.1 (List.mem_map.2 ⟨_, h, rfl⟩)
      simpa [hne] using ih hkeys.2 h

end Keyed

namespace Fields
variable {fs gs : Fields} {j k : Text} {v : Value}

theorem get?_cons : get? ((j, v) :: fs) k = if j = k then some v else fs.get? k := by
  by_cases h : j = k <;> simp [get?, h]

theorem get?_eq_none (h : k ∉ fs.map (·.1)) : fs.get? k = none := by
  rw [get?, Option.map_eq_none_iff, List.find?_eq_none]
  intro f hf heq
  exact h (List.mem_map.2 ⟨f, hf, by simpa using heq⟩)

theorem insert_of_not_mem (v : Value) (h : k ∉ fs.map (·.1)) :
    Fields.insert k v fs = fs ++ [(k, v)] := by
  induction fs with
  | nil => rfl
  | cons f fs ih =>
    rw [List.map_cons, List.mem_cons, not_or] at h
    rw [Fields.insert, if_neg (Ne.symm h.1), ih h.2, List.cons_append]

theorem keys_insert_of_mem (v : Value) (h : k ∈ fs.map (·.1)) :
    (Fields.insert k v fs).map (·.1) = fs.map (·.1) := by
  induction fs with
  | nil => cases h
  | cons f fs ih =>
    rw [Fields.insert]
    split
    · rfl
    · next hne =>
      rw [List.map_cons, List.mem_cons] at h
      rw [List.map_cons, List.map_cons, ih (h.resolve_left fun heq => hne heq.symm)]

theorem get?_insert (fs : Fields) :
    (Fields.insert j v fs).get? k = if j = k then some v else fs.get? k := by
  induction fs with
  | nil => rw [Fields.insert, get?_cons]
  | cons f fs ih =>
    obtain ⟨i, w⟩ := f
    rw [Fields.insert]
    by_cases hij : i = j
    · subst hij
      rw [if_pos rfl, get?_cons, get?_cons]
      split <;> rfl
    · rw [if_neg hij, get?_cons, get?_cons, ih]
      by_cases hik : i = k
      · subst hik
        rw [if_pos rfl, if_pos rfl, if_neg (Ne.symm hij)]
      · rw [if_neg hik, if_neg hik]

/-- Two tables in one. Where both have a key, the second one's value counts. -/
def merge (fs gs : Fields) : Fields :=
  gs.foldl (fun fs f => Fields.insert f.1 f.2 fs) fs

theorem get?_merge (hgs : (gs.map (·.1)).Nodup) :
    (fs.merge gs).get? k = (gs.get? k).or (fs.get? k) := by
  induction gs generalizing fs with
  | nil => rfl
  | cons g gs ih =>
    obtain ⟨j, v⟩ := g
    rw [List.map_cons, List.nodup_cons] at hgs
    have hmerge : fs.merge ((j, v) :: gs) = (Fields.insert j v fs).merge gs := rfl
    rw [hmerge, ih hgs.2, get?_insert, get?_cons]
    by_cases hjk : j = k
    · subst hjk
      rw [if_pos rfl, if_pos rfl, get?_eq_none hgs.1]
      rfl
    · rw [if_neg hjk, if_neg hjk]

theorem keys_merge (hgs : (gs.map (·.1)).Nodup) :
    (fs.merge gs).map (·.1) =
      fs.map (·.1) ++ (gs.map (·.1)).filter fun k => k ∉ fs.map (·.1) := by
  induction gs generalizing fs with
  | nil => exact (List.append_nil _).symm
  | cons g gs ih =>
    obtain ⟨j, v⟩ := g
    rw [List.map_cons, List.nodup_cons] at hgs
    have hmerge : fs.merge ((j, v) :: gs) = (Fields.insert j v fs).merge gs := rfl
    rw [hmerge, ih hgs.2, List.map_cons]
    by_cases hj : j ∈ fs.map (·.1)
    · rw [keys_insert_of_mem v hj, List.filter_cons_of_neg (by simpa using hj)]
    · have hrest : ∀ k ∈ gs.map (·.1), (k ∉ fs.map (·.1) ++ [j]) ↔ k ∉ fs.map (·.1) := by
        intro k hk
        have hne : k ≠ j := fun heq => hgs.1 (heq ▸ hk)
        rw [List.mem_append, List.mem_singleton, or_iff_left hne]
      rw [insert_of_not_mem v hj, List.map_append, List.map_cons, List.map_nil, List.append_assoc,
        List.filter_congr fun k hk => decide_eq_decide.2 (hrest k hk),
        List.filter_cons_of_pos (by simpa using hj)]
      rfl

theorem nodup_keys_merge (hfs : (fs.map (·.1)).Nodup) (hgs : (gs.map (·.1)).Nodup) :
    ((fs.merge gs).map (·.1)).Nodup := by
  rw [keys_merge hgs]
  refine hfs.append (hgs.filter _) fun k hk hmem => ?_
  rw [List.mem_filter, decide_eq_true_iff] at hmem
  exact hmem.2 hk

end Fields

end FormatAudit
