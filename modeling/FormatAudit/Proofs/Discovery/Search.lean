import FormatAudit.Discovery.Search
import FormatAudit.Proofs.Discovery.Extension
import FormatAudit.Proofs.Result
import FormatAudit.Proofs.Text.Order

/-! What a search finds, seen as a set: it is made of what the patterns find that its extensions
stand for, and fails where one of these fails. -/
namespace FormatAudit

namespace Search
variable {b : Base} {l : Lookup} {es fs exts : List Text}

/-- A search fails as one of the patterns does that its extensions stand for, or returns the files
of all of them. -/
theorem discover_cases (h : Extension.normalize? es = some exts) :
    (∃ p ∈ Braces.expand (Extension.pattern exts), ∃ e,
      filesMatchingOne b l p = .error e ∧ discover b es l = .error e) ∨
    (∀ p ∈ Braces.expand (Extension.pattern exts), ∃ found, filesMatchingOne b l p = .ok found) ∧
      ∃ files, discover b es l = .ok files ∧ files.Pairwise Text.Before ∧
        ∀ file, file ∈ files ↔ ∃ p ∈ Braces.expand (Extension.pattern exts), ∃ found,
          filesMatchingOne b l p = .ok found ∧ ∃ names ∈ found, file = Path.partsText names := by
  have hdiscover : discover b es l = (filesMatching b l (Extension.pattern exts)).map fun files =>
      Text.sortedSet (files.map Path.partsText) := by
    rw [discover, patternFor, h]
    rfl
  rw [hdiscover, filesMatching]
  obtain ⟨p, hp, e, he, hpatterns⟩ | ⟨hall, found, hpatterns, hmem⟩ :=
    mapM_cases (filesMatchingOne b l) (Braces.expand (Extension.pattern exts))
  · exact .inl ⟨p, hp, e, he, by rw [hpatterns]; rfl⟩
  · refine .inr ⟨hall, _, by rw [hpatterns]; rfl, Text.sortedSet_pairwise _, fun file => ?_⟩
    rw [Text.mem_sortedSet, List.mem_map]
    simp only [hmem]
    grind

theorem exists_normalize? {files : List Text} (h : discover b es l = .ok files) :
    ∃ exts, Extension.normalize? es = some exts := by
  cases hexts : Extension.normalize? es with
  | none =>
    rw [discover, patternFor, hexts] at h
    cases h
  | some exts => exact ⟨exts, rfl⟩

/-- A search that returns finds the files of all patterns that its extensions stand for. -/
theorem mem_discover {files : List Text} (hexts : Extension.normalize? es = some exts)
    (h : discover b es l = .ok files) :
    (∀ p ∈ Braces.expand (Extension.pattern exts), ∃ found, filesMatchingOne b l p = .ok found) ∧
      ∀ file, file ∈ files ↔ ∃ p ∈ Braces.expand (Extension.pattern exts), ∃ found,
        filesMatchingOne b l p = .ok found ∧ ∃ names ∈ found, file = Path.partsText names := by
  obtain ⟨_, _, _, _, herror⟩ | ⟨hall, _, hfiles, _, hmem⟩ :=
    discover_cases (b := b) (l := l) hexts
  · simp [h] at herror
  · obtain rfl := Except.ok.inj (h.symm.trans hfiles)
    exact ⟨hall, hmem⟩

theorem isClosed_of_mem_normalize? (hexts : Extension.normalize? es = some exts)
    (h : ∀ e ∈ es, Braces.isClosed 0 (Extension.clean e)) : ∀ e ∈ exts, Braces.isClosed 0 e := by
  intro e he
  obtain ⟨-, t, ht, rfl⟩ := (Extension.mem_of_normalize? hexts).1 he
  exact h t ht

/-- Two lists of extensions together find what the one finds and what the other finds, as long as no
extension has a comma outside braces or a brace without its partner. -/
theorem discover_append {xs ys : List Text} (hes : discover b es l = .ok xs)
    (hfs : discover b fs l = .ok ys)
    (hclosed : ∀ e ∈ es ++ fs, Braces.isClosed 0 (Extension.clean e)) :
    ∃ zs, discover b (es ++ fs) l = .ok zs ∧ ∀ file, file ∈ zs ↔ file ∈ xs ∨ file ∈ ys := by
  obtain ⟨u, hu⟩ := exists_normalize? hes
  obtain ⟨v, hv⟩ := exists_normalize? hfs
  obtain ⟨w, hw, hmem⟩ := Extension.normalize?_append hu hv
  obtain ⟨hesc, hfsc⟩ := List.forall_mem_append.1 hclosed
  -- The patterns of both lists together are those of the one and those of the other.
  have hpatterns : ∀ p, p ∈ Braces.expand (Extension.pattern w) ↔
      p ∈ Braces.expand (Extension.pattern u) ∨ p ∈ Braces.expand (Extension.pattern v) := by
    intro p
    rw [Extension.mem_expand_pattern hw (isClosed_of_mem_normalize? hw hclosed),
      Extension.mem_expand_pattern hu (isClosed_of_mem_normalize? hu hesc),
      Extension.mem_expand_pattern hv (isClosed_of_mem_normalize? hv hfsc)]
    simp only [hmem, or_and_right, exists_or]
  obtain ⟨hxall, hx⟩ := mem_discover hu hes
  obtain ⟨hyall, hy⟩ := mem_discover hv hfs
  obtain ⟨p, hp, e, he, -⟩ | ⟨-, zs, hzs, -, hz⟩ := discover_cases (b := b) (l := l) hw
  · obtain ⟨found, hfound⟩ := ((hpatterns p).1 hp).elim (hxall p) (hyall p)
    simp [hfound] at he
  · refine ⟨zs, hzs, fun file => ?_⟩
    rw [hz, hx, hy]
    simp only [hpatterns, or_and_right, exists_or]

def plainFile : FileTree :=
  .file [] true false

def Base.top (entries : List (Text × FileTree)) : Base :=
  ⟨.dir entries, [], Path.ofText ['/']⟩

theorem discover_append_two_extensions :
    ∃ zs, discover (.top [("a.c".toList, plainFile), ("b.mm".toList, plainFile)])
        ([" .c".toList] ++ ["\x7bmm,cc\x7d".toList]) = .ok zs ∧
      ∀ file, file ∈ zs ↔ file ∈ ["a.c".toList] ∨ file ∈ ["b.mm".toList] :=
  discover_append (by decide +kernel) (by decide +kernel) (by decide +kernel)

/-- An extension with a comma is taken as it stands when it is alone, and as two extensions next to
another one. -/
theorem discover_append_comma :
    let b := Base.top [("a.c".toList, plainFile), ("b.mm".toList, plainFile),
      ("x.c,h".toList, plainFile)]
    discover b ["c,h".toList] = .ok ["x.c,h".toList] ∧
      discover b ["mm".toList] = .ok ["b.mm".toList] ∧
      discover b (["c,h".toList] ++ ["mm".toList]) = .ok ["a.c".toList, "b.mm".toList] := by
  decide +kernel

end Search

end FormatAudit
