import FormatAudit.Proofs.Discovery.Exact
import FormatAudit.Proofs.FileTree.Walk

/-! How a search fails whatever there is in the tree, and why the files that it returns have paths
that a system takes. -/
namespace FormatAudit

namespace Path

theorem mem_text {p : Path} {c : Char} (hslash : c ≠ '/') (hpoint : c ≠ '.') :
    c ∈ p.text ↔ ∃ part ∈ p.parts, c ∈ part := by
  rw [text]
  split
  · next hempty => simp [hempty.2, hpoint]
  · rw [List.mem_append, partsText]
    constructor
    · rintro (hc | hc)
      · exact absurd (List.eq_of_mem_replicate hc) hslash
      · exact (Text.eq_sep_or_mem_of_mem_intercalate hc).resolve_left hslash
    · rintro ⟨part, hpart, hc⟩
      exact .inr (Text.mem_intercalate_of_mem hpart hc)

theorem mem_of_mem_ofText {t part : Text} {c : Char} (hpart : part ∈ (ofText t).parts)
    (hc : c ∈ part) : c ∈ t :=
  Text.mem_of_mem_pieces (List.mem_filter.1 hpart).1 hc

/-- A character of a path that goes on stands in one of the paths that it is made of. -/
theorem mem_text_join {p : Path} {t : Text} {c : Char} (hslash : c ≠ '/') (hpoint : c ≠ '.')
    (hc : c ∈ (join p (ofText t)).text) : c ∈ p.text ∨ c ∈ t := by
  obtain ⟨part, hpart, hc⟩ := (mem_text hslash hpoint).1 hc
  rw [join] at hpart
  split at hpart
  · exact .inr (mem_of_mem_ofText hpart hc)
  · obtain hpart | hpart := List.mem_append.1 hpart
    · exact .inl ((mem_text hslash hpoint).2 ⟨part, hpart, hc⟩)
    · exact .inr (mem_of_mem_ofText hpart hc)

end Path

namespace Extension
variable {e : Text}

def isLetters (e : Text) : Bool :=
  e ≠ [] && e.all Char.isAlpha

theorem of_isLetters (h : isLetters e) : e ≠ [] ∧ ∀ c ∈ e, c.isAlpha := by
  simpa [isLetters] using h

theorem isPlain_of_isLetters (h : isLetters e) : isPlain e := by
  refine List.all_eq_true.2 fun c hc => ?_
  have hne : ∀ d : Char, d.isAlpha = false → c ≠ d := by
    rintro d hd rfl
    exact Bool.false_ne_true (hd.symm.trans ((of_isLetters h).2 c hc))
  have hbraces := Braces.isPlain_of_ne (hne '\x7b' rfl) (hne '\x7d' rfl) (hne ',' rfl)
  have hliteral : Glob.isLiteral c := by
    simp [Glob.isLiteral, hne '*' rfl, hne '?' rfl, hne '[' rfl]
  simp [hbraces, hliteral, hne '/' rfl]

theorem clean_of_isLetters (h : isLetters e) : clean e = e := by
  have hnone : ∀ p : Char → Bool, (∀ c : Char, c.isAlpha → p c = false) → ∀ c ∈ e, p c = false :=
    fun p hp c hc => hp c ((of_isLetters h).2 c hc)
  have hblank : ∀ c : Char, c.isAlpha → isBlank c = false := by
    intro c hc
    have hrange : 65 ≤ c.toNat ∧ c.toNat ≤ 90 ∨ 97 ≤ c.toNat ∧ c.toNat ≤ 122 := by
      change (decide ('A'.val ≤ c.val ∧ c.val ≤ 'Z'.val) ||
        decide ('a'.val ≤ c.val) && decide (c.val ≤ 'z'.val)) = true at hc
      simp only [Bool.or_eq_true, Bool.and_eq_true, decide_eq_true_eq,
        UInt32.le_iff_toNat_le] at hc
      exact hc
    simp [isBlank, isWhiteSpace]
    omega
  have hpoint : ∀ c : Char, c.isAlpha → isPoint c = false := by
    rintro c hc
    refine decide_eq_false ?_
    rintro rfl
    cases hc
  exact clean_eq_self (Text.begins_eq_false (hnone _ hpoint)) (Text.begins_eq_false (hnone _ hblank))
    (Text.ends_eq_false (hnone _ hblank))

theorem normalize?_of_isLetters {es : List Text} (hne : es ≠ []) (h : ∀ e ∈ es, isLetters e) :
    ∃ exts, normalize? es = some exts ∧ ∀ e ∈ exts, isLetters e := by
  obtain ⟨e, he⟩ := List.exists_mem_of_ne_nil es hne
  have hmem : e ∈ es.foldl add [] :=
    mem_foldl_add.2 (.inr ⟨(of_isLetters (h e he)).1, e, he, clean_of_isLetters (h e he)⟩)
  have hexts := normalize?_eq_some.2 ⟨List.ne_nil_of_mem hmem, rfl⟩
  refine ⟨_, hexts, fun x hx => ?_⟩
  obtain ⟨-, t, ht, rfl⟩ := (mem_of_normalize? hexts).1 hx
  rw [clean_of_isLetters (h t ht)]
  exact h t ht

end Extension

namespace Search
variable {b : Base} {l : Lookup} {es exts : List Text} {e : Text} {fault : Fault}

/-! ### Files that are found -/

theorem isRegular_of_filesMatchingOne {p : Text} {found : List (List Text)}
    (h : filesMatchingOne b l p = .ok found) : ∀ names ∈ found, b.IsRegular names := by
  rw [filesMatchingOne] at h
  split at h
  · cases h
  · next g _ =>
    cases hfiles : filesOf b l g with
    | error error => simp [hfiles, Except.mapError] at h
    | ok files =>
      rw [hfiles] at h
      cases h
      obtain ⟨isDir, -, hfiles⟩ := exists_of_bind hfiles
      cases isDir with
      | false =>
        cases hfiles
        simp
      | true =>
        obtain ⟨selected, -, hfilter⟩ := exists_of_bind hfiles
        obtain ⟨_, -, _, -, herror⟩ | ⟨-, files, hok, hmem⟩ :=
          filterM_cases b.isFile (selected.filter fun names => !isHidden names)
        · cases hfilter.symm.trans herror
        · cases hfilter.symm.trans hok
          exact fun names hnames => isFile_eq_true.1 ((hmem names).1 hnames).2

theorem isRegular_of_mem_discover {files : List Text} (h : discover b es l = .ok files) :
    ∀ file ∈ files, ∃ names, file = Path.partsText names ∧ b.IsRegular names := by
  obtain ⟨exts, hexts⟩ := exists_normalize? h
  intro file hfile
  obtain ⟨p, -, found, hfound, names, hnames, rfl⟩ := ((mem_discover hexts h).2 file).1 hfile
  exact ⟨names, rfl, isRegular_of_filesMatchingOne hfound names hnames⟩

theorem null_not_mem_of_isRegular {names : List Text} (h : b.IsRegular names) :
    '\x00' ∉ b.path.text ∧ '\x00' ∉ Path.partsText names := by
  obtain ⟨_, _, _, hentry⟩ := h
  have htext := (FileTree.textFault?_eq_none.1 (FileTree.entry_eq_ok.1 hentry).1).1
  rw [Path.mem_text (by decide) (by decide)] at htext
  constructor
  · intro hc
    obtain ⟨part, hpart, hc⟩ := (Path.mem_text (by decide) (by decide)).1 hc
    exact htext ⟨part, List.mem_append_left names hpart, hc⟩
  · intro hc
    obtain hc | ⟨name, hname, hc⟩ := Text.eq_sep_or_mem_of_mem_intercalate hc
    · cases hc
    · exact htext ⟨name, List.mem_append_right _ hname, hc⟩

/-- Whatever becomes of the tree, a file that was found is not read in vain because of a null
character in its path. -/
theorem ne_nullCharacter_of_read {files : List Text} (h : discover b es l = .ok files) {file : Text}
    (hfile : file ∈ files) {t : FileTree} {error : FileError}
    (hread : t.read b.here (Path.join b.path (Path.ofText file)) = .error error) :
    error.fault ≠ .nullCharacter := by
  intro hnull
  obtain ⟨names, rfl, hregular⟩ := isRegular_of_mem_discover h file hfile
  obtain ⟨hroot, hnames⟩ := null_not_mem_of_isRegular hregular
  exact (Path.mem_text_join (by decide) (by decide)
    (FileTree.nullCharacter_of_read hread hnull)).elim hroot hnames

/-! ### Searches that fail -/

theorem isFile_of_isDir {names : List Text} {error : FileError}
    (h : b.isDir names = .error error) : b.isFile names = .error error := by
  rw [Base.isDir, FileTree.isDir] at h
  rw [Base.isFile, FileTree.isFile]
  cases hseek : b.tree.seek b.here (b.child names) with
  | ok found => simp [hseek, Except.map] at h
  | error e =>
    rw [hseek] at h
    cases h
    rfl

/-- The search with the pattern of a plain extension fails only where it cannot be told whether there
is a file. -/
theorem exists_isFile_of_filesMatchingOne (hne : e ≠ []) (hplain : Extension.isPlain e)
    (h : filesMatchingOne b l (Extension.anyFile ++ e) = .error fault) :
    ∃ names error, b.isFile names = .error error ∧ fault = .file error := by
  obtain ⟨-, hliteral, hslash⟩ := Extension.of_isPlain hplain
  rw [filesMatchingOne, Glob.ofText_anyFile hne hliteral hslash] at h
  dsimp only at h
  obtain ⟨selected, hselect, -⟩ := select_deep b l (Glob.endingTokens e)
  cases htop : b.isDir [] with
  | error error =>
    simp only [filesOf, htop, bind, Except.bind] at h
    cases h
    exact ⟨[], error, isFile_of_isDir htop, rfl⟩
  | ok isDir =>
    cases isDir with
    | false =>
      simp only [filesOf, htop, bind, Except.bind] at h
      cases h
    | true =>
      simp only [filesOf, htop, hselect, bind, Except.bind, if_true] at h
      obtain ⟨names, -, error, herror, hfilter⟩ | ⟨-, found, hfilter, -⟩ :=
        filterM_cases b.isFile (selected.filter fun names => !isHidden names)
      · rw [hfilter] at h
        cases h
        exact ⟨names, error, herror, rfl⟩
      · rw [hfilter] at h
        cases h

theorem exists_isFile_of_discover (hne : es ≠ []) (hletters : ∀ e ∈ es, Extension.isLetters e)
    (h : discover b es l = .error fault) :
    ∃ names error, b.isFile names = .error error ∧ fault = .file error := by
  obtain ⟨exts, hexts, hletters⟩ := Extension.normalize?_of_isLetters hne hletters
  have hplain : ∀ e ∈ exts, Extension.isPlain e :=
    fun e he => Extension.isPlain_of_isLetters (hletters e he)
  obtain ⟨p, hp, _, hfault, hdiscover⟩ | ⟨-, files, hdiscover, -⟩ :=
    discover_cases (b := b) (l := l) hexts
  · obtain rfl := Except.error.inj (hdiscover.symm.trans h)
    obtain ⟨e, he, rfl⟩ := (Extension.mem_expand_pattern_of_isPlain hexts hplain).1 hp
    exact exists_isFile_of_filesMatchingOne (Extension.of_isLetters (hletters e he)).1
      (hplain e he) hfault
  · cases hdiscover.symm.trans h

theorem discover_noExtension (h : Extension.normalize? es = none) :
    discover b es l = .error .noExtension := by
  rw [discover, patternFor, h]
  rfl

end Search

end FormatAudit
