import FormatAudit.Proofs.Discovery.Glob
import FormatAudit.Proofs.Discovery.Search
import FormatAudit.Proofs.FileTree.Walk

/-! Searching a directory with plain extensions, against the tree below it: what is found are the
files that have such an extension, in directories that are reached without links and by names that
do not begin with a point. -/
namespace FormatAudit

/-- Whether every character of an extension stands for itself in a pattern. -/
def Extension.isPlain (e : Text) : Bool :=
  e.all fun c => Braces.isPlain c && Glob.isLiteral c && c != '/'

theorem Extension.of_isPlain {e : Text} (h : isPlain e) :
    (∀ c ∈ e, Braces.isPlain c) ∧ (∀ c ∈ e, Glob.isLiteral c) ∧ '/' ∉ e := by
  simp only [isPlain, List.all_eq_true, Bool.and_eq_true, bne_iff_ne] at h
  exact ⟨fun c hc => (h c hc).1.1, fun c hc => (h c hc).1.2, fun hc => (h _ hc).2 rfl⟩

theorem Extension.mem_expand_pattern_of_isPlain {ts exts : List Text} {p : Text}
    (hexts : normalize? ts = some exts) (hplain : ∀ e ∈ exts, isPlain e) :
    p ∈ Braces.expand (pattern exts) ↔ ∃ e ∈ exts, p = anyFile ++ e := by
  have hword : ∀ e ∈ exts, ∀ c ∈ e, Braces.isPlain c := fun e he => (of_isPlain (hplain e he)).1
  rw [mem_expand_pattern hexts fun e he => Braces.isClosed_of_isPlain (hword e he)]
  refine exists_congr fun e => and_congr_right fun he => ?_
  have hclosing : '\x7d' ∉ anyFile ++ e :=
    Braces.closing_not_mem_append (by decide) (Braces.closing_not_mem_of_isPlain (hword e he))
  rw [Braces.expand_of_closing_not_mem hclosing, List.mem_singleton]

namespace Search

/-- An entry below a directory that a search looks at. The names lead to it without links, none of
them begins with a point, and the last one ends in one of the extensions. -/
structure IsCandidate (root : FileTree) (exts : List Text) (names : List Text) : Prop where
  there : (root.at? names).isSome
  visible : isHidden names = false
  ending : ∃ stem, ∃ e ∈ exts, names.getLast? = some (stem ++ '.' :: e)

theorem isCandidate_iff {root : FileTree} {exts names : List Text} :
    IsCandidate root exts names ↔ ∃ e ∈ exts, IsCandidate root [e] names := by
  constructor
  · rintro ⟨hthere, hvisible, stem, e, he, hlast⟩
    exact ⟨e, he, hthere, hvisible, stem, e, List.mem_singleton_self e, hlast⟩
  · rintro ⟨e, he, hthere, hvisible, stem, e', he', hlast⟩
    obtain rfl := List.mem_singleton.1 he'
    exact ⟨hthere, hvisible, stem, e', he, hlast⟩

/-- Whether names lead to a file, a link at the end being followed. -/
def Base.IsRegular (b : Base) (names : List Text) : Prop :=
  ∃ content readable executable,
    b.tree.entry b.here (b.child names) = .ok (.file content readable executable)

variable {b : Base} {l : Lookup} {entries es : List (Text × FileTree)} {names dir : List Text} {n e : Text}

theorem isFile_eq_true : b.isFile names = .ok true ↔ b.IsRegular names := by
  rw [Base.isFile, FileTree.isFile, FileTree.seek, Base.IsRegular]
  cases b.tree.entry b.here (b.child names) with
  | error fault => cases hfault : fault.isAbsence <;> simp [hfault, Except.map]
  | ok u => cases u <;> simp [Except.map]

theorem nameTooLong_of_isFile {error : FileError} (h : b.isFile names = .error error) :
    error.fault = .nameTooLong := by
  rw [Base.isFile, FileTree.isFile] at h
  cases hseek : b.tree.seek b.here (b.child names) with
  | ok found => simp [hseek, Except.map] at h
  | error e =>
    rw [hseek] at h
    cases h
    exact FileTree.nameTooLong_of_seek hseek

section Below

variable (hroot : b.tree.entry b.here b.path = .ok (.dir entries))
include hroot

/-- Names of directories lead to the last of them from any path that leads to the directory that
they are in, unless one of them is too long. -/
theorem resolve_child (hdir : (FileTree.dir entries).at? dir = some (.dir es))
    (hvisible : isHidden dir = false) :
    (∀ more, b.tree.resolve b.here (b.child (dir ++ more)) = .error .nameTooLong) ∨
      ∃ l q, b.tree.at? q = some (.dir es) ∧
        ∀ more, b.tree.resolve b.here (b.child (dir ++ more)) =
          b.tree.resolveOver true l q more := by
  obtain ⟨-, p, hp, hat⟩ := FileTree.entry_eq_ok.1 hroot
  obtain ⟨l, hl⟩ := FileTree.resolveOver_append hp
  have hchild : ∀ more, b.tree.resolve b.here (b.child (dir ++ more)) =
      b.tree.resolveOver true l p (dir ++ more) := fun more => hl (dir ++ more)
  have hnames : ∀ n ∈ dir, n ≠ FileTree.up ∧ n ≠ FileTree.same := by
    intro n hn
    have hpoint : n.head? ≠ some '.' := by simpa using List.any_eq_false.1 hvisible n hn
    constructor <;> rintro rfl <;> exact hpoint rfl
  obtain hlong | hwalk := FileTree.walk_directories hat hdir hnames
  · refine .inl fun more => ?_
    rw [hchild, FileTree.resolveOver, hlong]
  · refine .inr ⟨l, p ++ dir, ?_, fun more => ?_⟩
    · rw [FileTree.at?_append, hat]
      exact hdir
    · rw [hchild, FileTree.resolveOver_congr (hwalk more)]

theorem entry_child (hdir : (FileTree.dir entries).at? dir = some (.dir es))
    (hvisible : isHidden dir = false) {u : FileTree}
    (h : b.tree.entry b.here (b.child dir) = .ok u) : u = .dir es := by
  obtain ⟨-, p, hp, hat⟩ := FileTree.entry_eq_ok.1 h
  rw [← List.append_nil dir] at hp
  obtain hlong | ⟨l, q, hq, hchild⟩ := resolve_child hroot hdir hvisible
  · rw [hlong] at hp
    cases hp
  · rw [hchild, FileTree.resolveOver_nil] at hp
    cases hp
    exact Option.some.inj (hat.symm.trans hq)

theorem entry_child_of_append (hdir : (FileTree.dir entries).at? dir = some (.dir es))
    (hvisible : isHidden dir = false) {u : FileTree}
    (h : b.tree.entry b.here (b.child (dir ++ [n])) = .ok u) :
    b.tree.entry b.here (b.child dir) = .ok (.dir es) := by
  obtain ⟨htext, p, hp, -⟩ := FileTree.entry_eq_ok.1 h
  obtain hlong | ⟨l, q, hq, hchild⟩ := resolve_child hroot hdir hvisible
  · rw [hlong] at hp
    cases hp
  · have hlonger : b.child (dir ++ [n]) =
        ⟨(b.child dir).slashes, (b.child dir).parts ++ [n]⟩ := by
      simp [Base.child]
    rw [hlonger] at htext
    have hshorter := FileTree.textFault?_of_append htext
    have hresolve := hchild []
    rw [List.append_nil, FileTree.resolveOver_nil] at hresolve
    exact FileTree.entry_eq_ok.2 ⟨hshorter, q, hresolve, hq⟩

theorem isSome_of_mem_names (hdir : (FileTree.dir entries).at? dir = some (.dir es))
    (hvisible : isHidden dir = false) (h : n ∈ b.names dir) :
    ((FileTree.dir entries).at? (dir ++ [n])).isSome := by
  rw [Base.names, FileTree.list] at h
  split at h
  · next es' hentry =>
    obtain rfl := FileTree.dir.inj (entry_child hroot hdir hvisible hentry)
    rw [FileTree.at?_append, hdir]
    have hlookup := FileTree.lookup_isSome.2 h
    simpa [FileTree.at?] using hlookup
  · simp at h

theorem mem_names (hvisible : isHidden dir = false)
    (hthere : ((FileTree.dir entries).at? (dir ++ [n])).isSome) {u : FileTree}
    (h : b.tree.entry b.here (b.child (dir ++ [n])) = .ok u) :
    (∃ es, (FileTree.dir entries).at? dir = some (.dir es)) ∧ n ∈ b.names dir := by
  rw [FileTree.at?_append] at hthere
  cases hdir : (FileTree.dir entries).at? dir with
  | none => simp [hdir] at hthere
  | some v =>
    cases v with
    | file | link => simp [hdir, FileTree.at?] at hthere
    | dir es =>
      refine ⟨⟨es, rfl⟩, ?_⟩
      rw [Base.names, FileTree.list, entry_child_of_append hroot hdir hvisible h]
      rw [hdir] at hthere
      exact FileTree.lookup_isSome.1 (by simpa [FileTree.at?] using hthere)

end Below

/-! ### What is selected -/

theorem select_name (b : Base) (l : Lookup) (tokens : List Glob.Token) (dir : List Text) :
    select b l false [.name tokens] dir =
      .ok (((b.names dir).filter (Glob.matchTokens tokens)).map fun n => dir ++ [n]) := by
  have hlast : ∀ n, select b l false [] (dir ++ [n]) = .ok [dir ++ [n]] := fun n => by rw [select]
  have hentries :
      b.entries l (false || !([] : List Glob.Component).isEmpty) dir = .ok (b.names dir) := rfl
  have hall : ∀ ns : List Text, ns.mapM (fun n => select b l false [] (dir ++ [n])) =
      .ok (ns.map fun n => [dir ++ [n]]) := by
    intro ns
    simp only [hlast]
    exact List.mapM_pure
  rw [select, hentries, List.map_eq_flatMap, List.flatMap_def]
  simp only [bind, Except.bind, hall]
  rfl

/-- A pattern of any directories and a name selects the entries with such a name in all directories
that are reached without links. -/
theorem select_deep (b : Base) (l : Lookup) (tokens : List Glob.Token) :
    ∃ found, select b l false [.deep, .name tokens] [] = .ok found ∧
      ∀ names, names ∈ found ↔ ∃ dir ∈ b.directories [], ∃ n ∈ b.names dir,
        Glob.matchTokens tokens n ∧ dir ++ [n] = names := by
  have hall : (b.directories []).mapM (select b l false [.name tokens]) =
      .ok ((b.directories []).map fun dir =>
        ((b.names dir).filter (Glob.matchTokens tokens)).map fun n => dir ++ [n]) := by
    rw [funext (select_name b l tokens)]
    exact List.mapM_pure
  refine ⟨_, by rw [select, hall]; rfl, fun names => ?_⟩
  simp only [List.mem_eraseDups, List.mem_flatten, List.mem_map]
  grind

/-! ### What is found -/

theorem isHidden_append :
    isHidden (dir ++ [n]) = false ↔ isHidden dir = false ∧ n.head? ≠ some '.' := by
  simp [isHidden]

section Found

variable (hroot : b.tree.entry b.here b.path = .ok (.dir entries))
  (hdistinct : (FileTree.dir entries).Distinct)
include hroot hdistinct

theorem mem_directories_iff : dir ∈ b.directories [] ↔
    ∃ es, (FileTree.dir entries).at? dir = some (.dir es) := by
  have hchild : b.child [] = b.path := by simp [Base.child]
  rw [Base.directories, hchild, hroot]
  simp [FileTree.mem_directories hdistinct]

theorem isCandidate_of_selected (hdir : dir ∈ b.directories []) (hn : n ∈ b.names dir)
    (hmatch : Glob.matchTokens (Glob.endingTokens e) n)
    (hvisible : isHidden (dir ++ [n]) = false) :
    IsCandidate (.dir entries) [e] (dir ++ [n]) := by
  obtain ⟨es, hes⟩ := (mem_directories_iff hroot hdistinct).1 hdir
  obtain ⟨stem, rfl⟩ := Glob.matchTokens_ending.1 hmatch
  exact {
    there := isSome_of_mem_names hroot hes (isHidden_append.1 hvisible).1 hn
    visible := hvisible
    ending := ⟨stem, e, List.mem_singleton_self e, List.getLast?_concat⟩ }

theorem selected_of_isCandidate (hcandidate : IsCandidate (.dir entries) [e] names)
    (hregular : b.IsRegular names) :
    ∃ dir ∈ b.directories [], ∃ n ∈ b.names dir,
      Glob.matchTokens (Glob.endingTokens e) n ∧ dir ++ [n] = names := by
  obtain ⟨hthere, hvisible, stem, e', he, hlast⟩ := hcandidate
  obtain rfl := List.mem_singleton.1 he
  obtain ⟨dir, rfl⟩ := List.getLast?_eq_some_iff.1 hlast
  obtain ⟨_, _, _, hentry⟩ := hregular
  obtain ⟨hdir, hn⟩ := mem_names hroot (isHidden_append.1 hvisible).1 hthere hentry
  exact ⟨dir, (mem_directories_iff hroot hdistinct).2 hdir, _, hn,
    Glob.matchTokens_ending.2 ⟨stem, rfl⟩, rfl⟩

/-- The pattern of a plain extension finds the files that have it, unless there is an entry of which
it cannot be told whether it is a file. -/
theorem filesMatchingOne_cases (hne : e ≠ []) (hplain : Extension.isPlain e) :
    (∃ names error, IsCandidate (.dir entries) [e] names ∧ b.isFile names = .error error ∧
      filesMatchingOne b l (Extension.anyFile ++ e) = .error (.file error)) ∨
    ∃ found, filesMatchingOne b l (Extension.anyFile ++ e) = .ok found ∧
      ∀ names, names ∈ found ↔ IsCandidate (.dir entries) [e] names ∧ b.IsRegular names := by
  obtain ⟨-, hliteral, hslash⟩ := Extension.of_isPlain hplain
  obtain ⟨selected, hselect, hmem⟩ := select_deep b l (Glob.endingTokens e)
  have htop : b.isDir [] = .ok true := by
    have hchild : b.child [] = b.path := by simp [Base.child]
    simp [Base.isDir, FileTree.isDir, FileTree.seek, hchild, hroot, Except.map]
  have hfiles : filesMatchingOne b l (Extension.anyFile ++ e) =
      ((selected.filter fun names => !isHidden names).filterM b.isFile).mapError .file := by
    rw [filesMatchingOne, Glob.ofText_anyFile hne hliteral hslash]
    simp only [filesOf, htop, hselect, bind, Except.bind, if_true]
  have hvisible : ∀ names, names ∈ selected.filter (fun names => !isHidden names) ↔
      names ∈ selected ∧ isHidden names = false := by
    simp
  rw [hfiles]
  obtain ⟨names, hnames, error, herror, hfilter⟩ | ⟨-, found, hfilter, hfound⟩ :=
    filterM_cases b.isFile (selected.filter fun names => !isHidden names)
  · obtain ⟨hselected, hshown⟩ := (hvisible names).1 hnames
    obtain ⟨dir, hdir, n, hn, hmatch, rfl⟩ := (hmem names).1 hselected
    exact .inl ⟨dir ++ [n], error,
      isCandidate_of_selected hroot hdistinct hdir hn hmatch hshown, herror, by rw [hfilter]; rfl⟩
  · refine .inr ⟨found, by rw [hfilter]; rfl, fun names => ?_⟩
    rw [hfound, hvisible, hmem, isFile_eq_true]
    constructor
    · rintro ⟨⟨⟨dir, hdir, n, hn, hmatch, rfl⟩, hshown⟩, hregular⟩
      exact ⟨isCandidate_of_selected hroot hdistinct hdir hn hmatch hshown, hregular⟩
    · rintro ⟨hcandidate, hregular⟩
      exact ⟨⟨selected_of_isCandidate hroot hdistinct hcandidate hregular, hcandidate.visible⟩,
        hregular⟩

theorem mem_filesMatchingOne (hne : e ≠ []) (hplain : Extension.isPlain e)
    {found : List (List Text)} (h : filesMatchingOne b l (Extension.anyFile ++ e) = .ok found) :
    names ∈ found ↔ IsCandidate (.dir entries) [e] names ∧ b.IsRegular names := by
  obtain ⟨_, _, -, -, hone⟩ | ⟨found', hone, hmem⟩ :=
    filesMatchingOne_cases hroot hdistinct hne hplain
  · cases h.symm.trans hone
  · obtain rfl := Except.ok.inj (h.symm.trans hone)
    exact hmem names

/-- A search with plain extensions returns, in increasing order, the files that have one of them and
that names without a point in front lead to without links. It fails only at an entry with such a
name for which the system refuses the path, or that of a link, because it is too long. -/
theorem discover_exact {extensions exts : List Text}
    (hexts : Extension.normalize? extensions = some exts)
    (hplain : ∀ e ∈ exts, Extension.isPlain e) :
    (∃ files, discover b extensions l = .ok files ∧ files.Pairwise Text.Before ∧
      ∀ file, file ∈ files ↔ ∃ names, file = Path.partsText names ∧
        IsCandidate (.dir entries) exts names ∧ b.IsRegular names) ∨
    ∃ names error, IsCandidate (.dir entries) exts names ∧ b.isFile names = .error error ∧
      error.fault = .nameTooLong ∧ discover b extensions l = .error (.file error) := by
  have hpatterns := fun p => Extension.mem_expand_pattern_of_isPlain (p := p) hexts hplain
  have hne : ∀ e ∈ exts, e ≠ [] := fun e he => ((Extension.mem_of_normalize? hexts).1 he).1
  obtain ⟨p, hp, fault, hfault, hdiscover⟩ | ⟨hall, files, hdiscover, hsorted, hmem⟩ :=
    discover_cases (b := b) (l := l) hexts
  · obtain ⟨e, he, rfl⟩ := (hpatterns p).1 hp
    obtain ⟨names, error, hcandidate, herror, hone⟩ | ⟨found, hone, -⟩ :=
      filesMatchingOne_cases hroot hdistinct (hne e he) (hplain e he)
    · obtain rfl := Except.error.inj (hfault.symm.trans hone)
      exact .inr ⟨names, error, isCandidate_iff.2 ⟨e, he, hcandidate⟩, herror,
        nameTooLong_of_isFile herror, hdiscover⟩
    · cases hfault.symm.trans hone
  · refine .inl ⟨files, hdiscover, hsorted, fun file => ?_⟩
    rw [hmem]
    constructor
    · rintro ⟨p, hp, found, hok, names, hnames, rfl⟩
      obtain ⟨e, he, rfl⟩ := (hpatterns p).1 hp
      obtain ⟨hcandidate, hregular⟩ :=
        (mem_filesMatchingOne hroot hdistinct (hne e he) (hplain e he) hok).1 hnames
      exact ⟨names, rfl, isCandidate_iff.2 ⟨e, he, hcandidate⟩, hregular⟩
    · rintro ⟨names, rfl, hcandidate, hregular⟩
      obtain ⟨e, he, hcandidate⟩ := isCandidate_iff.1 hcandidate
      have hp := (hpatterns _).2 ⟨e, he, rfl⟩
      obtain ⟨found, hok⟩ := hall _ hp
      exact ⟨_, hp, found, hok, names,
        (mem_filesMatchingOne hroot hdistinct (hne e he) (hplain e he) hok).2
          ⟨hcandidate, hregular⟩, rfl⟩

end Found

/-- An archive in a directory next to a hidden one, a link to the archive and one to the
directory. -/
def archives : List (Text × FileTree) :=
  [("d".toList, .dir [("b.tar.gz".toList, plainFile), (".h.gz".toList, plainFile)]),
    ("l.gz".toList, .link "d/b.tar.gz".toList), ("m".toList, .link "d".toList)]

theorem discover_exact_archives :
    discover (.top archives) [".gz".toList, " tar.gz".toList] =
        .ok ["d/b.tar.gz".toList, "l.gz".toList] ∧
      ∀ file, file ∈ ["d/b.tar.gz".toList, "l.gz".toList] ↔ ∃ names, file = Path.partsText names ∧
        IsCandidate (.dir archives) ["gz".toList, "tar.gz".toList] names ∧
          (Base.top archives).IsRegular names := by
  have hroot : (Base.top archives).tree.entry (Base.top archives).here (Base.top archives).path =
      .ok (.dir archives) :=
    rfl
  have hdistinct : (FileTree.dir archives).Distinct := by
    refine .dir (by decide) ?_
    simp only [archives, List.forall_mem_cons]
    refine ⟨.dir (by decide) ?_, .link _, .link _, by simp⟩
    simp only [List.forall_mem_cons]
    exact ⟨.file .., .file .., by simp⟩
  have hexts : Extension.normalize? [".gz".toList, " tar.gz".toList] =
      some ["gz".toList, "tar.gz".toList] := by
    decide
  have hfiles : discover (.top archives) [".gz".toList, " tar.gz".toList] =
      .ok ["d/b.tar.gz".toList, "l.gz".toList] := by
    decide +kernel
  refine ⟨hfiles, ?_⟩
  obtain ⟨files, hok, -, hmem⟩ | ⟨_, _, -, -, -, herror⟩ :=
    discover_exact hroot hdistinct hexts (by decide)
  · obtain rfl := Except.ok.inj (hok.symm.trans hfiles)
    exact hmem
  · cases herror.symm.trans hfiles

/-- One link whose target has a name that no system takes makes the whole search fail, and the file
beside it is lost. -/
theorem discover_long_link :
    let entries := [("a.c".toList, .link (List.replicate 256 'x')), ("ok.c".toList, plainFile)]
    Extension.normalize? ["c".toList] = some ["c".toList] ∧ Extension.isPlain "c".toList ∧
      (Base.top entries).isFile ["ok.c".toList] = .ok true ∧
      discover (.top entries) ["c".toList] =
        .error (.file ⟨.nameTooLong, "/a.c".toList⟩) := by
  decide +kernel

end Search

end FormatAudit
