import FormatAudit.Linter.ClangFormat
import FormatAudit.Proofs.Linter.Pool
import FormatAudit.Proofs.Text.Order
import FormatAudit.Proofs.Text.Utf8
import FormatAudit.Proofs.Violation.Change
import FormatAudit.Proofs.Violation.Sequence

/-! Checking files against a formatter that succeeds on all of them and leaves them alone. The
envelope lists the files whose bytes differ from what was printed for them, and the findings tell
of these files and of no others. How many files are checked at a time, and in which order the
checks make their steps, is not assumed. -/
namespace FormatAudit

theorem Search.discover_nodup {b : Search.Base} {extensions files : List Text}
    (h : Search.discover b extensions l = .ok files) : files.Nodup := by
  unfold Search.discover at h
  cases hpattern : Search.patternFor extensions with
  | error e => simp [hpattern, bind, Except.bind] at h
  | ok pattern =>
    cases hfound : Search.filesMatching b l pattern with
    | error e => simp [hpattern, hfound, bind, Except.bind] at h
    | ok found =>
      simp only [hpattern, hfound, bind, Except.bind, pure, Except.pure, Except.ok.injEq] at h
      rw [← h]
      exact Text.sortedSet_nodup _

namespace ClangFormat

open Run

/-- Run for a file in a session with the given files, the formatter exits with status 0 after it
has printed `out`, and leaves the files alone. -/
def Prints (a : ClangFormat) (h : Host) (tree : FileTree) (root : Path) (words : List Text)
    (file : Text) (out : Bytes) : Prop :=
  Ensures h (fun s => s.tree = tree)
    (a.runner (words ++ program :: (a.args ++ [file])) (a.options root)) fun r =>
      ∃ c, r = .ok c ∧ c.code = 0 ∧ c.stdout = some (.bytes out)

/-- The check of a file came to a comparison of its content with what was printed for it. -/
structure FileCheck.Compares (c : FileCheck) (file : Text) (content printed : Bytes) : Prop where
  file_eq : c.file = file
  error_eq : c.error = []
  changes_eq :
    c.changes = changesOf (Utf8.decodeReplacing content) (Utf8.decodeReplacing printed)

/-! ### Running the checks -/

section Checks

variable {a : ClangFormat} {h : Host} {tree : FileTree} {root : Path} {words : List Text}

theorem command_ensures {I : Session → Prop} (hwords : ShellWords.split a.launcher = .ok words)
    (more : List Text) :
    Ensures h I (a.command more) fun r => ∃ ws, r = .ok ws ∧ ws = words ++ program :: more := by
  have hlauncher : Ensures h I a.launcherWords fun r => ∃ ws, r = .ok ws ∧ ws = words := by
    unfold launcherWords
    rw [hwords]
    exact ensures_pure ⟨words, rfl, rfl⟩
  refine Ensures.bind_ok hlauncher ?_
  rintro ws rfl
  exact ensures_pure ⟨_, rfl, rfl⟩

theorem survive_ensures {I : Session → Prop} {ws : List Text} {P : Completed → Prop}
    (hrun : Ensures h I (a.runner ws (a.options root)) fun r => ∃ c, r = .ok c ∧ P c) :
    Ensures h I (a.survive root ws) fun r => ∃ x, r = .ok x ∧ ∃ c, x = .ok c ∧ P c := by
  refine Ensures.bind_ok hrun.attempt ?_
  rintro _ ⟨c, rfl, hc⟩
  exact ensures_pure ⟨.ok c, rfl, c, rfl, hc⟩

theorem finish_ensures {file : Text} {ws : List Text} {c : Completed} {content out : Bytes}
    (hcode : c.code = 0) (hout : c.stdout = some (.bytes out))
    (hread : tree.read h.here (Path.join root (Path.ofText file)) = .ok content) :
    Ensures h (fun s => s.tree = tree) (a.finish root ⟨file, ws, .ok c⟩) fun r =>
      ∃ k, r = .ok k ∧ k.Compares file content out := by
  have hfile : Ensures h (fun s => s.tree = tree)
      (readFile (Path.join root (Path.ofText file))) fun r => ∃ x, r = .ok x ∧ x = .ok content := by
    apply ensures_readFile
    rintro s rfl
    exact ⟨_, rfl, hread⟩
  unfold finish
  dsimp only
  rw [if_neg (not_not.mpr hcode)]
  refine Ensures.bind_ok hfile ?_
  rintro _ rfl
  refine ensures_pure ⟨_, rfl, rfl, rfl, ?_⟩
  rw [hout]
  rfl

theorem start_ensures {file : Text} {content out : Bytes}
    (hwords : ShellWords.split a.launcher = .ok words)
    (hprints : a.Prints h tree root words file out)
    (hread : tree.read h.here (Path.join root (Path.ofText file)) = .ok content) :
    Ensures h (fun s => s.tree = tree) (a.start root file)
      (Pool.Continues h (fun s => s.tree = tree) (a.finish root) fun r =>
        ∃ k, r = .ok k ∧ k.Compares file content out) := by
  refine Ensures.bind_ok (command_ensures hwords _) ?_
  rintro ws rfl
  refine Ensures.bind_ok (survive_ensures hprints) ?_
  rintro _ ⟨c, rfl, hcode, hout⟩
  exact ensures_pure (finish_ensures hcode hout hread)

/-- Every check comes to its comparison, one at a time or concurrently. -/
theorem checkFiles_ensures {files : List Text} {content printed : Text → Bytes}
    (hwords : ShellWords.split a.launcher = .ok words)
    (hprints : ∀ f ∈ files, a.Prints h tree root words f (printed f))
    (hread : ∀ f ∈ files,
      tree.read h.here (Path.join root (Path.ofText f)) = .ok (content f)) :
    Ensures h (fun s => s.tree = tree) (a.checkFiles root files) fun r =>
      ∃ checks, r = .ok (envelopeOf checks) ∧
        List.Forall₂ (fun f k => k.Compares f (content f) (printed f)) files checks := by
  have hstart := fun f hf => start_ensures hwords (hprints f hf) (hread f hf)
  refine Ensures.map (Q := Collects (fun f r => ∃ k, r = .ok k ∧
    k.Compares f (content f) (printed f)) files) ?_ ?_
  · split
    · exact Pool.run_ensures hstart
    · exact ensures_mapM fun f hf => Pool.bind_ensures (hstart f hf)
  · intro r hr
    obtain ⟨checks, rfl, hall⟩ := hr.ok
    exact ⟨checks, rfl, hall⟩

end Checks

/-! ### What the checks amount to -/

def differing (content printed : Text → Bytes) (files : List Text) : List Text :=
  files.filter fun f => content f ≠ printed f

def fileChanges (content printed : Text → Bytes) (file : Text) : FileChanges :=
  ⟨file, diff (Utf8.decodeReplacing (content file)) (Utf8.decodeReplacing (printed file))⟩

theorem changesOf_self (t : Text) : changesOf t t = [] := by
  have hno : ¬ hasChanges (diff t t) = true := by simp [hasChanges_diff]
  rw [changesOf, if_neg hno]

theorem changesOf_of_ne {t u : Text} (hne : t ≠ u) :
    changesOf t u = diff t u ∧ diff t u ≠ [] := by
  have hyes : hasChanges (diff t u) = true := (hasChanges_diff t u).mpr hne
  refine ⟨by rw [changesOf, if_pos hyes], ?_⟩
  intro hnil
  rw [hnil] at hyes
  simp [hasChanges] at hyes

section Envelope

variable {content printed : Text → Bytes} {files : List Text} {checks : List FileCheck}

theorem payload_envelopeOf
    (hchecks : List.Forall₂ (fun f k => k.Compares f (content f) (printed f)) files checks)
    (hcontent : ∀ f ∈ files, Utf8.IsValid (content f))
    (hprinted : ∀ f ∈ files, Utf8.IsValid (printed f)) :
    (envelopeOf checks).payload = (differing content printed files).map
      (fileChanges content printed) := by
  induction hchecks with
  | nil => rfl
  | @cons f k files checks hk _ ih =>
    have ih := ih (fun g hg => hcontent g (List.mem_cons_of_mem f hg))
      fun g hg => hprinted g (List.mem_cons_of_mem f hg)
    simp only [envelopeOf, differing] at ih ⊢
    obtain ⟨rfl, -, hchanges⟩ := hk
    by_cases heq : content k.file = printed k.file
    · have hnil : k.changes = [] := by rw [hchanges, heq, changesOf_self]
      rw [List.filter_cons_of_neg (by simp [hnil]), List.filter_cons_of_neg (by simp [heq]), ih]
    · have hne : Utf8.decodeReplacing (content k.file) ≠ Utf8.decodeReplacing (printed k.file) := by
        rwa [ne_eq, Utf8.decodeReplacing_inj (hcontent _ List.mem_cons_self)
          (hprinted _ List.mem_cons_self)]
      obtain ⟨hdiff, hsome⟩ := changesOf_of_ne hne
      rw [hdiff] at hchanges
      rw [List.filter_cons_of_pos (by simp [hchanges, hsome]),
        List.filter_cons_of_pos (by simp [heq]), List.map_cons, List.map_cons, ih, hchanges,
        fileChanges]

theorem status_envelopeOf
    (hchecks : List.Forall₂ (fun f k => k.Compares f (content f) (printed f)) files checks) :
    (envelopeOf checks).status = 0 ↔ (envelopeOf checks).payload = [] := by
  have hnone : ∀ k ∈ checks, k.error = [] := by
    induction hchecks with
    | nil => simp
    | cons hk _ ih => exact List.forall_mem_cons.mpr ⟨hk.error_eq, ih⟩
  simpa [envelopeOf] using fun _ => hnone

end Envelope

/-- An envelope and its findings tell exactly of the files in a list, each once and in its order. -/
structure TellsOf (e : Envelope) (f : Findings) (files : List Text) : Prop where
  payload : e.payload.map FileChanges.file = files
  nodup : files.Nodup
  status : e.status = 0 ↔ files = []
  noWarnings : f.warnings = []
  success : f.isSuccess = true ↔ files = []
  found : ∀ file ∈ files, ∃ v ∈ f.errors, v.path = file
  confined : ∀ v ∈ f.errors, v.path ∈ files

def fileViolations (content printed : Text → Bytes) (file : Text) : List Violation :=
  segmentViolations file 1 (align (splitLines (Utf8.decodeReplacing (content file)))
    (splitLines (Utf8.decodeReplacing (printed file))))

section Findings

variable {content printed : Text → Bytes} {files : List Text} {e : Envelope}

theorem fileViolations_ne_nil {file : Text} (hcontent : Utf8.IsValid (content file))
    (hprinted : Utf8.IsValid (printed file)) (hne : content file ≠ printed file) :
    fileViolations content printed file ≠ [] := by
  rw [fileViolations, ne_eq, segmentViolations_eq_nil, align_isKept_iff,
    Utf8.decodeReplacing_inj hcontent hprinted]
  exact hne

theorem ofHunks_payload (files : List Text) :
    (files.map (fileChanges content printed)).mapM
      (fun c => Violation.ofHunks c.file c.changes) =
        .ok (files.map (fileViolations content printed)) := by
  rw [mapM_ofHunks, List.map_map]
  congr 1
  exact List.map_congr_left fun file _ => groupViolations_diff file _ _

theorem ofEnvelope_tellsOf (hcontent : ∀ f ∈ files, Utf8.IsValid (content f))
    (hprinted : ∀ f ∈ files, Utf8.IsValid (printed f)) (hnodup : files.Nodup)
    (hpayload : e.payload = (differing content printed files).map (fileChanges content printed))
    (hstatus : e.status = 0 ↔ e.payload = []) :
    ∃ f, Findings.ofEnvelope e = .ok f ∧ TellsOf e f (differing content printed files) := by
  have hfiles : e.payload.map FileChanges.file = differing content printed files := by
    rw [hpayload, List.map_map]
    exact List.map_id _
  have hzero : e.status = 0 ↔ differing content printed files = [] := by
    rw [hstatus, hpayload, List.map_eq_nil_iff]
  have hnodup' : (differing content printed files).Nodup := hnodup.filter _
  unfold Findings.ofEnvelope
  by_cases hs : e.status = 0
  · have hnone := hzero.mp hs
    rw [if_pos hs]
    refine ⟨_, rfl, hfiles, hnodup', hzero, rfl, by simp [hnone], ?_, by simp⟩
    rw [hnone]
    simp
  · have hsome : differing content printed files ≠ [] := fun h => hs (hzero.mpr h)
    rw [if_neg hs, hpayload, ofHunks_payload]
    refine ⟨_, rfl, hfiles, hnodup', hzero, rfl, by simp [hsome], ?_, ?_⟩
    · intro file hfile
      obtain ⟨hmem, hne⟩ := List.mem_filter.mp hfile
      obtain ⟨v, hv⟩ := List.exists_mem_of_ne_nil _
        (fileViolations_ne_nil (hcontent file hmem) (hprinted file hmem) (of_decide_eq_true hne))
      have hpath : v.path = file := path_of_mem_segmentViolations hv
      exact ⟨v, List.mem_flatten_of_mem (List.mem_map_of_mem hfile) hv, hpath⟩
    · intro v hv
      obtain ⟨vs, hvs, hv⟩ := List.mem_flatten.mp hv
      obtain ⟨file, hfile, rfl⟩ := List.mem_map.mp hvs
      have hpath : v.path = file := path_of_mem_segmentViolations hv
      rw [hpath]
      exact hfile

end Findings

/-- Check mode finds exactly the files that the formatter would change. -/
theorem lint_tellsOf (a : ClangFormat) {h : Host} {s : Session} {root : Path}
    {extensions words files : List Text} {content printed : Text → Bytes}
    (hwords : ShellWords.split a.launcher = .ok words)
    (hfiles : Search.discover ⟨s.tree, h.here, root⟩ extensions h.lookup = .ok files)
    (hread : ∀ f ∈ files,
      s.tree.read h.here (Path.join root (Path.ofText f)) = .ok (content f))
    (hprints : ∀ f ∈ files, a.Prints h s.tree root words f (printed f))
    (hcontent : ∀ f ∈ files, Utf8.IsValid (content f))
    (hprinted : ∀ f ∈ files, Utf8.IsValid (printed f)) :
    ∃ e s₁ f s₂, (a.lint root extensions false).exec h s = (.ok e, s₁) ∧
      (findings e).exec h s₁ = (.ok f, s₂) ∧ TellsOf e f (differing content printed files) := by
  have hdiscover : (discover root extensions).exec h s = (.ok files, s) := by
    change (ofExcept Failure.search
      (Search.discover ⟨s.tree, h.here, root⟩ extensions h.lookup)).exec h s
      = _
    rw [hfiles]
    rfl
  have hlint : (a.lint root extensions false).exec h s = (a.checkFiles root files).exec h s := by
    rw [lint, exec_bind, hdiscover]
    rfl
  obtain ⟨⟨checks, hresult, hchecks⟩, -⟩ := checkFiles_ensures hwords hprints hread s rfl
  obtain ⟨f, hf, htells⟩ := ofEnvelope_tellsOf hcontent hprinted (Search.discover_nodup hfiles)
    (payload_envelopeOf hchecks hcontent hprinted) (status_envelopeOf hchecks)
  let s₁ := ((a.checkFiles root files).exec h s).2
  have hfindings : (findings (envelopeOf checks)).exec h s₁ = (.ok f, s₁) := by
    rw [findings, hf]
    rfl
  refine ⟨envelopeOf checks, s₁, f, s₁, ?_, hfindings, htells⟩
  rw [hlint, ← hresult]

/-- A file as the formatter of `uniformHost` prints it, and one with a space too many and without
the newline at its end. -/
def twoFiles : FileTree :=
  .dir [("b.c".toList, .file (Utf8.encode "int  x;".toList) true false),
    ("a.c".toList, .file (Utf8.encode "int x;\n".toList) true false)]

/-- Whatever is launched prints the same line. Of two tasks the second one starts first. -/
def uniformHost : Host :=
  { bareHost with
    find := fun p => some ("/bin/".toList ++ p)
    launch := fun _ tree =>
      (.exited 0 (some (.bytes (Utf8.encode "int x;\n".toList))) none, tree)
    schedule := fun _ => [1, 0, 0] }

def uniformFormat : ClangFormat :=
  { args := ["--style=file".toList]
    launcher := "xcrun --run".toList
    jobs := 2
    timeout := .null
    output := ⟨false, false⟩
    runner := hostRunner }

def twoContents (file : Text) : Bytes :=
  Utf8.encode (if file = "a.c".toList then "int x;\n" else "int  x;").toList

theorem lint_two_files :
    ∃ e s₁ f s₂,
      (uniformFormat.lint (Path.ofText ['/']) [['c']] false).exec uniformHost
        (Session.start twoFiles) = (.ok e, s₁) ∧
      (findings e).exec uniformHost s₁ = (.ok f, s₂) ∧ TellsOf e f ["b.c".toList] := by
  let printed : Text → Bytes := fun _ => Utf8.encode "int x;\n".toList
  have hwords : ShellWords.split uniformFormat.launcher = .ok ["xcrun".toList, "--run".toList] := by
    decide
  have hfiles : Search.discover ⟨twoFiles, [], Path.ofText ['/']⟩ [['c']] .listed =
      .ok ["a.c".toList, "b.c".toList] := by
    decide +kernel
  have hread : ∀ f ∈ ["a.c".toList, "b.c".toList],
      twoFiles.read [] (Path.join (Path.ofText ['/']) (Path.ofText f)) = .ok (twoContents f) := by
    decide +kernel
  have hprints : ∀ f ∈ ["a.c".toList, "b.c".toList], uniformFormat.Prints uniformHost twoFiles
      (Path.ofText ['/']) ["xcrun".toList, "--run".toList] f (printed f) := by
    intro f _ s hs
    exact ⟨⟨_, rfl, rfl, rfl⟩, hs⟩
  have hdiffering : differing twoContents printed ["a.c".toList, "b.c".toList] =
      ["b.c".toList] := by
    decide +kernel
  rw [← hdiffering]
  exact lint_tellsOf uniformFormat hwords hfiles hread hprints (by decide +kernel)
    (by decide +kernel)

end ClangFormat

end FormatAudit
