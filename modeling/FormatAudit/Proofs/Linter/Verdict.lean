import FormatAudit.Linter.ClangFormat
import FormatAudit.Proofs.Linter.Pool

/-! What the check of a file comes to, from how its command ends and from what is read from the
file afterwards. Nothing is assumed of the formatter here: it may fail or raise for any file. -/
namespace FormatAudit.ClangFormat

open Run

/-- How the command for a file ends, and what is read from the file after it. -/
structure Fate where
  result : Except Failure Completed
  content : Except FileError Bytes

def FileCheck.ofFailure (file reason : Text) : FileCheck :=
  ⟨file, [], file ++ ": ".toList ++ reason, []⟩

def survived : Except Failure Completed → Except Failure (Except Text Completed)
  | .ok c => .ok (.ok c)
  | .error f => if f.isOfCommand then .ok (.error f.message) else .error f

def compared (st : Started) (content : Except FileError Bytes) : Except Failure FileCheck :=
  match st.result with
  | .error reason => .ok <| FileCheck.ofFailure st.file
      ("unable to run ".toList ++ ShellWords.join st.words ++ ": ".toList ++ reason)
  | .ok c =>
    if c.code ≠ 0 then .ok <| FileCheck.ofFailure st.file
      (program ++ " exited with status ".toList ++ Text.ofInt c.code ++ ": ".toList ++
        Text.strip (decode c.stderr))
    else match content with
      | .error e =>
        if e.fault = .nullCharacter then .error (.file e)
        else .ok <| FileCheck.ofFailure st.file ("unable to read file: ".toList ++ e.message)
      | .ok bytes => .ok ⟨st.file, changesOf (Utf8.decodeReplacing bytes) (decode c.stdout), [],
          Text.strip (decode c.stderr)⟩

def fileWords (a : ClangFormat) (words : List Text) (file : Text) : List Text :=
  words ++ program :: (a.args ++ [file])

def verdict (a : ClangFormat) (words : List Text) (file : Text) (fate : Fate) :
    Except Failure FileCheck := do
  compared ⟨file, a.fileWords words file, ← survived fate.result⟩ fate.content

section Steps

variable {a : ClangFormat} {h : Host} {s : Session} {root : Path} {words : List Text} {file : Text}

theorem exec_command_ok (hwords : ShellWords.split a.launcher = .ok words) (more : List Text) :
    (a.command more).exec h s = (.ok (words ++ program :: more), s) := by
  rw [command, launcherWords, exec_bind, exec_ofExcept, hwords]
  rfl

theorem exec_command_error {fault : ShellWords.Fault}
    (hfault : ShellWords.split a.launcher = .error fault) (more : List Text) :
    (a.command more).exec h s = (.error (.quoting fault), s) := by
  rw [command, launcherWords, exec_bind, exec_ofExcept, hfault]
  rfl

theorem exec_start_error {fault : ShellWords.Fault}
    (hfault : ShellWords.split a.launcher = .error fault) :
    (a.start root file).exec h s = (.error (.quoting fault), s) := by
  rw [start, exec_bind, exec_command_error hfault]

theorem exec_survive (ws : List Text) :
    (a.survive root ws).exec h s =
      (survived ((a.runner ws (a.options root)).exec h s).1,
        ((a.runner ws (a.options root)).exec h s).2) := by
  rw [survive, exec_bind, exec_attempt]
  rcases (a.runner ws (a.options root)).exec h s with ⟨f | c, s'⟩
  · cases hf : f.isOfCommand with
    | true =>
      simp only [survived, hf, if_true]
      rfl
    | false =>
      simp only [survived, hf, Bool.false_eq_true, if_false]
      rfl
  · rfl

theorem exec_start_ok (hwords : ShellWords.split a.launcher = .ok words) :
    (a.start root file).exec h s =
      let ran := (a.runner (a.fileWords words file) (a.options root)).exec h s
      ((survived ran.1).map (⟨file, a.fileWords words file, ·⟩), ran.2) := by
  rw [start, exec_bind, exec_command_ok hwords]
  dsimp only
  rw [exec_bind, exec_survive, fileWords]
  cases survived ((a.runner (words ++ program :: (a.args ++ [file])) (a.options root)).exec h s).1
    <;> rfl

theorem exec_failed (reason : Text) :
    ((a.failed file reason).exec h s).1 = .ok (FileCheck.ofFailure file reason) ∧
      ((a.failed file reason).exec h s).2.tree = s.tree :=
  ⟨rfl, rfl⟩

theorem exec_finish (st : Started) :
    ((a.finish root st).exec h s).1 =
        compared st (s.tree.read h.here (Path.join root (Path.ofText st.file))) ∧
      ((a.finish root st).exec h s).2.tree = s.tree := by
  unfold finish compared
  cases st.result with
  | error reason => exact exec_failed _
  | ok c =>
    dsimp only
    by_cases hcode : c.code ≠ 0
    · rw [if_pos hcode, if_pos hcode]
      exact exec_failed _
    · rw [if_neg hcode, if_neg hcode]
      have hread : (readFile (Path.join root (Path.ofText st.file))).exec h s =
          (.ok (s.tree.read h.here (Path.join root (Path.ofText st.file))), s) := rfl
      rw [exec_bind, hread]
      dsimp only
      cases s.tree.read h.here (Path.join root (Path.ofText st.file)) with
      | ok bytes => exact ⟨rfl, rfl⟩
      | error e =>
        by_cases hnull : e.fault = .nullCharacter
        · simp only [hnull, if_true]
          exact ⟨rfl, rfl⟩
        · simp only [hnull, if_false]
          exact exec_failed _

end Steps

/-! ### Checks among other checks -/

section Checks

variable {ι : Type} {a : ClangFormat} {h : Host} {K : ι → Session → Prop} {s : Session}
  {root : Path} {files : List Text}

/-- One at a time or concurrently, the checks come to what each of them leads to, or to the failure
of the first file that leads to one. -/
theorem checkFiles_eq_mapM {v : Text → Except Failure FileCheck}
    (hstart : ∀ f ∈ files,
      Promises h K s (a.start root f) (Pool.Resumes h K (a.finish root) (· = v f))) :
    ((a.checkFiles root files).exec h s).1 = (files.mapM v).map envelopeOf := by
  have hchecks := fun f hf => Pool.bind_promises (hstart f hf)
  rw [checkFiles, exec_map]
  split
  · rw [(Pool.run_promises hstart s (Keeps.refl s)).2.eq_mapM]
  · rw [(promises_mapM hchecks s (Keeps.refl s)).2.eq_mapM]

end Checks

/-- The trees that the commands of files lead to. The first list holds the files whose commands
have been run, the latest first. -/
inductive Reached (a : ClangFormat) (h : Host) (root : Path) (words : List Text) (tree : FileTree)
    (files : List Text) : List Text → FileTree → Prop
  | start : Reached a h root words tree files [] tree
  | run {begun : List Text} {s : Session} {file : Text}
      (hs : Reached a h root words tree files begun s.tree) (hfile : file ∈ files) :
      Reached a h root words tree files (file :: begun)
        ((a.runner (a.fileWords words file) (a.options root)).exec h s).2.tree

theorem Reached.subset {a : ClangFormat} {h : Host} {root : Path} {words : List Text}
    {tree : FileTree} {files begun : List Text} {t : FileTree}
    (ht : Reached a h root words tree files begun t) : begun ⊆ files := by
  induction ht with
  | start => exact List.nil_subset _
  | run _ hf ih => exact List.cons_subset.2 ⟨hf, ih⟩

/-- The fate of a file depends on its command alone: whatever commands have been run before, its
command ends in the same way, and whatever commands have been run since, the same is read from it.
What is read matters only if the command succeeded. -/
structure Determines (a : ClangFormat) (h : Host) (root : Path) (words : List Text)
    (tree : FileTree) (files : List Text) (fate : Text → Fate) : Prop where
  result : ∀ {begun : List Text} {s : Session}, Reached a h root words tree files begun s.tree →
    ∀ f ∈ files,
      ((a.runner (a.fileWords words f) (a.options root)).exec h s).1 = (fate f).result
  content : ∀ {begun : List Text} {t : FileTree}, Reached a h root words tree files begun t →
    ∀ f ∈ begun, ∀ c, (fate f).result = .ok c → c.code = 0 →
      t.read h.here (Path.join root (Path.ofText f)) = (fate f).content

section Determined

variable {a : ClangFormat} {h : Host} {root : Path} {words : List Text} {tree : FileTree}
  {files : List Text} {fate : Text → Fate} {s : Session}

theorem eq_of_survived {r : Except Failure Completed} {c : Completed}
    (hr : survived r = .ok (.ok c)) : r = .ok c := by
  cases r with
  | ok d => simpa [survived] using hr
  | error f =>
    by_cases hf : f.isOfCommand = true <;> simp [survived, hf] at hr

theorem compared_congr {st : Started} {content content' : Except FileError Bytes}
    (hsame : ∀ c, st.result = .ok c → c.code = 0 → content = content') :
    compared st content = compared st content' := by
  unfold compared
  cases hr : st.result with
  | error reason => rfl
  | ok c =>
    by_cases hcode : c.code ≠ 0
    · simp only [if_pos hcode]
    · rw [hsame c hr (not_not.1 hcode)]

/-- A session in which the commands of some files have been run, and maybe those of others. -/
def Begun (a : ClangFormat) (h : Host) (root : Path) (words : List Text) (tree : FileTree)
    (files done : List Text) (s : Session) : Prop :=
  ∃ begun, done ⊆ begun ∧ Reached a h root words tree files begun s.tree

theorem Begun.run {done : List Text} (hs : Begun a h root words tree files done s) {f : Text}
    (hf : f ∈ files) :
    Begun a h root words tree files (f :: done)
      ((a.runner (a.fileWords words f) (a.options root)).exec h s).2 := by
  obtain ⟨begun, hsub, hreached⟩ := hs
  exact ⟨f :: begun, List.cons_subset_cons f hsub, hreached.run hf⟩

theorem Begun.mono {done more : List Text} (hs : Begun a h root words tree files more s)
    (hsub : done ⊆ more) : Begun a h root words tree files done s := by
  obtain ⟨begun, hmore, hreached⟩ := hs
  exact ⟨begun, List.Subset.trans hsub hmore, hreached⟩

theorem finish_promises (hfate : a.Determines h root words tree files fate) {f : Text}
    {x : Except Text Completed} (hx : survived (fate f).result = .ok x)
    (hs : Begun a h root words tree files [f] s) :
    Promises h (Begun a h root words tree files) s (a.finish root ⟨f, a.fileWords words f, x⟩)
      fun r _ => r = a.verdict words f (fate f) := by
  intro t hst
  obtain ⟨begun, hsub, hreached⟩ := hst [f] hs
  have hfinish := @exec_finish a h t root ⟨f, a.fileWords words f, x⟩
  obtain ⟨hresult, htree⟩ := hfinish
  refine ⟨?_, ?_⟩
  · rintro done ⟨others, hothers, hreached⟩
    exact ⟨others, hothers, htree ▸ hreached⟩
  · have hverdict : a.verdict words f (fate f) =
        compared ⟨f, a.fileWords words f, x⟩ (fate f).content := by
      rw [verdict, hx]
      rfl
    rw [hresult, hverdict]
    refine compared_congr fun c hc hcode => ?_
    have hc : x = .ok c := hc
    exact hfate.content hreached f (hsub List.mem_cons_self) c
      (eq_of_survived (hx.trans (congrArg _ hc))) hcode

theorem start_promises (hwords : ShellWords.split a.launcher = .ok words)
    (hfate : a.Determines h root words tree files fate) {f : Text} (hf : f ∈ files)
    (hs : Begun a h root words tree files [] s) :
    Promises h (Begun a h root words tree files) s (a.start root f)
      (Pool.Resumes h (Begun a h root words tree files) (a.finish root)
        (· = a.verdict words f (fate f))) := by
  intro t hst
  rw [exec_start_ok hwords]
  have ht := hst [] hs
  have hkeep : Keeps (Begun a h root words tree files) t
      ((a.runner (a.fileWords words f) (a.options root)).exec h t).2 :=
    fun done hdone => (hdone.run hf).mono (List.subset_cons_self f done)
  have hresult : ((a.runner (a.fileWords words f) (a.options root)).exec h t).1 =
      (fate f).result := by
    obtain ⟨begun, -, hreached⟩ := ht
    exact hfate.result hreached f hf
  refine ⟨hkeep, ?_⟩
  dsimp only
  rw [hresult]
  cases hx : survived (fate f).result with
  | error e =>
    have hverdict : a.verdict words f (fate f) = .error e := by
      rw [verdict, hx]
      rfl
    exact hverdict.symm
  | ok x => exact finish_promises hfate hx (ht.run hf)

def check (a : ClangFormat) (root : Path) (file : Text) : Run FileCheck :=
  a.start root file >>= a.finish root

theorem check_verdict (hwords : ShellWords.split a.launcher = .ok words)
    (hfate : a.Determines h root words tree files fate) {begun : List Text}
    (hs : Reached a h root words tree files begun s.tree) {f : Text} (hf : f ∈ files) :
    ((a.check root f).exec h s).1 = a.verdict words f (fate f) := by
  have hbegun : Begun a h root words tree files [] s := ⟨begun, List.nil_subset _, hs⟩
  exact (Pool.bind_promises (start_promises hwords hfate hf hbegun) s (Keeps.refl s)).2

theorem checkFiles_verdicts (hwords : ShellWords.split a.launcher = .ok words)
    (hfate : a.Determines h root words tree files fate) {begun part : List Text}
    (hs : Reached a h root words tree files begun s.tree) (hpart : part ⊆ files) :
    ((a.checkFiles root part).exec h s).1 =
      (part.mapM fun f => a.verdict words f (fate f)).map envelopeOf := by
  have hbegun : Begun a h root words tree files [] s := ⟨begun, List.nil_subset _, hs⟩
  exact checkFiles_eq_mapM fun f hf => start_promises hwords hfate (hpart hf) hbegun

end Determined

end FormatAudit.ClangFormat
