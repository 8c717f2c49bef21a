import FormatAudit.Proofs.Linter.Check
import FormatAudit.Proofs.Linter.Verdict
import FormatAudit.Proofs.Text.Pieces

/-! What check mode says of a list of files is what it says of the parts of the list put together.
A file that fails says so in its own name, and takes nothing away from what is said of the others.
That commands leave the files alone is not assumed: a command may even remove the file it is for. -/
namespace FormatAudit

/-- The envelope `e` is the envelopes `d` and `d'` put together. -/
structure Envelope.Joins (e d d' : Envelope) : Prop where
  payload : e.payload = d.payload ++ d'.payload
  status : e.status = 1 ↔ d.status = 1 ∨ d'.status = 1
  stderr : e.stderr = if d.stderr = [] then d'.stderr else if d'.stderr = [] then d.stderr
    else d.stderr ++ '\n' :: d'.stderr

/-- Files that failed have no entry, they make the run fail, and of the remarks that the files make
in turn, each of them makes one, which begins with its path. -/
structure Envelope.Isolates (e : Envelope) (files : List Text) (failed : Text → Prop) : Prop where
  noEntry : ∀ c ∈ e.payload, ¬ failed c.file
  status : (∃ f ∈ files, failed f) → e.status = 1
  remark : ∃ remarks : Text → List Text, e.stderr = ['\n'].intercalate (files.flatMap remarks) ∧
    ∀ f ∈ files, failed f → ∃ remark, remarks f = [remark] ∧ (f ++ ": ".toList) <+: remark

namespace ClangFormat

/-! ### Putting checks together -/

theorem payload_append (cs ds : List FileCheck) :
    (envelopeOf (cs ++ ds)).payload = (envelopeOf cs).payload ++ (envelopeOf ds).payload := by
  simp [envelopeOf]

theorem status_eq_one {cs : List FileCheck} :
    (envelopeOf cs).status = 1 ↔ ∃ c ∈ cs, c.changes ≠ [] ∨ c.error ≠ [] := by
  have hone : ∀ (p : Prop) [Decidable p], (if p then (1 : Int) else 0) = 1 ↔ p := by
    intro p _
    simp
  have hstatus : (envelopeOf cs).status = 1 ↔
      cs.filter (fun c => c.changes ≠ []) ≠ [] ∨ cs.any (fun c => c.error ≠ []) = true :=
    hone _
  have hchanged : cs.filter (fun c => c.changes ≠ []) ≠ [] ↔ ∃ c ∈ cs, c.changes ≠ [] := by
    simp
  have hfailed : cs.any (fun c => c.error ≠ []) = true ↔ ∃ c ∈ cs, c.error ≠ [] := by
    simp
  rw [hstatus, hchanged, hfailed, ← exists_or]
  simp only [and_or_left]

theorem stderr_append (cs ds : List FileCheck) :
    (envelopeOf (cs ++ ds)).stderr =
      if (envelopeOf cs).stderr = [] then (envelopeOf ds).stderr
      else if (envelopeOf ds).stderr = [] then (envelopeOf cs).stderr
      else (envelopeOf cs).stderr ++ '\n' :: (envelopeOf ds).stderr := by
  have hne : ∀ cs : List FileCheck, ∀ t ∈ cs.flatMap FileCheck.remarks, t ≠ [] := by
    intro cs t ht
    obtain ⟨c, -, ht⟩ := List.mem_flatMap.1 ht
    exact of_decide_eq_true (List.mem_filter.1 ht).2
  simp only [envelopeOf, Text.intercalate_eq_nil (hne _), List.flatMap_append]
  by_cases hc : cs.flatMap FileCheck.remarks = []
  · rw [if_pos hc, hc, List.nil_append]
  · rw [if_neg hc]
    by_cases hd : ds.flatMap FileCheck.remarks = []
    · rw [if_pos hd, hd, List.append_nil]
    · rw [if_neg hd, Text.intercalate_append hc hd]

theorem envelopeOf_joins (cs ds : List FileCheck) :
    (envelopeOf (cs ++ ds)).Joins (envelopeOf cs) (envelopeOf ds) := by
  refine ⟨payload_append cs ds, ?_, stderr_append cs ds⟩
  simp only [status_eq_one, List.mem_append, or_and_right, exists_or]

/-! ### The checks of files that may fail -/

theorem mapM_eq_ok {v : Text → Except Failure FileCheck} {k : Text → FileCheck} {files : List Text}
    (hk : ∀ f ∈ files, v f = .ok (k f)) : files.mapM v = .ok (files.map k) := by
  induction files with
  | nil => rfl
  | cons f files ih =>
    obtain ⟨hf, hfiles⟩ := List.forall_mem_cons.1 hk
    rw [List.mapM_cons, hf, ih hfiles]
    rfl

/-- The check of the file ends without ending the whole run: if its command raises, then a failure
that is survived, and if the file cannot be read, then not because no file can have its path. -/
structure Fate.IsSurvived (x : Fate) : Prop where
  result : ∀ f, x.result = .error f → f.isOfCommand = true
  content : ∀ e, x.content = .error e → e.fault ≠ .nullCharacter

/-- The command of the file raises, or it ends with a status other than 0, as it does if its time is
over, or the file cannot be read after it. -/
inductive Fate.IsFailed : Fate → Prop
  | raised (f : Failure) (content : Except FileError Bytes) : IsFailed ⟨.error f, content⟩
  | exited (c : Completed) (content : Except FileError Bytes) (hcode : c.code ≠ 0) :
      IsFailed ⟨.ok c, content⟩
  | unreadable (c : Completed) (e : FileError) : IsFailed ⟨.ok c, .error e⟩

section Files

variable {a : ClangFormat} {words : List Text} {file : Text} {x : Fate}

theorem verdict_error {f : Failure} (hf : f.isOfCommand = true) (content : Except FileError Bytes) :
    a.verdict words file ⟨.error f, content⟩ =
      compared ⟨file, a.fileWords words file, .error f.message⟩ content := by
  simp only [verdict, survived, hf, if_true]
  rfl

theorem verdict_ok (c : Completed) (content : Except FileError Bytes) :
    a.verdict words file ⟨.ok c, content⟩ =
      compared ⟨file, a.fileWords words file, .ok c⟩ content :=
  rfl

theorem verdict_of_isFailed (hx : x.IsSurvived) (hfailed : x.IsFailed) :
    ∃ reason, a.verdict words file x = .ok (FileCheck.ofFailure file reason) := by
  cases hfailed with
  | raised f content =>
    rw [verdict_error (hx.result f rfl)]
    exact ⟨_, rfl⟩
  | exited c content hcode =>
    rw [verdict_ok]
    simp only [compared, if_pos hcode]
    exact ⟨_, rfl⟩
  | unreadable c e =>
    rw [verdict_ok]
    simp only [compared, if_neg (hx.content e rfl)]
    split
    · exact ⟨_, rfl⟩
    · exact ⟨_, rfl⟩

theorem exists_verdict (hx : x.IsSurvived) :
    ∃ k, a.verdict words file x = .ok k ∧ k.file = file := by
  by_cases hfailed : x.IsFailed
  · obtain ⟨reason, hk⟩ := verdict_of_isFailed (a := a) hx hfailed
    exact ⟨_, hk, rfl⟩
  · obtain ⟨result, content⟩ := x
    cases result with
    | error f => exact absurd (.raised f content) hfailed
    | ok c =>
      have hcode : ¬ c.code ≠ 0 := fun hcode => hfailed (.exited c content hcode)
      cases content with
      | error e => exact absurd (.unreadable c e) hfailed
      | ok bytes =>
        rw [verdict_ok]
        simp only [compared, if_neg hcode]
        exact ⟨_, rfl, rfl⟩

theorem error_ofFailure_ne_nil (f reason : Text) : (FileCheck.ofFailure f reason).error ≠ [] := by
  simp [FileCheck.ofFailure]

theorem remarks_ofFailure (f reason : Text) :
    (FileCheck.ofFailure f reason).remarks = [f ++ ": ".toList ++ reason] := by
  simp [FileCheck.remarks, FileCheck.ofFailure]

theorem envelopeOf_isolates {files : List Text} {failed : Text → Prop} {k : Text → FileCheck}
    (hfile : ∀ f ∈ files, (k f).file = f)
    (hfailed : ∀ f ∈ files, failed f → ∃ reason, k f = FileCheck.ofFailure f reason) :
    (envelopeOf (files.map k)).Isolates files failed := by
  constructor
  · intro c hc hc'
    obtain ⟨check, hcheck, rfl⟩ := List.mem_map.1 hc
    obtain ⟨hcheck, hchanges⟩ := List.mem_filter.1 hcheck
    obtain ⟨f, hf, rfl⟩ := List.mem_map.1 hcheck
    rw [hfile f hf] at hc'
    obtain ⟨reason, hk⟩ := hfailed f hf hc'
    rw [hk] at hchanges
    exact of_decide_eq_true hchanges rfl
  · rintro ⟨f, hf, hf'⟩
    obtain ⟨reason, hk⟩ := hfailed f hf hf'
    rw [status_eq_one]
    exact ⟨k f, List.mem_map_of_mem hf, Or.inr (hk ▸ error_ofFailure_ne_nil f reason)⟩
  · refine ⟨fun f => (k f).remarks, ?_, ?_⟩
    · rw [← List.flatMap_map]
      rfl
    · intro f hf hf'
      obtain ⟨reason, hk⟩ := hfailed f hf hf'
      refine ⟨f ++ ": ".toList ++ reason, ?_, List.prefix_append _ _⟩
      exact (congrArg FileCheck.remarks hk).trans (remarks_ofFailure f reason)

end Files

/-- In every session that commands of the files lead to, the check of `part` returns `e`. -/
def Yields (a : ClangFormat) (h : Host) (root : Path) (words : List Text) (tree : FileTree)
    (files part : List Text) (e : Envelope) : Prop :=
  ∀ begun s, Reached a h root words tree files begun s.tree →
    ((a.checkFiles root part).exec h s).1 = .ok e

/-- Check mode takes lists of files put together to envelopes put together, and keeps the files
that fail apart from the others. -/
theorem checkFiles_append (a : ClangFormat) {h : Host} {root : Path} {words : List Text}
    {tree : FileTree} {xs ys : List Text} {fate : Text → Fate}
    (hwords : ShellWords.split a.launcher = .ok words)
    (hfate : a.Determines h root words tree (xs ++ ys) fate)
    (hsurvived : ∀ f ∈ xs ++ ys, (fate f).IsSurvived) :
    ∃ d d' e, a.Yields h root words tree (xs ++ ys) xs d ∧
      a.Yields h root words tree (xs ++ ys) ys d' ∧
      a.Yields h root words tree (xs ++ ys) (xs ++ ys) e ∧
      e.Joins d d' ∧ e.Isolates (xs ++ ys) fun f => (fate f).IsFailed := by
  have : Nonempty FileCheck := ⟨FileCheck.ofFailure [] []⟩
  have hverdict : ∀ f ∈ xs ++ ys, ∃ k, a.verdict words f (fate f) = .ok k ∧ k.file = f :=
    fun f hf => exists_verdict (hsurvived f hf)
  choose! k hk using hverdict
  have hyields : ∀ part, part ⊆ xs ++ ys →
      a.Yields h root words tree (xs ++ ys) part (envelopeOf (part.map k)) := by
    intro part hpart begun s hs
    rw [checkFiles_verdicts hwords hfate hs hpart, mapM_eq_ok fun f hf => (hk f (hpart hf)).1]
    rfl
  refine ⟨_, _, _, hyields xs (List.subset_append_left xs ys),
    hyields ys (List.subset_append_right xs ys), hyields _ (List.Subset.refl _), ?_, ?_⟩
  · rw [List.map_append]
    exact envelopeOf_joins _ _
  · apply envelopeOf_isolates fun f hf => (hk f hf).2
    intro f hf hfailed
    obtain ⟨reason, hreason⟩ := verdict_of_isFailed (a := a) (hsurvived f hf) hfailed
    exact ⟨reason, Except.ok.inj ((hk f hf).1.symm.trans hreason)⟩

def brittleEnding (file : Option Text) : Outcome :=
  if file = some "b.c".toList then .exited 1 none (some (.bytes (Utf8.encode "bad\n".toList)))
  else .exited 0 (some (.bytes (Utf8.encode "int x;\n".toList))) none

/-- The formatter removes `c.c` when it is run for it. -/
def brittleHost : Host :=
  { uniformHost with
    launch := fun l tree => (brittleEnding l.args.getLast?,
      if l.args.getLast? = some "c.c".toList then tree.remove [] (Path.ofText "/c.c".toList)
      else tree) }

def twoEntries : List (Text × FileTree) :=
  [("a.c".toList, .file (Utf8.encode "int  x;".toList) true false),
    ("b.c".toList, .file [] true false)]

def threeFiles : FileTree :=
  .dir (("c.c".toList, .file [] true false) :: twoEntries)

def threePaths : List Text :=
  ["a.c".toList] ++ ["b.c".toList, "c.c".toList]

theorem mem_threePaths {f : Text} (hf : f ∈ threePaths) :
    f = "a.c".toList ∨ f = "b.c".toList ∨ f = "c.c".toList := by
  simpa [threePaths] using hf

def xcrunWords : List Text :=
  ["xcrun".toList, "--run".toList]

def brittleFate (file : Text) : Fate :=
  ⟨Command.complete (["/bin/xcrun".toList, "--run".toList, program, "--style=file".toList, file])
    .null (brittleEnding (some file)),
    (FileTree.dir twoEntries).read [] (Path.join (Path.ofText ['/']) (Path.ofText file))⟩

theorem exec_brittleHost {f : Text} (hf : f ∈ threePaths) (s : Session) :
    let ran := (uniformFormat.runner (uniformFormat.fileWords xcrunWords f)
      (uniformFormat.options (Path.ofText ['/']))).exec brittleHost s
    ran.1 = (brittleFate f).result ∧
      ran.2.tree = if f = "c.c".toList then s.tree.remove [] (Path.ofText "/c.c".toList)
        else s.tree := by
  obtain rfl | rfl | rfl := mem_threePaths hf
  · exact ⟨rfl, rfl⟩
  · exact ⟨rfl, rfl⟩
  · exact ⟨rfl, rfl⟩

theorem reached_threeFiles {begun : List Text} {t : FileTree}
    (ht : Reached uniformFormat brittleHost (Path.ofText ['/']) xcrunWords threeFiles threePaths
      begun t) : t = threeFiles ∧ "c.c".toList ∉ begun ∨ t = .dir twoEntries := by
  induction ht with
  | start => exact Or.inl ⟨rfl, List.not_mem_nil⟩
  | @run begun s f _ hf ih =>
    rw [(exec_brittleHost hf s).2]
    by_cases hc : f = "c.c".toList
    · rw [if_pos hc]
      obtain ⟨hs, -⟩ | hs := ih <;> rw [hs] <;> exact Or.inr rfl
    · rw [if_neg hc]
      obtain ⟨hs, hbegun⟩ | hs := ih
      · refine Or.inl ⟨hs, fun hmem => ?_⟩
        obtain heq | hmem := List.mem_cons.1 hmem
        · exact hc heq.symm
        · exact hbegun hmem
      · exact Or.inr hs

theorem determines_brittleFate :
    uniformFormat.Determines brittleHost (Path.ofText ['/']) xcrunWords threeFiles threePaths
      brittleFate := by
  constructor
  · intro begun s _ f hf
    exact (exec_brittleHost hf s).1
  · intro begun t ht f hf c _ _
    obtain ⟨rfl, hc⟩ | rfl := reached_threeFiles ht
    · obtain rfl | rfl | rfl := mem_threePaths (ht.subset hf)
      · rfl
      · rfl
      · exact absurd hf hc
    · rfl

theorem isSurvived_brittleFate {f : Text} (hf : f ∈ threePaths) : (brittleFate f).IsSurvived := by
  obtain rfl | rfl | rfl := mem_threePaths hf
  · exact ⟨fun _ hr => (nomatch hr), fun _ he => (nomatch he)⟩
  · exact ⟨fun _ hr => (nomatch hr), fun _ he => (nomatch he)⟩
  · refine ⟨fun _ hr => (nomatch hr), fun e he => ?_⟩
    obtain rfl := Except.error.inj he
    decide

/-- One file is not as the formatter prints it, and the other two fail. -/
theorem checkFiles_three_files :
    ∃ d d' e,
      uniformFormat.Yields brittleHost (Path.ofText ['/']) xcrunWords threeFiles threePaths
        ["a.c".toList] d ∧
      uniformFormat.Yields brittleHost (Path.ofText ['/']) xcrunWords threeFiles threePaths
        ["b.c".toList, "c.c".toList] d' ∧
      uniformFormat.Yields brittleHost (Path.ofText ['/']) xcrunWords threeFiles threePaths
        threePaths e ∧
      e.Joins d d' ∧ e.Isolates threePaths fun f => (brittleFate f).IsFailed := by
  have hsplit : ShellWords.split uniformFormat.launcher = .ok xcrunWords := by
    decide
  exact checkFiles_append uniformFormat hsplit determines_brittleFate
    fun _ hf => isSurvived_brittleFate hf

end ClangFormat

end FormatAudit
