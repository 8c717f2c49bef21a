import FormatAudit.Proofs.Linter.Check
import FormatAudit.Proofs.Linter.Verdict
import FormatAudit.Proofs.Result

/-! How many files are checked at a time changes nothing about what check mode comes to, and neither
does the order in which the checks make their steps. The formatter may fail or raise for any file;
all that is assumed is that it does the same for a file whenever it is run. -/
namespace FormatAudit.ClangFormat

open Run

/-- In sessions with the files of `tree`, the command for a file comes to an outcome that depends
on its words alone, whatever the schedule, and leaves all files as they are. -/
def Repeats (a : ClangFormat) (h : Host) (root : Path) (words : List Text) (tree : FileTree)
    (files : List Text) : Prop :=
  ∃ outcome : List Text → Except Failure Completed, ∀ f ∈ files, ∀ schedule,
    Ensures { h with schedule := schedule } (fun s => s.tree = tree)
      (a.runner (a.fileWords words f) (a.options root)) (· = outcome (a.fileWords words f))

/-- The check of one of the files fails with `e`, and those of all files before it do not fail. -/
def FailsFirst (a : ClangFormat) (h : Host) (s : Session) (root : Path) (files : List Text)
    (e : Failure) : Prop :=
  ∃ before file after, files = before ++ file :: after ∧
    (∀ f ∈ before, ∃ c, ((a.check root f).exec h s).1 = .ok c) ∧
    ((a.check root file).exec h s).1 = .error e

section Jobs

variable {a : ClangFormat} {h : Host} {root : Path} {words : List Text} {tree : FileTree}
  {files : List Text} {s : Session}

theorem reached_eq {schedule : Nat → List Nat} {begun : List Text} {t : FileTree}
    (hrun : ∀ f ∈ files, ∀ s, s.tree = tree → ((a.runner (a.fileWords words f)
      (a.options root)).exec { h with schedule := schedule } s).2.tree = tree)
    (ht : Reached a { h with schedule := schedule } root words tree files begun t) : t = tree := by
  induction ht with
  | start => rfl
  | @run begun s f _ hf ih => exact hrun f hf s ih

theorem determines_of_repeats {outcome : List Text → Except Failure Completed}
    (hrun : ∀ f ∈ files, ∀ schedule, Ensures { h with schedule := schedule }
      (fun s => s.tree = tree) (a.runner (a.fileWords words f) (a.options root))
      (· = outcome (a.fileWords words f))) (schedule : Nat → List Nat) :
    a.Determines { h with schedule := schedule } root words tree files fun f =>
      ⟨outcome (a.fileWords words f), tree.read h.here (Path.join root (Path.ofText f))⟩ := by
  have htree : ∀ f ∈ files, ∀ s, s.tree = tree → ((a.runner (a.fileWords words f)
      (a.options root)).exec { h with schedule := schedule } s).2.tree = tree :=
    fun f hf s hs => (hrun f hf schedule s hs).2
  constructor
  · intro begun s hs f hf
    exact (hrun f hf schedule s (reached_eq htree hs)).1
  · intro begun t ht f _ c _ _
    rw [reached_eq htree ht]

/-- With any number of jobs and under any schedule, check mode puts together what the checks of the
files come to on their own, one after the other. -/
theorem checkFiles_eq_mapM_check
    (hrun : ∀ words, ShellWords.split a.launcher = .ok words →
      a.Repeats h root words s.tree files) (jobs : Int) (schedule : Nat → List Nat) :
    (({ a with jobs := jobs }.checkFiles root files).exec { h with schedule := schedule } s).1 =
      (files.mapM fun f => ((a.check root f).exec h s).1).map envelopeOf := by
  cases hwords : ShellWords.split a.launcher with
  | error fault =>
    -- no command can be put together, so every check fails before it runs anything
    have hcheck : ∀ f, ((a.check root f).exec h s).1 = .error (.quoting fault) := by
      intro f
      rw [check, exec_bind, exec_start_error hwords]
    refine checkFiles_eq_mapM (K := fun (_ : Unit) _ => True) fun f _ t _ => ?_
    rw [exec_start_error (a := { a with jobs := jobs }) hwords]
    exact ⟨Keeps.refl t, (hcheck f).symm⟩
  | ok words =>
    obtain ⟨outcome, houtcome⟩ := hrun words hwords
    have hcheck : ∀ f ∈ files, ((a.check root f).exec h s).1 = a.verdict words f
        ⟨outcome (a.fileWords words f), s.tree.read h.here (Path.join root (Path.ofText f))⟩ :=
      fun f hf => check_verdict hwords (determines_of_repeats houtcome h.schedule) .start hf
    refine checkFiles_eq_mapM (K := Begun { a with jobs := jobs } { h with schedule := schedule }
      root words s.tree files) fun f hf => ?_
    rw [hcheck f hf]
    exact start_promises (a := { a with jobs := jobs }) hwords
      (determines_of_repeats (a := { a with jobs := jobs }) houtcome schedule) hf
      ⟨[], List.nil_subset _, .start⟩

/-- The number of jobs does not matter, and neither does the schedule: check mode returns the same
envelope as with one job, or it fails as the first check that fails. -/
theorem checkFiles_any_jobs (a : ClangFormat) {h : Host} {s : Session} {root : Path}
    {files : List Text}
    (hrun : ∀ words, ShellWords.split a.launcher = .ok words →
      a.Repeats h root words s.tree files) (jobs : Int) (schedule : Nat → List Nat) :
    (({ a with jobs := jobs }.checkFiles root files).exec { h with schedule := schedule } s).1 =
        (({ a with jobs := 1 }.checkFiles root files).exec h s).1 ∧
      ∀ e, (({ a with jobs := 1 }.checkFiles root files).exec h s).1 = .error e ↔
        a.FailsFirst h s root files e := by
  have hone := checkFiles_eq_mapM_check hrun 1 h.schedule
  refine ⟨(checkFiles_eq_mapM_check hrun jobs schedule).trans hone.symm, ?_⟩
  intro e
  rw [hone]
  constructor
  · intro he
    apply first_of_mapM_eq_error
    cases hr : files.mapM fun f => ((a.check root f).exec h s).1 with
    | error e' =>
      rw [hr] at he
      cases he
      rfl
    | ok checks =>
      rw [hr] at he
      cases he
  · rintro ⟨before, file, after, rfl, hbefore, hfile⟩
    rw [mapM_eq_error hbefore hfile after]
    rfl

end Jobs

def endingOf (file : Option Text) : Outcome :=
  if file = some "b.c".toList then .failed (.foreign .other "MemoryError".toList [])
  else if file = some "d.c".toList then
    .failed (.foreign .interruption "KeyboardInterrupt".toList [])
  else .exited 0 (some (.bytes (Utf8.encode "int x;\n".toList))) none

/-- Of three tasks the last one is done first. -/
def raisingHost : Host :=
  { uniformHost with
    launch := fun l tree => (endingOf l.args.getLast?, tree)
    schedule := fun _ => [2, 2, 1, 0] }

/-- The file that fails first is the first of the two that fail, though the other one is done before
it. -/
theorem checkFiles_three_jobs :
    (({ uniformFormat with jobs := 3 }.checkFiles (Path.ofText ['/'])
      ["a.c".toList, "b.c".toList, "d.c".toList]).exec raisingHost (Session.start twoFiles)).1 =
        .error (.foreign .other "MemoryError".toList []) := by
  have hrun : ∀ words, ShellWords.split uniformFormat.launcher = .ok words →
      uniformFormat.Repeats raisingHost (Path.ofText ['/']) words twoFiles
        ["a.c".toList, "b.c".toList, "d.c".toList] := by
    intro words hwords
    have hsplit : ShellWords.split uniformFormat.launcher =
        .ok ["xcrun".toList, "--run".toList] := by
      decide
    obtain rfl := Except.ok.inj (hsplit.symm.trans hwords)
    refine ⟨fun ws => Command.complete ("/bin/xcrun".toList :: ws.tail) .null
      (endingOf ws.getLast?), ?_⟩
    intro f hf schedule s hs
    simp only [List.mem_cons, List.not_mem_nil, or_false] at hf
    obtain rfl | rfl | rfl := hf
    · exact ⟨rfl, hs⟩
    · exact ⟨rfl, hs⟩
    · exact ⟨rfl, hs⟩
  obtain ⟨hsame, hfirst⟩ := checkFiles_any_jobs (s := Session.start twoFiles) uniformFormat hrun 3
    raisingHost.schedule
  refine hsame.trans ((hfirst _).2 ⟨["a.c".toList], "b.c".toList, ["d.c".toList], rfl, ?_, ?_⟩)
  · intro f hf
    obtain rfl := List.mem_singleton.1 hf
    exact ⟨_, rfl⟩
  · rfl

end FormatAudit.ClangFormat
