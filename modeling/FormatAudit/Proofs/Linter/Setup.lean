import FormatAudit.Proofs.Linter.Survival

/-! The verification of a formatter, and what it says about the commands that are run afterwards. If
it succeeds, all of them begin with programs that it has looked up and found. The exception is a
launcher of blanks of which some do not separate words on a command line: it counts as no launcher
when the formatter is verified, and as a program when the formatter is run. -/
namespace FormatAudit

theorem ShellWords.split_of_isGap {t : Text} (h : ∀ c ∈ t, isGap c) : split t = .ok [] := by
  rw [split]
  induction t with
  | nil => rfl
  | cons c r ih =>
    obtain ⟨hc, hr⟩ := List.forall_mem_cons.1 h
    rw [scan, if_pos hc, ih hr]

namespace ClangFormat

open Run

/-- Only these programs are run to check and to fix files. How commands of other programs end makes
no difference, and what the host launches are commands of these programs as it resolves them. -/
structure RunsOnly (a : ClangFormat) (programs : List Text) : Prop where
  commands : ∀ runner, (∀ p ∈ programs, ∀ more, runner (p :: more) = a.runner (p :: more)) →
    { a with runner := runner }.lint = a.lint
  launches : a.runner = hostRunner → ∀ h s root extensions fix,
    ∀ l ∈ ((a.lint root extensions fix).exec h s).2.launches,
      l ∈ s.launches ∨ ∃ p ∈ programs, ∃ more, h.resolved? (p :: more) = some l.args

variable {a : ClangFormat} {h : Host} {s : Session} {root : Path} {words programs : List Text}

/-! ### The programs that are looked up -/

theorem lookUp_cons (p : Text) (programs : List Text) :
    lookUp (p :: programs) = Run.find p >>= fun found =>
      if found.isNone then throw (.notInstalled name p) else lookUp programs := by
  rw [lookUp, List.forIn_cons, bind_assoc, bind_assoc]
  refine bind_congr fun found => ?_
  cases found <;> rfl

theorem exec_lookUp (hok : ((lookUp programs).exec h s).1 = .ok ()) :
    ((lookUp programs).exec h s).2.lookups = s.lookups ++ programs ∧
      ∀ p ∈ programs, (h.find p).isSome := by
  induction programs generalizing s with
  | nil => exact ⟨(List.append_nil _).symm, by simp⟩
  | cons p programs ih =>
    rw [lookUp_cons, exec_bind, exec_find] at hok ⊢
    dsimp only at hok ⊢
    cases hfound : h.find p with
    | none =>
      rw [hfound] at hok
      cases hok
    | some found =>
      rw [hfound] at hok
      obtain ⟨hlookups, hall⟩ := ih hok
      refine ⟨hlookups.trans ?_, List.forall_mem_cons.2 ⟨by rw [hfound]; rfl, hall⟩⟩
      rw [List.append_assoc, List.singleton_append]

theorem exec_required
    (hblank : Text.strip a.launcher = [] → ∀ c ∈ a.launcher, ShellWords.isGap c)
    (hok : (a.required.exec h s).1 = .ok programs) :
    (a.required.exec h s).2 = s ∧ program ∈ programs ∧
      ∃ words, ShellWords.split a.launcher = .ok words ∧
        ∀ more, ∃ p ∈ programs, ∃ rest, words ++ program :: more = p :: rest := by
  rw [required] at hok ⊢
  by_cases hstrip : Text.strip a.launcher = []
  · rw [if_pos hstrip] at hok ⊢
    cases hok
    have hempty := ShellWords.split_of_isGap (hblank hstrip)
    exact ⟨rfl, List.mem_singleton_self _, [], hempty, fun more =>
      ⟨program, List.mem_singleton_self _, more, rfl⟩⟩
  · rw [if_neg hstrip] at hok ⊢
    rw [launcherWords, exec_bind, exec_ofExcept] at hok ⊢
    cases hsplit : ShellWords.split a.launcher with
    | error fault =>
      rw [hsplit] at hok
      cases hok
    | ok words =>
      rw [hsplit] at hok
      cases words with
      | nil =>
        cases hok
        exact ⟨rfl, List.mem_singleton_self _, [], rfl, fun more =>
          ⟨program, List.mem_singleton_self _, more, rfl⟩⟩
      | cons first rest =>
        cases hok
        exact ⟨rfl, by simp, first :: rest, rfl, fun more =>
          ⟨first, List.mem_cons_self, rest ++ program :: more, rfl⟩⟩

/-! ### The commands that are run -/

section Commands

variable (hwords : ShellWords.split a.launcher = .ok words)
  (hbegin : ∀ more, ∃ p ∈ programs, ∃ rest, words ++ program :: more = p :: rest)
include hwords hbegin

theorem command_bind_survive_congr {runner : List Text → Command.Options → Run Completed}
    (hrunner : ∀ p ∈ programs, ∀ more, runner (p :: more) = a.runner (p :: more))
    (more : List Text) {β : Type} (next : List Text → Except Text Completed → Run β) :
    (do
      let ws ← a.command more
      next ws (← { a with runner := runner }.survive root ws)) =
    (do
      let ws ← a.command more
      next ws (← a.survive root ws)) := by
  have hcommand : a.command more = pure (words ++ program :: more) := by
    rw [command, launcherWords, hwords]
    rfl
  have hsurvive : { a with runner := runner }.survive root (words ++ program :: more) =
      a.survive root (words ++ program :: more) := by
    obtain ⟨p, hp, rest, heq⟩ := hbegin more
    have hsame : { a with runner := runner }.runner (p :: rest) = a.runner (p :: rest) :=
      hrunner p hp rest
    rw [survive, survive, heq, hsame]
    rfl
  simp only [hcommand, pure_bind, hsurvive]

theorem lint_congr {runner : List Text → Command.Options → Run Completed}
    (hrunner : ∀ p ∈ programs, ∀ more, runner (p :: more) = a.runner (p :: more)) :
    { a with runner := runner }.lint = a.lint := by
  have hstart : { a with runner := runner }.start = a.start := by
    funext root file
    exact command_bind_survive_congr hwords hbegin hrunner (a.args ++ [file])
      fun ws result => pure (Started.mk file ws result)
  have hcheck : { a with runner := runner }.checkFiles = a.checkFiles := by
    funext root files
    rw [checkFiles, checkFiles, hstart]
    rfl
  have hfix : { a with runner := runner }.fixFiles = a.fixFiles := by
    funext root files
    rw [fixFiles, fixFiles]
    split
    · rfl
    · exact command_bind_survive_congr hwords hbegin hrunner (fixFlag :: a.args ++ files) _
  funext root extensions fix
  rw [lint, lint, hcheck, hfix]

theorem launches_lint (hrunner : a.runner = hostRunner) (extensions : List Text) (fix : Bool) :
    ∀ l ∈ ((a.lint root extensions fix).exec h s).2.launches,
      l ∈ s.launches ∨ ∃ p ∈ programs, ∃ more, h.resolved? (p :: more) = some l.args := by
  -- the invariant of the launches, which each command of the formatter keeps
  let P : List Launch → Prop := fun ls => ∀ l ∈ ls,
    l ∈ s.launches ∨ ∃ p ∈ programs, ∃ more, h.resolved? (p :: more) = some l.args
  have hadd : ∀ words, ShellWords.split a.launcher = .ok words → ∀ more ls l, P ls →
      h.resolved? (words ++ program :: more) = some l.args → P (ls ++ [l]) := by
    intro words' hwords' more ls l hls hl
    obtain rfl := Except.ok.inj (hwords'.symm.trans hwords)
    obtain ⟨p, hp, rest, heq⟩ := hbegin more
    rw [heq] at hl
    refine List.forall_mem_append.2 ⟨hls, fun l' hl' => ?_⟩
    obtain rfl := List.mem_singleton.1 hl'
    exact .inr ⟨p, hp, rest, hl⟩
  have hrespects : a.Respects h P (fun _ => True) root :=
    respects_of_hostRunner hrunner (fun _ _ => trivial) (fun _ _ => trivial)
      (fun _ _ _ _ => .inr trivial) hadd
  exact (lint_isBounded hrespects (fun _ _ _ => trivial) fix s fun l hl => .inl hl).2

end Commands

/-- A verification that succeeds has looked up and found the formatter itself, and every program
that the formatter is run with, to check files or to fix them. A launcher without a word is taken to
be made of gaps only. -/
theorem runsOnly_of_verify (a : ClangFormat) {h : Host} {s : Session}
    (hverified : (a.verify.exec h s).1 = .ok ())
    (hblank : Text.strip a.launcher = [] → ∀ c ∈ a.launcher, ShellWords.isGap c) :
    ∃ programs, (a.verify.exec h s).2.lookups = s.lookups ++ programs ∧
      (∀ p ∈ programs, (h.find p).isSome) ∧ program ∈ programs ∧ a.RunsOnly programs := by
  have hverify : a.verify = a.required >>= lookUp := rfl
  rw [hverify] at hverified ⊢
  obtain ⟨programs, s', hrequired, hlookUp⟩ := exists_of_exec_bind hverified
  obtain ⟨hsame, hprogram, words, hwords, hbegin⟩ :=
    exec_required hblank (congrArg Prod.fst hrequired)
  obtain rfl : s' = s := by rwa [hrequired] at hsame
  obtain ⟨hlookups, hfound⟩ := exec_lookUp hlookUp
  refine ⟨programs, ?_, hfound, hprogram, fun runner hrunner => ?_, ?_⟩
  · rw [exec_bind, hrequired]
    exact hlookups
  · exact lint_congr hwords hbegin hrunner
  · intro hrunner h' s' root extensions fix
    exact launches_lint hwords hbegin hrunner extensions fix

theorem runsOnly_of_verify_xcrun :
    (uniformFormat.verify.exec uniformHost (.start twoFiles)).1 = .ok () ∧
      ∃ programs, (uniformFormat.verify.exec uniformHost (.start twoFiles)).2.lookups =
          [] ++ programs ∧
        (∀ p ∈ programs, (uniformHost.find p).isSome) ∧ program ∈ programs ∧
          uniformFormat.RunsOnly programs := by
  have hverified : (uniformFormat.verify.exec uniformHost (.start twoFiles)).1 = .ok () := by
    decide
  have hstrip : Text.strip uniformFormat.launcher ≠ [] := by decide
  exact ⟨hverified, runsOnly_of_verify uniformFormat hverified fun hblank => absurd hblank hstrip⟩

/-- A form feed is no launcher to the verification, but it is the program that the formatter is
launched with. -/
theorem lint_form_feed :
    let a := { uniformFormat with args := [], launcher := ['\x0c'], jobs := 1 }
    (a.verify.exec uniformHost (.start twoFiles)).1 = .ok () ∧
      (a.verify.exec uniformHost (.start twoFiles)).2.lookups = [program] ∧
      ((a.lint (Path.ofText ['/']) [['c']] true).exec uniformHost (.start twoFiles)).2.launches.map
          Launch.args =
        [["/bin/\x0c".toList, program, fixFlag, "a.c".toList, "b.c".toList]] := by
  decide +kernel

end ClangFormat

end FormatAudit
