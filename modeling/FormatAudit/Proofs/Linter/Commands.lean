import FormatAudit.Proofs.Config.Settings
import FormatAudit.Proofs.Linter.Check
import FormatAudit.Proofs.Linter.Verdict

/-! Commands of a formatter whose launcher was put together from words. These words come first in
each of its commands, and where a command cannot be run, the message has a text in it that splits
into the words of the command. -/
namespace FormatAudit.ClangFormat

open Run

def checkMessage (file command : Text) (f : Failure) : Text :=
  file ++ ": ".toList ++ ("unable to run ".toList ++ command ++ ": ".toList ++ f.message)

def fixMessage (command : Text) (f : Failure) : Text :=
  "Unable to run ".toList ++ command ++ ": ".toList ++ f.message

def warned (a : ClangFormat) (h : Host) (s : Session) (line : Text) : Session :=
  { s with
    printed := s.printed ++
      [Console.message .warn line a.output.emoji (a.output.color && h.isTerminal)]
    consoles := (s.consoles.get ⟨a.output.color, a.output.emoji, h.isTerminal⟩).2 }

theorem exec_warn (a : ClangFormat) (h : Host) (s : Session) (line : Text) :
    (a.warn line).exec h s = (.ok (), a.warned h s line) :=
  exec_say _ _ _ _

/-- A command could not be run, which the formatter survives. -/
structure CannotRun (a : ClangFormat) (h : Host) (root : Path) (words : List Text) (s : Session)
    (f : Failure) (t : Session) : Prop where
  exec_eq : (a.runner words (a.options root)).exec h s = (.error f, t)
  isOfCommand : f.isOfCommand

section CannotRun

variable {a : ClangFormat} {h : Host} {root : Path} {words : List Text} {s t : Session}
  {f : Failure}

theorem exec_survive_of_cannotRun (hrun : a.CannotRun h root words s f t) :
    (a.survive root words).exec h s = (.ok (.error f.message), t) := by
  rw [exec_survive, hrun.exec_eq, survived, if_pos hrun.isOfCommand]

theorem exec_check_of_cannotRun {file : Text} (hwords : ShellWords.split a.launcher = .ok words)
    (hrun : a.CannotRun h root (a.fileWords words file) s f t) :
    let line := checkMessage file (ShellWords.join (a.fileWords words file)) f
    (a.check root file).exec h s = (.ok ⟨file, [], line, []⟩, a.warned h t line) := by
  have hstart : (a.start root file).exec h s =
      (.ok ⟨file, a.fileWords words file, .error f.message⟩, t) := by
    rw [exec_start_ok hwords, hrun.exec_eq]
    dsimp only
    rw [survived, if_pos hrun.isOfCommand]
    rfl
  rw [check, exec_bind, hstart]
  change ((a.warn _ >>= fun _ => pure _).exec h t) = _
  rw [exec_bind, exec_warn]
  rfl

theorem exec_fixFiles_of_cannotRun {files : List Text} (hfiles : files ≠ [])
    (hwords : ShellWords.split a.launcher = .ok words)
    (hrun : a.CannotRun h root (words ++ program :: (fixFlag :: a.args ++ files)) s f t) :
    (a.fixFiles root files).exec h s = (.ok ⟨1, [], f.message⟩,
      a.warned h t (fixMessage
        (ShellWords.join (words ++ program :: (fixFlag :: a.args ++ files))) f)) := by
  rw [fixFiles, if_neg hfiles, exec_bind, exec_command_ok hwords]
  dsimp only
  rw [exec_bind, exec_survive_of_cannotRun hrun]
  change ((a.warn _ >>= fun _ => pure _).exec h t) = _
  rw [exec_bind, exec_warn]
  rfl

end CannotRun

/-- Words may be given as they are or joined to a text. Arguments are read alike in both forms; the
words of a launcher come before the program in the command for a file; and a message that a command
could not be run names it by a text that splits into its words. -/
theorem words_are_kept (a : ClangFormat) (h : Host) (root : Path) (launcher args : List Text) :
    let b := { a with launcher := ShellWords.join launcher, args := args }
    Settings.ReadsArgs (.text (ShellWords.join args)) args ∧
      (∀ file, let words := launcher ++ program :: (args ++ [file])
        (∀ s, (b.command (b.args ++ [file])).exec h s = (.ok words, s)) ∧
          ∀ s f t, b.CannotRun h root words s f t →
            ∃ command, ShellWords.split command = .ok words ∧
              (b.check root file).exec h s =
                (.ok ⟨file, [], checkMessage file command f, []⟩,
                  b.warned h t (checkMessage file command f))) ∧
      ∀ files ≠ [], let words := launcher ++ program :: (fixFlag :: args ++ files)
        ∀ s f t, b.CannotRun h root words s f t →
          ∃ command, ShellWords.split command = .ok words ∧
            (b.fixFiles root files).exec h s =
              (.ok ⟨1, [], f.message⟩, b.warned h t (fixMessage command f)) := by
  intro b
  have hlauncher : ShellWords.split b.launcher = .ok launcher := ShellWords.split_join launcher
  refine ⟨Settings.readsArgs_of_readArgs (Settings.readArgs_join args), fun file => ⟨?_, ?_⟩, ?_⟩
  · exact fun s => exec_command_ok hlauncher _
  · intro s f t hrun
    exact ⟨_, ShellWords.split_join _, exec_check_of_cannotRun hlauncher hrun⟩
  · intro files hfiles _ s f t hrun
    exact ⟨_, ShellWords.split_join _, exec_fixFiles_of_cannotRun hfiles hlauncher hrun⟩

def strippedHost : Host :=
  { uniformHost with find := fun _ => none }

/-- A launcher with a blank, a quote and a backslash in its words, one of which is empty, and an
argument with braces and a blank. The launcher is not found. -/
theorem words_are_kept_quotes :
    let root := Path.ofText ['/']
    let file := "a.c".toList
    let launcher := ["tool's".toList, [], "a b\\".toList]
    let args := ["--style={BasedOnStyle: LLVM}".toList]
    let words := launcher ++ program :: (args ++ [file])
    let b := { uniformFormat with launcher := ShellWords.join launcher, args := args }
    let f := Failure.notOnPath "tool's".toList
    b.launcher = "'tool'\"'\"'s' '' 'a b\\'".toList ∧
      Settings.ReadsArgs (.text "'--style={BasedOnStyle: LLVM}'".toList) args ∧
      ∃ t command, b.CannotRun strippedHost root words (.start twoFiles) f t ∧
        ShellWords.split command = .ok words ∧
        (b.check root file).exec strippedHost (.start twoFiles) =
          (.ok ⟨file, [], checkMessage file command f, []⟩,
            b.warned strippedHost t (checkMessage file command f)) := by
  intro root file launcher args words b f
  obtain ⟨hargs, hfile, -⟩ := words_are_kept uniformFormat strippedHost root launcher args
  have hrun : b.CannotRun strippedHost root words (.start twoFiles) f
      { Session.start twoFiles with lookups := ["tool's".toList] } := ⟨rfl, rfl⟩
  obtain ⟨command, hsplit, hcheck⟩ := (hfile file).2 _ _ _ hrun
  exact ⟨rfl, hargs, _, command, hrun, hsplit, hcheck⟩

end FormatAudit.ClangFormat
