import FormatAudit.Proofs.Command.Overrides
import FormatAudit.Proofs.Session.Ensures
import FormatAudit.Proofs.Text.Numeral

/-! The stages of a command: its program is looked for, its overrides are checked, its environment is
put together, it is launched, and its end is judged. The first stage that fails decides, and nothing
is launched before the last check has passed. How the command comes out is left to the host. -/
namespace FormatAudit

/-- A command with the program that it begins with as the host resolves it: an absolute path stands
for itself, and any other name for what is found for it. -/
def Host.resolved? (h : Host) : List Text → Option (List Text)
  | [] => none
  | p :: rest =>
    if (Path.ofText p).isAbsolute then some ((Path.ofText p).text :: rest)
    else (h.find p).map (· :: rest)

theorem Binary64.newline_not_mem_tenthsText (x : Binary64) : '\n' ∉ x.tenthsText := by
  have hdigits : ∀ n, '\n' ∉ Text.ofNat n := fun _ => Text.not_mem_ofNat (by decide)
  cases x with
  | nan => decide
  | infinite negative => cases negative <;> decide
  | finite negative m e =>
    cases negative <;> simp [tenthsText, hdigits]

namespace Command

open Run

def Options.launch (o : Options) (words : List Text) (environment : Value) : Launch :=
  ⟨words, directoryText o.directory, environment, o.captureOutput, o.asText, o.timeout,
    o.discardInput.holds⟩

/-! ### What comes before the launch -/

/-- What keeps a command from being launched. Each case has the earlier ones behind it. -/
inductive Hindered (h : Host) (o : Options) (fs : Fields) : List Text → Failure → Prop
  | empty : Hindered h o fs [] .emptyCommand
  | notFound {program : Text} {rest : List Text}
    (hrelative : (Path.ofText program).isAbsolute = false) (hnone : h.find program = none) :
    Hindered h o fs (program :: rest) (.notOnPath program)
  | unknown {args words : List Text} (hwords : h.resolved? args = some words)
    (hunknown : Options.unknown fs ≠ []) :
    Hindered h o fs args (.unknownOptions ((Options.unknown fs).mergeSort Text.le))
  | negative {args words : List Text} (hwords : h.resolved? args = some words)
    (hknown : Options.unknown fs = [])
    (hnegative : Options.isNegative (o.overlay fs).timeout = true) :
    Hindered h o fs args .negativeTimeout
  | environment {args words : List Text} {fault : EnvironmentFault}
    (hwords : h.resolved? args = some words) (hknown : Options.unknown fs = [])
    (hlimit : Options.isNegative (o.overlay fs).timeout = false)
    (hfault : Command.environment (o.overlay fs).environment = .error fault) :
    Hindered h o fs args (.environment fault)

/-- Nothing keeps a command from being launched with these words and this environment. -/
structure Ready (h : Host) (o : Options) (fs : Fields) (args words : List Text)
    (environment : Value) : Prop where
  resolved : h.resolved? args = some words
  known : Options.unknown fs = []
  limit : Options.isNegative (o.overlay fs).timeout = false
  environment_eq : Command.environment (o.overlay fs).environment = .ok environment

section Before

variable {h : Host} {s : Session} {o : Options} {fs : Fields} {args words : List Text}
  {environment : Value}

theorem hindered_or_ready (h : Host) (o : Options) (fs : Fields) (args : List Text) :
    (∃ f, Hindered h o fs args f) ∨ ∃ words e, Ready h o fs args words e := by
  cases hwords : h.resolved? args with
  | none =>
    cases args with
    | nil => exact .inl ⟨_, .empty⟩
    | cons program rest =>
      by_cases habsolute : (Path.ofText program).isAbsolute = true
      · simp [Host.resolved?, habsolute] at hwords
      · rw [Bool.not_eq_true] at habsolute
        have hnone : h.find program = none := by simpa [Host.resolved?, habsolute] using hwords
        exact .inl ⟨_, .notFound habsolute hnone⟩
  | some words =>
    by_cases hknown : Options.unknown fs = []
    · cases hlimit : Options.isNegative (o.overlay fs).timeout with
      | true => exact .inl ⟨_, .negative hwords hknown hlimit⟩
      | false =>
        cases he : Command.environment (o.overlay fs).environment with
        | error fault => exact .inl ⟨_, .environment hwords hknown hlimit he⟩
        | ok e => exact .inr ⟨words, e, hwords, hknown, hlimit, he⟩
    · exact .inl ⟨_, .unknown hwords hknown⟩

def unresolved : List Text → Failure
  | [] => .emptyCommand
  | program :: _ => .notOnPath program

theorem exec_resolve (h : Host) (s : Session) (args : List Text) :
    ∃ looked, (resolve args).exec h s =
      ((h.resolved? args).elim (.error (unresolved args)) .ok, { s with lookups := looked }) := by
  cases args with
  | nil => exact ⟨_, rfl⟩
  | cons program rest =>
    rw [resolve, Host.resolved?]
    by_cases habsolute : (Path.ofText program).isAbsolute = true
    · rw [if_pos habsolute, if_pos habsolute]
      exact ⟨_, rfl⟩
    · rw [if_neg habsolute, if_neg habsolute]
      refine ⟨s.lookups ++ [program], ?_⟩
      rw [exec_bind, exec_find]
      cases h.find program <;> rfl

def perform (words : List Text) (o : Options) : Run Completed := do
  let outcome ← Run.launch (← Run.ofExcept .environment (toLaunch words o))
  let completed ← Run.ofExcept id (complete words o.timeout outcome)
  Run.ofExcept id (checked o completed)

theorem exec_run (hwords : h.resolved? args = some words) :
    ∃ looked, (run args o fs).exec h s =
      (Run.ofExcept id (o.override fs) >>= perform words).exec h { s with lookups := looked } := by
  obtain ⟨looked, hresolve⟩ := exec_resolve h s args
  refine ⟨looked, ?_⟩
  rw [run, exec_bind, hresolve, hwords]
  rfl

theorem exec_run_of_hindered {f : Failure} (hkeys : (fs.map (·.1)).Nodup)
    (hf : Hindered h o fs args f) :
    ∃ looked, (run args o fs).exec h s = (.error f, { s with lookups := looked }) := by
  cases hf with
  | empty => exact ⟨_, rfl⟩
  | @notFound program rest hrelative hnone =>
    obtain ⟨looked, hresolve⟩ := exec_resolve h s (program :: rest)
    have hwords : h.resolved? (program :: rest) = none := by
      simp [Host.resolved?, hrelative, hnone]
    refine ⟨looked, ?_⟩
    rw [run, exec_bind, hresolve, hwords]
    rfl
  | unknown hwords hunknown =>
    obtain ⟨looked, hrun⟩ := exec_run hwords
    refine ⟨looked, ?_⟩
    rw [hrun, Options.override_eq hkeys, if_pos hunknown]
    rfl
  | negative hwords hknown hnegative =>
    obtain ⟨looked, hrun⟩ := exec_run hwords
    refine ⟨looked, ?_⟩
    rw [hrun, Options.override_eq hkeys, if_neg (not_not.2 hknown), if_pos hnegative]
    rfl
  | environment hwords hknown hlimit hfault =>
    obtain ⟨looked, hrun⟩ := exec_run hwords
    have hoverride := (Options.override_eq_ok hkeys).2 ⟨hknown, hlimit, rfl⟩
    refine ⟨looked, ?_⟩
    rw [hrun, hoverride]
    change (perform _ _).exec h _ = _
    rw [perform, toLaunch, hfault]
    rfl

/-- A command that nothing keeps from it is launched once, and what it comes to is its end judged. -/
theorem exec_run_of_ready (hkeys : (fs.map (·.1)).Nodup)
    (hready : Ready h o fs args words environment) :
    let p := o.overlay fs
    let l := p.launch words environment
    ∃ looked, (run args o fs).exec h s =
      (complete words p.timeout (h.launch l s.tree).1 >>= checked p,
        { s with
          tree := (h.launch l s.tree).2
          lookups := looked
          launches := s.launches ++ [l] }) := by
  intro p l
  obtain ⟨looked, hrun⟩ := exec_run hready.resolved
  have hoverride := (Options.override_eq_ok hkeys).2 ⟨hready.known, hready.limit, rfl⟩
  refine ⟨looked, ?_⟩
  rw [hrun, hoverride]
  change (perform words p).exec h _ = _
  have hlaunch : toLaunch words p = .ok l := by
    rw [toLaunch, hready.environment_eq]
    rfl
  rw [perform, hlaunch]
  change (Run.launch l >>= fun outcome =>
    Run.ofExcept id (complete words p.timeout outcome) >>= fun completed =>
      Run.ofExcept id (checked p completed)).exec h _ = _
  have hexec : (Run.launch l).exec h { s with lookups := looked } =
      (.ok (h.launch l s.tree).1, { s with
        tree := (h.launch l s.tree).2
        lookups := looked
        launches := s.launches ++ [l] }) := rfl
  rw [exec_bind, hexec]
  dsimp only
  rw [exec_bind, exec_ofExcept_id]
  cases complete words p.timeout (h.launch l s.tree).1 with
  | error f => rfl
  | ok completed =>
    dsimp only
    rw [exec_ofExcept_id]
    rfl

end Before

/-! ### How a command ends -/

/-- No time limit, or one that is a number in the range of a float. -/
def IsLimit : Value → Prop
  | .null | .bool _ | .float _ => True
  | .int n => (Binary64.ofInt n).isFinite
  | _ => False

/-- The line that tells of a time limit that it is over. -/
structure IsTimeoutLine (limit : Value) (line : Text) : Prop where
  made : timeoutLine limit = .ok line
  start : "Command timed out".toList <+: line
  single : '\n' ∉ line

theorem exists_isTimeoutLine {limit : Value} (h : IsLimit limit) :
    ∃ line, IsTimeoutLine limit line := by
  have hseconds : ∀ x : Binary64, timeoutLine limit =
      .ok ("Command timed out after ".toList ++ x.tenthsText ++ ['s']) →
      ∃ line, IsTimeoutLine limit line := by
    intro x hx
    refine ⟨_, hx, ?_, ?_⟩
    · rw [List.append_assoc]
      exact List.IsPrefix.trans (by decide) (List.prefix_append _ _)
    · simp [Binary64.newline_not_mem_tenthsText x]
  cases limit with
  | null => exact ⟨_, rfl, List.prefix_refl _, by decide⟩
  | bool b => exact hseconds _ rfl
  | float x => exact hseconds x rfl
  | int n =>
    have hfinite : (Binary64.ofInt n).isFinite = true := h
    have hn : seconds (.int n) = .ok (Binary64.ofInt n) := if_pos hfinite
    exact hseconds (Binary64.ofInt n) (congrArg (Except.map _) hn)
  | text t => exact h.elim
  | moment => exact h.elim
  | list items => exact h.elim
  | table fields => exact h.elim

/-- A line put behind what was said before, on a line of its own. -/
def withLine (said line : Text) : Text :=
  if said = [] then line else said ++ '\n' :: line

/-- A command that has come to its end is a failure if a check was asked for and its status is not 0,
and else the result. -/
inductive Judged (o : Options) (c : Completed) : Except Failure Completed → Prop
  | passed (h : ¬ (o.check.holds = true ∧ c.code ≠ 0)) : Judged o c (.ok c)
  | refused (hcheck : o.check.holds = true) (hcode : c.code ≠ 0) :
    Judged o c (.error (.exited c.args c.code (textOnly c.stdout) (textOnly c.stderr)))

/-- What comes of a command by how the host lets it come out. The status 124 stands for a time that
is over. -/
inductive Ends (o : Options) (words : List Text) : Outcome → Except Failure Completed → Prop
  | raised (f : Failure) : Ends o words (.failed f) (.error f)
  | exited {code : Int} {stdout stderr : Option Stream} {r : Except Failure Completed}
    (h : Judged o ⟨words, code, stdout, stderr⟩ r) : Ends o words (.exited code stdout stderr) r
  | timedOut {stdout stderr : Option Stream} {line : Text} {r : Except Failure Completed}
    (hline : IsTimeoutLine o.timeout line)
    (h : Judged o ⟨words, 124, some (.text (streamText stdout)),
      some (.text (withLine (streamText stderr) line))⟩ r) :
    Ends o words (.timedOut stdout stderr) r

section Ending

variable {h : Host} {s : Session} {o : Options} {fs : Fields} {args words : List Text}

theorem checked_judged (o : Options) (c : Completed) : Judged o c (checked o c) := by
  rw [checked]
  split
  · next hfails => exact .refused hfails.1 hfails.2
  · next hpasses => exact .passed hpasses

theorem complete_ends (hlimit : IsLimit o.timeout) (outcome : Outcome) :
    Ends o words outcome (complete words o.timeout outcome >>= checked o) := by
  cases outcome with
  | failed f => exact .raised f
  | exited code stdout stderr => exact .exited (checked_judged o _)
  | timedOut stdout stderr =>
    obtain ⟨line, hline⟩ := exists_isTimeoutLine hlimit
    rw [complete, timedOut, hline.made]
    exact .timedOut hline (checked_judged o _)

/-- What a command comes to is settled by the first thing that keeps it from being launched, if there
is one, and then it has done nothing but look for its program. If there is none, the command is
launched, once, and how the host lets it come out settles the rest. -/
theorem run_outcome (hkeys : (fs.map (·.1)).Nodup) (hlimit : IsLimit (o.overlay fs).timeout) :
    ((∃ f, Hindered h o fs args f) ∨ ∃ words e, Ready h o fs args words e) ∧
      (∀ f, Hindered h o fs args f → ∃ looked,
        (run args o fs).exec h s = (.error f, { s with lookups := looked })) ∧
      ∀ words e, Ready h o fs args words e →
        let p := o.overlay fs
        let l := p.launch words e
        ∃ looked r, (run args o fs).exec h s =
            (r, { s with
              tree := (h.launch l s.tree).2
              lookups := looked
              launches := s.launches ++ [l] }) ∧
          Ends p words (h.launch l s.tree).1 r := by
  refine ⟨hindered_or_ready h o fs args, fun f hf => exec_run_of_hindered hkeys hf, ?_⟩
  intro words e hready
  obtain ⟨looked, hrun⟩ := exec_run_of_ready (s := s) hkeys hready
  exact ⟨looked, _, hrun, complete_ends hlimit _⟩

/-- Every program is found. What is launched takes too long, and has written a character that is cut
off behind its first line. -/
def hangingHost : Host :=
  { bareHost with
    find := fun p => some ("/bin/".toList ++ p)
    launch := fun _ tree =>
      (.timedOut none (some (.bytes (Utf8.encode "half\n".toList ++ [0xc3]))), tree) }

/-- A command that takes too long is a failure where its overrides ask for a check. -/
theorem run_outcome_hanging :
    let o := { Options.standard with check := .bool false }
    let fs : Fields := [("timeout".toList, .int 2), ("check".toList, .bool true)]
    let args := ["clang-format".toList, "a b".toList]
    let words := ["/bin/clang-format".toList, "a b".toList]
    (fs.map (·.1)).Nodup ∧ IsLimit (o.overlay fs).timeout ∧
      Ready hangingHost o fs args words .null ∧
      ∃ looked, (run args o fs).exec hangingHost (.start (.dir [])) =
        (.error (.exited words 124 (some [])
            (some "half\n\nCommand timed out after 2.0s".toList)),
          { Session.start (.dir []) with
            lookups := looked
            launches := [(o.overlay fs).launch words .null] }) := by
  intro o fs args words
  have hkeys : (fs.map (·.1)).Nodup := by decide
  have hlimit : IsLimit (o.overlay fs).timeout := by
    change (Binary64.ofInt 2).isFinite = true
    decide
  have hready : Ready hangingHost o fs args words .null := ⟨by decide, by decide, rfl, rfl⟩
  refine ⟨hkeys, hlimit, hready, ?_⟩
  obtain ⟨-, -, hlaunched⟩ := run_outcome (s := .start (.dir [])) hkeys hlimit
  obtain ⟨looked, r, hrun, hends⟩ := hlaunched words .null hready
  have hsaid : streamText (some (.bytes (Utf8.encode "half\n".toList ++ [0xc3]))) =
      "half\n".toList := by
    decide +kernel
  have hline' : timeoutLine (.int 2) = .ok "Command timed out after 2.0s".toList := by decide +kernel
  refine ⟨looked, ?_⟩
  rw [hrun]
  cases hends with
  | timedOut hline hjudged =>
    cases Except.ok.inj (hline.made.symm.trans hline')
    rw [hsaid] at hjudged
    cases hjudged with
    | passed hpassed => exact absurd ⟨rfl, by decide⟩ hpassed
    | refused _ _ => rfl

/-- An environment that is a number keeps a command from being launched, though there is a program,
every option is known and there is no time limit. -/
theorem run_environment_number :
    let fs : Fields := [("env".toList, .int 5)]
    let ran := (run ["clang-format".toList] .standard fs).exec hangingHost (.start (.dir []))
    hangingHost.resolved? ["clang-format".toList] = some ["/bin/clang-format".toList] ∧
      Options.unknown fs = [] ∧ (Options.standard.overlay fs).timeout = .null ∧
      ran.1 = .error (.environment (.notList "int".toList)) ∧ ran.2.launches = [] := by
  exact ⟨by decide, by decide, rfl, rfl, rfl⟩

end Ending

end Command

end FormatAudit
