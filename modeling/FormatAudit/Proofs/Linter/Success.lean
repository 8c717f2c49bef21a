import FormatAudit.Proofs.Linter.Reporting
import FormatAudit.Proofs.Linter.Setup

/-! What the report on a run of the formatter says. It is one of success only if all programs were
found and the formatter ended with status 0, and then its summary says so; otherwise exactly one
reason stands against it, which the summary names. How the formatter ends, and what it does to the
files, is left open. -/
namespace FormatAudit

open Run

variable {h : Host} {s t : Session}

/-- An envelope is a success or not by its status alone, and it holds no warnings. -/
theorem Findings.ofEnvelope_cases {e : Envelope} {f : Findings}
    (hf : Findings.ofEnvelope e = .ok f) :
    e.status = 0 ∧ f = ⟨true, [], []⟩ ∨ e.status ≠ 0 ∧ ∃ errors, f = ⟨false, [], errors⟩ := by
  rw [Findings.ofEnvelope] at hf
  split at hf
  · next hzero =>
    cases hf
    exact .inl ⟨hzero, rfl⟩
  · next hstatus =>
    obtain ⟨found, -, hf⟩ := exists_of_bind hf
    cases hf
    exact .inr ⟨hstatus, found.flatten, rfl⟩

namespace Linter

variable {l : Linter} {settings : Settings} {root dir : Path} {fix : Bool} {output : Output}
  {r : Report}

def skippedReport (l : Linter) (reason : Text) : Report :=
  ⟨l.name, ⟨false, [], []⟩, "Skipped ".toList ++ l.name ++ ": ".toList ++ reason, none, some reason⟩

def ranReport (l : Linter) (e : Envelope) (f : Findings) : Report :=
  ⟨l.name, f, if f.isSuccess then f.summary l.name else l.failedSummary e f, some e, none⟩

theorem exists_of_runVerified {extensions : List Text}
    (hrun : ((l.runVerified extensions root dir fix output).exec h s).1 = .ok r) :
    ∃ e f s', ((l.findings root e).exec h s').1 = .ok f ∧ r = l.ranReport e f := by
  rw [runVerified] at hrun
  obtain ⟨_, _, -, hrun⟩ := exists_of_exec_bind hrun
  obtain ⟨e, s₁, -, hrun⟩ := exists_of_exec_bind hrun
  obtain ⟨f, s₂, hf, hrun⟩ := exists_of_exec_bind hrun
  refine ⟨e, f, s₁, by rw [hf], ?_⟩
  by_cases hsuccess : f.isSuccess
  · rw [if_pos hsuccess] at hrun
    cases hrun
    rw [ranReport, if_pos hsuccess]
  · rw [if_neg hsuccess] at hrun
    cases hrun
    rw [ranReport, if_neg hsuccess]

theorem missing?_cases {reason : Option Text}
    (hmissing : (l.missing? dir).exec h s = (.ok reason, t)) :
    (∃ linter p, (l.verify dir).exec h s = (.error (.notInstalled linter p), t) ∧
        reason = some (Failure.notInstalled linter p).message) ∨
      (l.verify dir).exec h s = (.ok (), t) ∧ reason = none := by
  rw [missing?, exec_bind, exec_attempt] at hmissing
  rcases hverify : (l.verify dir).exec h s with ⟨f | ⟨⟨⟩⟩, s'⟩ <;> rw [hverify] at hmissing
  · cases f with
    | notInstalled linter p =>
      cases hmissing
      exact .inl ⟨linter, p, rfl, rfl⟩
    | _ => cases hmissing
  · cases hmissing
    exact .inr ⟨rfl, rfl⟩

/-- A run that returns a report has skipped the linter because a program is missing, or it has
verified the linter and run it. -/
theorem exists_of_run (hrun : (l.run settings root fix output).exec h s = (.ok r, t)) :
    ∃ s₁ s₂, s₁.launches = s.launches ∧
      ((∃ linter p, (l.verify (Path.join root settings.directory)).exec h s₁ =
            (.error (.notInstalled linter p), s₂) ∧
          r = l.skippedReport (Failure.notInstalled linter p).message ∧
          t.launches = s₂.launches) ∨
        (l.verify (Path.join root settings.directory)).exec h s₁ = (.ok (), s₂) ∧
          ∃ e f s₃, ((l.findings root e).exec h s₃).1 = .ok f ∧ r = l.ranReport e f) := by
  rw [run] at hrun
  obtain ⟨_, s₁, hsay, hrun⟩ := exec_bind_eq_ok.1 hrun
  obtain ⟨reason, s₂, hmissing, hrun⟩ := exec_bind_eq_ok.1 hrun
  have hlaunches : s₁.launches = s.launches := by
    cases hsay
    rfl
  refine ⟨s₁, s₂, hlaunches, ?_⟩
  obtain ⟨linter, p, hverify, rfl⟩ | ⟨hverify, rfl⟩ := missing?_cases hmissing
  · cases hrun
    exact .inl ⟨linter, p, hverify, rfl, rfl⟩
  · obtain ⟨_, s₃, -, hrun⟩ := exec_bind_eq_ok.1 hrun
    exact .inr ⟨hverify, exists_of_runVerified (congrArg Prod.fst hrun)⟩

end Linter

namespace ClangFormat

variable {a : ClangFormat} {settings : Settings} {root : Path} {fix : Bool} {output : Output}
  {r : Report}

/-! ### Verification -/

theorem exec_required_eq (a : ClangFormat) :
    ∃ programs, ∀ s, a.required.exec h s = (programs, s) := by
  rw [required]
  split
  · exact ⟨_, fun s => rfl⟩
  · rw [launcherWords]
    cases ShellWords.split a.launcher with
    | error fault => exact ⟨_, fun s => rfl⟩
    | ok words => cases words <;> exact ⟨_, fun s => rfl⟩

theorem exec_lookUp_congr (programs : List Text) (s t : Session) :
    ((lookUp programs).exec h s).1 = ((lookUp programs).exec h t).1 := by
  induction programs generalizing s t with
  | nil => rfl
  | cons p programs ih =>
    rw [lookUp_cons, exec_bind, exec_bind, exec_find, exec_find]
    dsimp only
    cases h.find p with
    | none => rfl
    | some found => exact ih _ _

/-- Whether a program is missing does not depend on what was done before. -/
theorem exec_verify_congr (a : ClangFormat) (s t : Session) :
    (a.verify.exec h s).1 = (a.verify.exec h t).1 := by
  have hverify : a.verify = a.required >>= lookUp := rfl
  obtain ⟨programs, hrequired⟩ := exec_required_eq (h := h) a
  rw [hverify, exec_bind, exec_bind, hrequired, hrequired]
  cases programs with
  | error f => rfl
  | ok programs => exact exec_lookUp_congr programs s t

theorem verify_launches (a : ClangFormat) (s : Session) :
    (a.verify.exec h s).2.launches = s.launches :=
  (verify_isBounded (P := (· = s.launches)) s rfl).2

/-! ### Reports -/

theorem ranReport_cases (a : ClangFormat) {e : Envelope} {f : Findings}
    (hf : Findings.ofEnvelope e = .ok f) :
    e.status = 0 ∧ a.toLinter.ranReport e f = ⟨name, ⟨true, [], []⟩,
        "No code style issues found with clang_format".toList, some e, none⟩ ∨
      e.status ≠ 0 ∧ ((∃ errors, errors ≠ [] ∧
          a.toLinter.ranReport e f = ⟨name, ⟨false, [], errors⟩,
            "Found ".toList ++ Text.ofNat errors.length ++ " errors with clang_format".toList,
            some e, none⟩) ∨
        a.toLinter.ranReport e f = ⟨name, ⟨false, [], []⟩,
          "clang_format failed with exit status ".toList ++ Text.ofInt e.status,
          some e, none⟩) := by
  obtain ⟨hstatus, rfl⟩ | ⟨hstatus, errors, rfl⟩ := Findings.ofEnvelope_cases hf
  · exact .inl ⟨hstatus, rfl⟩
  · refine .inr ⟨hstatus, ?_⟩
    cases errors with
    | nil => exact .inr rfl
    | cons v errors =>
      refine .inl ⟨v :: errors, List.cons_ne_nil v errors, ?_⟩
      have htext : " errors with clang_format".toList =
          " errors".toList ++ " with ".toList ++ name := by
        decide
      rw [htext]
      simp [Linter.ranReport, Linter.failedSummary, Findings.violations, Findings.summary, toLinter]

/-- What can stand against a report of success. -/
inductive Obstacle where
  | setup
  | errors
  | status
  deriving DecidableEq, Repr

/-- The report on a run from the session `s` to the session `t` tells of an obstacle: a program was
missing, and nothing was launched; there are errors, which the summary counts; or there is no
violation, and the summary names the status that the formatter ended with, which is not 0. -/
def Obstacle.Explains (a : ClangFormat) (h : Host) (s t : Session) (r : Report) : Obstacle → Prop
  | .setup => (∃ p, (a.verify.exec h s).1 = .error (.notInstalled name p) ∧
      r.setupError = some (Failure.notInstalled name p).message) ∧ t.launches = s.launches
  | .errors => ∃ n, 1 ≤ n ∧ r.findings.errors.length = n ∧
      r.summary = "Found ".toList ++ Text.ofNat n ++ " errors with clang_format".toList
  | .status => r.findings.violations = [] ∧ ∃ e, r.envelope = some e ∧ e.status ≠ 0 ∧
      r.summary = "clang_format failed with exit status ".toList ++ Text.ofInt e.status

theorem ofEnvelope_of_findings {e : Envelope} {f : Findings}
    (hf : ((findings e).exec h s).1 = .ok f) : Findings.ofEnvelope e = .ok f := by
  rw [findings, exec_ofExcept] at hf
  cases hfound : Findings.ofEnvelope e with
  | ok g =>
    rw [hfound] at hf
    cases hf
    rfl
  | error rejection =>
    rw [hfound] at hf
    cases hf

theorem eq_name_of_verify {linter p : Text}
    (hverify : (a.verify.exec h s).1 = .error (.notInstalled linter p)) : linter = name := by
  have hfails : FailsOnly a.FailsSetup (a.verify.exec h s).1 :=
    (verify_isBounded (P := fun _ => True) s trivial).1
  rw [hverify] at hfails
  obtain ⟨p', heq⟩ | ⟨fault, -, heq⟩ := failsOnly_error.1 hfails
  · cases heq
    rfl
  · cases heq

/-- Against the report on a linter that was skipped there is only its setup. -/
theorem Obstacle.eq_setup_of_explains {o : Obstacle} {reason : Text}
    (ho : o.Explains a h s t (a.toLinter.skippedReport reason)) : o = .setup := by
  cases o with
  | setup => rfl
  | errors =>
    obtain ⟨n, hn, hlength, -⟩ := ho
    cases hlength
    cases hn
  | status =>
    obtain ⟨-, e, he, -⟩ := ho
    cases he

/-- After a verification that succeeds, the violations tell which obstacle there is. -/
theorem Obstacle.eq_of_explains {o : Obstacle} (hverified : (a.verify.exec h s).1 = .ok ())
    (ho : o.Explains a h s t r) : o = if r.findings.violations = [] then .status else .errors := by
  cases o with
  | setup =>
    obtain ⟨⟨p, hmissing, -⟩, -⟩ := ho
    cases hverified.symm.trans hmissing
  | errors =>
    obtain ⟨n, hn, rfl, -⟩ := ho
    have hsome : r.findings.violations ≠ [] := fun hnone =>
      List.ne_nil_of_length_pos hn (List.append_eq_nil_iff.1 hnone).1
    rw [if_neg hsome]
  | status => rw [if_pos ho.1]

/-- A report is one of success if and only if its summary says so, and if and only if the setup was
verified and the formatter ended with status 0. Against any other report stands one obstacle. -/
theorem run_isOk_iff (a : ClangFormat)
    (hrun : (a.toLinter.run settings root fix output).exec h s = (.ok r, t)) :
    (r.isOk ↔ r.summary = "No code style issues found with clang_format".toList) ∧
      (r.isOk ↔ (a.verify.exec h s).1 = .ok () ∧ ∃ e, r.envelope = some e ∧ e.status = 0) ∧
      (¬ r.isOk → ∃! obstacle : Obstacle, obstacle.Explains a h s t r) := by
  obtain ⟨s₁, s₂, hlaunches, hcases⟩ := Linter.exists_of_run hrun
  have hsame : (a.verify.exec h s).1 = (a.verify.exec h s₁).1 := exec_verify_congr a s s₁
  have hverifies : a.toLinter.verify (Path.join root settings.directory) = a.verify := rfl
  rw [hverifies] at hcases
  obtain ⟨linter, p, hverify, rfl, ht⟩ | ⟨hverify, e, f, s₃, hf, rfl⟩ := hcases <;>
    rw [hverify] at hsame
  · obtain rfl := eq_name_of_verify hsame
    have hkept : s₂.launches = s₁.launches := by
      rw [← verify_launches (h := h) a s₁, hverify]
    refine ⟨iff_of_false Bool.false_ne_true nofun, iff_of_false Bool.false_ne_true ?_, fun _ =>
      ⟨.setup, ⟨⟨p, hsame, rfl⟩, ht.trans (hkept.trans hlaunches)⟩, fun o ho =>
        Obstacle.eq_setup_of_explains ho⟩⟩
    rintro ⟨hok, -⟩
    cases hsame.symm.trans hok
  · have hended : ∀ {r : Report}, r.envelope = some e →
        ((a.verify.exec h s).1 = .ok () ∧ (∃ e', r.envelope = some e' ∧ e'.status = 0) ↔
          e.status = 0) := by
      intro r he
      rw [he]
      simp [hsame]
    obtain ⟨hstatus, heq⟩ | ⟨hstatus, ⟨errors, hne, heq⟩ | heq⟩ :=
      ranReport_cases a (ofEnvelope_of_findings hf)
    all_goals rw [heq, hended rfl]
    · exact ⟨iff_of_true rfl rfl, iff_of_true rfl hstatus, fun hno => absurd rfl hno⟩
    · refine ⟨iff_of_false Bool.false_ne_true nofun, iff_of_false Bool.false_ne_true hstatus,
        fun _ => ⟨.errors, ⟨_, List.length_pos_of_ne_nil hne, rfl, rfl⟩, fun o ho => ?_⟩⟩
      rw [Obstacle.eq_of_explains hsame ho, if_neg]
      exact fun hnone => hne (List.append_eq_nil_iff.1 hnone).1
    · refine ⟨iff_of_false Bool.false_ne_true nofun, iff_of_false Bool.false_ne_true hstatus,
        fun _ => ⟨.status, ⟨rfl, e, rfl, hstatus, rfl⟩, fun o ho => ?_⟩⟩
      rw [Obstacle.eq_of_explains hsame ho]
      exact if_pos rfl

def killingHost : Host :=
  { uniformHost with launch := fun _ tree => (.exited (-11) none none, tree) }

/-- A formatter that is killed while it fixes files leaves no violation behind, and yet its report
is not one of success. -/
theorem run_isOk_iff_killed :
    ∃ r t, (uniformFormat.toLinter.run .standard (Path.ofText ['/']) true .standard).exec
        killingHost (.start twoFiles) = (.ok r, t) ∧
      r.summary = "clang_format failed with exit status -11".toList ∧
      (r.isOk ↔ r.summary = "No code style issues found with clang_format".toList) ∧
      (r.isOk ↔ (uniformFormat.verify.exec killingHost (.start twoFiles)).1 = .ok () ∧
        ∃ e, r.envelope = some e ∧ e.status = 0) ∧
      (¬ r.isOk → ∃! obstacle : Obstacle,
        obstacle.Explains uniformFormat killingHost (.start twoFiles) t r) := by
  have hrun : ((uniformFormat.toLinter.run .standard (Path.ofText ['/']) true .standard).exec
      killingHost (.start twoFiles)).1 = .ok ⟨name, ⟨false, [], []⟩,
        "clang_format failed with exit status -11".toList, some ⟨-11, [], []⟩, none⟩ := by
    decide +kernel
  exact ⟨_, _, Prod.ext hrun rfl, rfl, run_isOk_iff uniformFormat (Prod.ext hrun rfl)⟩

end ClangFormat

end FormatAudit
