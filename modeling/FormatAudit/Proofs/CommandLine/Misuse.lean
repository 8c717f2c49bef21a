import FormatAudit.Proofs.CommandLine.Extensions

/-! What the user has to mend is found before any work is done. A name that is not registered ends a
run of linters at once, wherever it stands among the names, and a run of the program that ends with
status 2 has launched nothing. It is assumed that no launch fails with what the program keeps for
its user's mistakes, a configuration that cannot be used or a linter that is not known. -/
namespace FormatAudit

open Run

variable {h : Host} {s t : Session} {c : Config} {r : LintRequest} {root : Path}

namespace Registry

variable {registry : Registry Linter} {config : Config} {names : List Text}

theorem exists_first_unknown (hunknown : ∃ name ∈ names, registry.get? name = none) :
    ∃ before name after, names = before ++ name :: after ∧
      (∀ n ∈ before, (registry.get? n).isSome) ∧ registry.get? name = none := by
  have hsome : (names.find? fun n => (registry.get? n).isNone).isSome := by
    simpa using hunknown
  obtain ⟨name, hfound⟩ := Option.isSome_iff_exists.1 hsome
  obtain ⟨hname, before, after, rfl, hbefore⟩ := List.find?_eq_some_iff_append.1 hfound
  refine ⟨before, name, after, rfl, fun n hn => ?_, Option.isNone_iff_eq_none.1 hname⟩
  simpa [Option.isSome_iff_ne_none] using hbefore n hn

/-- The first name that is not registered ends the run, and the session is as it was before. -/
theorem exec_runAll_unknown {before after : List Text} {name : Text}
    (hbefore : ∀ n ∈ before, (registry.get? n).isSome) (hname : registry.get? name = none) :
    (registry.runAll config root (before ++ name :: after)).exec h s =
      (.error (.unknownLinter name), s) := by
  have hget : registry.get name = .error (.unknownLinter name) := get_eq_error.2 ⟨hname, rfl⟩
  have hlooked : ((before ++ name :: after).mapM fun n => (registry.get n).map fun f => (n, f)) =
      .error (.unknownLinter name) := by
    refine mapM_eq_error (fun n hn => ?_) (by rw [hget]; rfl) after
    obtain ⟨f, hf⟩ := Option.isSome_iff_exists.1 (hbefore n hn)
    exact ⟨(n, f), by rw [get_eq_ok.2 hf]; rfl⟩
  rw [runAll, hlooked]
  rfl

end Registry

namespace LintRequest

theorem exec_reportsFor_unknown {registry : Registry Linter} {names : List Text}
    (hnames : r.names registry c = .ok names)
    (hunknown : ∃ name ∈ names, registry.get? name = none) :
    ∃ f, (r.reportsFor registry root c).exec h s = (.error f, s) := by
  obtain ⟨before, name, after, rfl, hbefore, hname⟩ := Registry.exists_first_unknown hunknown
  rw [reportsFor, hnames]
  simp only [Run.ofExcept, pure_bind]
  cases c.override r.overrides (before ++ name :: after) with
  | error f => exact ⟨f, rfl⟩
  | ok d =>
    simp only [pure_bind]
    rw [exec_bind, Registry.exec_runAll_unknown hbefore hname]
    exact ⟨.unknownLinter name, rfl⟩

/-- A failure that the user can mend comes before anything is launched. -/
theorem launches_of_reportsFor {f : Failure}
    (hlaunch : ∀ l t f, (h.launch l t).1 = .failed f → ¬ f.isOfUser)
    (hfails : (r.reportsFor Registry.standard root c).exec h s = (.error f, t))
    (huser : f.isOfUser) : t.launches = s.launches := by
  obtain ⟨names, hnames, -⟩ := r.exists_names c
  by_cases hsome : ∀ given, r.overrides.extensions = some given → Text.commaItems given ≠ []
  · by_cases hknown : ∀ name ∈ names, (Registry.standard.get? name).isSome
    · have hnotUser : IsBounded h (fun _ => True) (fun f => ¬ f.isOfUser)
          (r.reportsFor Registry.standard root c) :=
        reportsFor_notUser hnames hknown hsome hlaunch
      have hmended := (hnotUser s trivial).1
      rw [hfails] at hmended
      exact absurd huser (failsOnly_error.1 hmended)
    · obtain ⟨e, he⟩ := exec_reportsFor_unknown hnames (by simpa using hknown)
      cases hfails.symm.trans he
      rfl
  · obtain ⟨given, hgiven, hempty⟩ : ∃ given, r.overrides.extensions = some given ∧
        Text.commaItems given = [] := by
      simpa using hsome
    cases hfails.symm.trans (exec_reportsFor_of_none hgiven hempty)
    rfl

theorem launches_of_reports {f : Failure}
    (hlaunch : ∀ l t f, (h.launch l t).1 = .failed f → ¬ f.isOfUser)
    (hfails : (r.reports Registry.standard root).exec h s = (.error f, t))
    (huser : f.isOfUser) : t.launches = s.launches := by
  rw [reports, exec_bind, Config.exec_load] at hfails
  cases hload : Config.loaded h s.tree root r.configFile with
  | error e =>
    rw [hload] at hfails
    cases hfails
    rfl
  | ok c =>
    rw [hload] at hfails
    exact launches_of_reportsFor hlaunch hfails huser

theorem launches_of_run {exit : CommandLine.Exit}
    (hlaunch : ∀ l t f, (h.launch l t).1 = .failed f → ¬ f.isOfUser)
    (hrun : (r.run Registry.standard).exec h s = (.ok exit, t)) (hstatus : exit.status = 2) :
    t.launches = s.launches := by
  have hsettle : r.run Registry.standard =
      r.workspace >>= fun root => Run.attempt (r.reports Registry.standard root) >>= r.settle := by
    rw [run]
    refine bind_congr fun root => bind_congr fun result => ?_
    cases result <;> rfl
  rw [hsettle] at hrun
  obtain ⟨root, s₁, hroot, hsettled⟩ := exec_bind_eq_ok.1 hrun
  have hsame := r.exec_workspace (h := h) (s := s)
  rw [hroot] at hsame
  obtain rfl : s₁ = s := hsame
  rw [exec_bind, exec_attempt] at hsettled
  rcases hreports : (r.reports Registry.standard root).exec h s₁ with
    ⟨f | ⟨reports, output⟩, s₂⟩ <;> rw [hreports] at hsettled <;> dsimp only at hsettled
  · by_cases huser : f.isOfUser
    · have hkept := launches_of_reports hlaunch hreports huser
      rw [settle, if_pos huser] at hsettled
      cases hsettled
      exact hkept
    · rw [settle_other huser] at hsettled
      exact absurd hstatus (giveUp_status (congrArg Prod.fst hsettled))
  · have hends := congrArg Prod.fst hsettled
    obtain hclean | hfindings := settle_ok (h := h) (s := s₂) (r := r) reports output
    · cases hclean.symm.trans hends
      cases hstatus
    · cases hfindings.symm.trans hends
      cases hstatus

end LintRequest

namespace CommandLine

theorem launches_of_run {args : List Text} {exit : Exit}
    (hlaunch : ∀ l t f, (h.launch l t).1 = .failed f → ¬ f.isOfUser)
    (hrun : (run args).exec h s = (.ok exit, t)) (hstatus : exit.status = 2) :
    t.launches = s.launches := by
  cases hargs : Request.ofArguments h.numerals args with
  | error fault =>
    rw [run, runWith, exec_read_bind, hargs] at hrun
    cases hrun
    rfl
  | ok request =>
    cases request with
    | help =>
      rw [run, runWith, exec_read_bind, hargs] at hrun
      cases hrun
      cases hstatus
    | listLinters =>
      rw [run, runWith, exec_read_bind, hargs] at hrun
      cases hrun
      cases hstatus
    | lint r =>
      rw [run] at hrun
      obtain ⟨fault, hmisused, -⟩ | hlint := exec_runWith hargs
      · cases hrun.symm.trans hmisused
        rfl
      · exact LintRequest.launches_of_run hlaunch (hlint.symm.trans hrun) hstatus

/-- A run of linters whose names are not all registered fails for the first one that is not, with
nothing made, launched or printed before, whatever the registry holds; and a run of the program that
ends with status 2 has launched nothing. -/
theorem misuse_before_work {h : Host} {s : Session} :
    (∀ (registry : Registry Linter) (config : Config) (root : Path) (names : List Text),
      (∃ name ∈ names, registry.get? name = none) →
        ∃ before name after, names = before ++ name :: after ∧
          (∀ n ∈ before, (registry.get? n).isSome) ∧ registry.get? name = none ∧
          (registry.runAll config root names).exec h s = (.error (.unknownLinter name), s)) ∧
    ((∀ l t f, (h.launch l t).1 = .failed f → ¬ f.isOfUser) →
      ∀ args exit s', (run args).exec h s = (.ok exit, s') → exit.status = 2 →
        s'.launches = s.launches) := by
  constructor
  · intro registry config root names hunknown
    obtain ⟨before, name, after, rfl, hbefore, hname⟩ := Registry.exists_first_unknown hunknown
    exact ⟨before, name, after, rfl, hbefore, hname, Registry.exec_runAll_unknown hbefore hname⟩
  · exact fun hlaunch args exit s' hrun hstatus => launches_of_run hlaunch hrun hstatus

/-- Where the formatter could be run, it is not when a second linter is asked for by a name that
nobody has registered. -/
theorem misuse_before_work_second :
    let h := { bareHost with find := some }
    let s := Session.start (.dir [])
    let names := [ClangFormat.name, "nope".toList]
    (∃ before name after, names = before ++ name :: after ∧
      (∀ n ∈ before, (Registry.standard.get? n).isSome) ∧ Registry.standard.get? name = none ∧
      (Registry.standard.runAll (.standard 1) ⟨1, []⟩ names).exec h s =
        (.error (.unknownLinter name), s)) ∧
    ∃ exit s', (run ["lint".toList, "--linter".toList, ClangFormat.name, "--linter".toList,
        "nope".toList]).exec h s = (.ok exit, s') ∧ exit.status = 2 ∧ s'.launches = s.launches := by
  intro h s names
  have hunusable : ((run ["lint".toList, "--linter".toList, ClangFormat.name, "--linter".toList,
      "nope".toList]).exec h s).1 = .ok .unusable := by
    have hargs : Request.ofArguments h.numerals ["lint".toList, "--linter".toList,
        ClangFormat.name, "--linter".toList, "nope".toList] =
          .ok (.lint { bareRequest with linters := names }) := by
      decide
    rw [run, exec_runWith_of_empty some hargs rfl rfl]
    decide +kernel
  obtain ⟨hunknown, hmisuse⟩ := misuse_before_work (h := h) (s := s)
  refine ⟨hunknown Registry.standard (.standard 1) ⟨1, []⟩ names (by decide), .unusable, _,
    Prod.ext hunusable rfl, rfl, ?_⟩
  have hlaunch : ∀ l t f, (h.launch l t).1 = .failed f → ¬ f.isOfUser := by
    intro l t f hf
    cases hf
  exact hmisuse hlaunch _ .unusable _ (Prod.ext hunusable rfl) rfl

end CommandLine

end FormatAudit
