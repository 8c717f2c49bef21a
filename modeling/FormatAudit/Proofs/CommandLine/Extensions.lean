import FormatAudit.Proofs.CommandLine.Ending

/-! The extensions that are named on the command line. A value that names none is told to the user,
and with any other value a run does not end as if it had named none. Nothing is launched for a value
of which nothing is left, not even if that shows only when files are searched for. -/
namespace FormatAudit

open Run

namespace LintRequest

variable {h : Host} {s : Session} {c : Config} {r : LintRequest} {t : Text} {root : Path}
  {names : List Text}

theorem giveUp_status {f : Failure} {exit : CommandLine.Exit}
    (hexit : ((giveUp f).exec h s).1 = .ok exit) : exit.status ≠ 2 := by
  unfold giveUp at hexit
  split at hexit <;> cases hexit <;> decide

/-- Extensions of which nothing is left make every search fail before anything is launched. -/
theorem reportsFor_launches (hgiven : r.overrides.extensions = some t)
    (hnone : Extension.normalize? (Text.commaItems t) = none) {P : List Launch → Prop} :
    IsBounded h P (fun _ => True) (r.reportsFor Registry.standard root c) := by
  obtain ⟨names, hnames, hne⟩ := r.exists_names c
  by_cases hempty : Text.commaItems t = []
  · rw [reportsFor, hnames]
    simp only [Run.ofExcept, pure_bind, Config.override_noExtension hne hgiven hempty]
    exact fun s hs => ⟨fun _ _ => trivial, hs⟩
  · refine reportsFor_isBounded hnames (fun _ _ => trivial) (fun _ _ _ => trivial)
      (fun _ _ _ _ => trivial) ?_
    intro name _ config settings _ hextensions
    have hsettings : settings.extensions = Text.commaItems t := by
      rw [hextensions, extensionsFor, Overrides.extensionsOver, hgiven]
      exact if_neg hempty
    intro s hs
    rw [hsettings, ClangFormat.lint, exec_bind, ClangFormat.exec_discover,
      Search.discover_noExtension hnone]
    exact ⟨fun _ _ => trivial, hs⟩

theorem exec_reportsFor_of_none (hgiven : r.overrides.extensions = some t)
    (hempty : Text.commaItems t = []) :
    (r.reportsFor Registry.standard root c).exec h s =
      (.error (.config (.noExtensionNamed t)), s) := by
  obtain ⟨names, hnames, hne⟩ := r.exists_names c
  rw [reportsFor, hnames]
  simp only [Run.ofExcept, pure_bind, Config.override_noExtension hne hgiven hempty]
  rfl

/-- If some extension is named and the chosen linters are known, the user has nothing to mend. -/
theorem reportsFor_notUser (hnames : r.names Registry.standard c = .ok names)
    (hknown : ∀ name ∈ names, (Registry.standard.get? name).isSome)
    (hsome : ∀ t, r.overrides.extensions = some t → Text.commaItems t ≠ [])
    (hlaunch : ∀ l t f, (h.launch l t).1 = .failed f → ¬ f.isOfUser) :
    IsBounded h (fun _ => True) (fun f => ¬ f.isOfUser)
      (r.reportsFor Registry.standard root c) := by
  refine reportsFor_isBounded hnames ?_ ?_ (fun _ _ _ _ => Bool.false_ne_true) ?_
  · intro f hf
    cases hf with
    | extensions given empty => exact absurd empty (hsome _ given)
    | args given malformed => exact Bool.false_ne_true
  · intro name hname hnone
    have hsome := hknown name hname
    rw [hnone] at hsome
    cases hsome
  · intro name _ config settings _ _
    exact Registry.lint_formatterFor_isBounded (fun _ _ => Bool.false_ne_true)
      (fun l t f hf => .inr (hlaunch l t f hf)) fun _ _ _ => Bool.false_ne_true

end LintRequest

namespace CommandLine

def extensionsRequest (t : Text) : LintRequest :=
  { bareRequest with overrides := ⟨some t, none, none⟩ }

theorem ofArguments_extensions (n : Numerals) (t : Text) :
    Request.ofArguments n ["lint".toList, "--extensions".toList, t] =
      .ok (.lint (extensionsRequest t)) :=
  rfl

section Extensions

variable {h : Host} {s : Session} {c : Config} {root : Path}

theorem exec_run_extensions (t : Text)
    (hhere : ∃ entries, s.tree.entry h.here Path.here = .ok (.dir entries))
    (hroot : ((extensionsRequest t).workspace.exec h s).1 = .ok root)
    (hload : ((Config.load root none).exec h s).1 = .ok c) :
    (run ["lint".toList, "--extensions".toList, t]).exec h s =
      (Run.attempt ((extensionsRequest t).reportsFor Registry.standard root c) >>=
        (extensionsRequest t).settle).exec h s := by
  rw [run]
  obtain ⟨_, -, hfile⟩ | hrun := exec_runWith (h := h) (s := s) (ofArguments_extensions h.numerals t)
  · cases (rootIsFile_here rfl hhere).symm.trans hfile
  · rw [hrun, LintRequest.exec_run hroot hload]

/-- Where none are named, the linters that are run are known if those that are enabled are. -/
theorem isSome_get?_of_mem_names {t : Text} {names : List Text}
    (hknown : ∀ name ∈ c.enabledLinters, (Registry.standard.get? name).isSome)
    (hnames : (extensionsRequest t).names Registry.standard c = .ok names) :
    ∀ name ∈ names, (Registry.standard.get? name).isSome := by
  have hunasked : (extensionsRequest t).linters = [] := rfl
  rw [LintRequest.names, if_neg (not_not.2 hunasked)] at hnames
  split at hnames
  · cases hnames
    exact hknown
  · cases hnames
    decide

end Extensions

/-- Where no item of the value is an extension, nothing is launched, and if there is no item at all,
the user is told. Where some item is an extension, the run does not end with the status 2. -/
theorem run_extensions (t : Text) {h : Host} {s : Session} {c : Config}
    (hhere : ∃ entries, s.tree.entry h.here Path.here = .ok (.dir entries))
    (hloads : (extensionsRequest t).Loads h s c)
    (hknown : ∀ name ∈ c.enabledLinters, (Registry.standard.get? name).isSome)
    (hlaunch : ∀ l t f, (h.launch l t).1 = .failed f → ¬ f.isOfUser) :
    let ended := (run ["lint".toList, "--extensions".toList, t]).exec h s
    (Extension.normalize? (Text.commaItems t) = none →
      ended.2.launches = s.launches ∧ (Text.commaItems t = [] → ended.1 = .ok .unusable)) ∧
    (Extension.normalize? (Text.commaItems t) ≠ none →
      ∀ exit, ended.1 = .ok exit → exit.status ≠ 2) := by
  obtain ⟨root, hroot, hload⟩ := hloads
  have hrun := exec_run_extensions t hhere hroot hload
  rw [hrun]
  refine ⟨fun hnone => ⟨?_, fun hempty => ?_⟩, fun husable exit hexit => ?_⟩
  · have hbounded : IsBounded h (· = s.launches) (fun _ => True)
        (Run.attempt ((extensionsRequest t).reportsFor Registry.standard root c) >>=
          (extensionsRequest t).settle) :=
      (LintRequest.reportsFor_launches rfl hnone).attempt_bind LintRequest.settle_isBounded
    exact (hbounded s rfl).2
  · rw [exec_bind, exec_attempt, LintRequest.exec_reportsFor_of_none rfl hempty]
    exact LintRequest.settle_user rfl
  · obtain ⟨names, hnames, -⟩ := (extensionsRequest t).exists_names c
    have hsome : ∀ t', (extensionsRequest t).overrides.extensions = some t' →
        Text.commaItems t' ≠ [] := by
      rintro _ ⟨⟩ hempty
      exact husable (by rw [hempty]; rfl)
    have hnotUser : IsBounded h (fun _ => True) (fun f => ¬ f.isOfUser)
        ((extensionsRequest t).reportsFor Registry.standard root c) :=
      LintRequest.reportsFor_notUser hnames (isSome_get?_of_mem_names hknown hnames) hsome hlaunch
    have hfails := (hnotUser s trivial).1
    rw [exec_bind, exec_attempt] at hexit
    rcases hr : ((extensionsRequest t).reportsFor Registry.standard root c).exec h s with
      ⟨f | ⟨reports, output⟩, s'⟩ <;> rw [hr] at hfails hexit
    · dsimp only at hexit
      rw [LintRequest.settle_other (failsOnly_error.1 hfails)] at hexit
      exact LintRequest.giveUp_status hexit
    · obtain hclean | hfindings := LintRequest.settle_ok (r := extensionsRequest t) reports output
      · obtain rfl := Except.ok.inj (hclean.symm.trans hexit)
        decide
      · obtain rfl := Except.ok.inj (hfindings.symm.trans hexit)
        decide

/-- Two commas name no extension, and a point does not keep an extension from being one. -/
theorem run_extensions_commas :
    let ended := fun t => (run ["lint".toList, "--extensions".toList, t]).exec bareHost
      (.start (.dir []))
    ((ended ", ,".toList).2.launches = [] ∧ (ended ", ,".toList).1 = .ok .unusable) ∧
      ∀ exit, (ended ", .c".toList).1 = .ok exit → exit.status ≠ 2 := by
  have hloads : ∀ t, (extensionsRequest t).Loads bareHost (.start (.dir [])) (.standard 1) :=
    fun t => loads_of_empty _ rfl rfl
  have hends := fun t => run_extensions t ⟨[], rfl⟩ (hloads t) (by decide) fun _ _ _ hf => nomatch hf
  obtain ⟨hlaunches, hended⟩ := (hends ", ,".toList).1 rfl
  exact ⟨⟨hlaunches, hended rfl⟩, (hends ", .c".toList).2 (by decide)⟩

/-- A lone point is an item, but no extension is left of it, and that is told to nobody. -/
theorem run_extensions_point :
    let h := { bareHost with find := some }
    let s := Session.start (.dir [])
    Extension.normalize? (Text.commaItems ['.']) = none ∧
      (extensionsRequest ['.']).Loads h s (.standard 1) ∧
      ((run ["lint".toList, "--extensions".toList, ['.']]).exec h s).1 =
        .error (.search .noExtension) := by
  intro h s
  have hloads : (extensionsRequest ['.']).Loads h s (.standard 1) := loads_of_empty some rfl rfl
  have hworkspace : ((extensionsRequest ['.']).workspace.exec h s).1 = .ok ⟨1, []⟩ :=
    congrArg Prod.fst (workspace_here rfl rfl)
  refine ⟨by decide, hloads, ?_⟩
  obtain ⟨root, hroot, hload⟩ := hloads
  obtain rfl := Except.ok.inj (hroot.symm.trans hworkspace)
  rw [exec_run_extensions ['.'] ⟨[], rfl⟩ hroot hload]
  decide +kernel

end CommandLine

end FormatAudit
