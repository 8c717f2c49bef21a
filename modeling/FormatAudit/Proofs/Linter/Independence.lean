import FormatAudit.Proofs.Linter.Success
import FormatAudit.Proofs.Session.Promises

/-! Linters that depend on nothing but what they are asked for and the files, and that leave the
files alone. A run of several of them comes to one report for each name, in the order of the names,
and each report is the one that a run of that linter alone comes to. -/
namespace FormatAudit

variable {h : Host} {tree : FileTree}

namespace Run

variable {α β : Type}

/-- Over the files of `tree`, whatever was done before, the computation comes to the result `r` and
leaves the files as they are. -/
def Yields (h : Host) (tree : FileTree) (x : Run α) (r : Except Failure α) : Prop :=
  Ensures h (fun s => s.tree = tree) x (· = r)

theorem yields_pure (a : α) : Yields h tree (pure a) (.ok a) :=
  ensures_pure rfl

theorem yields_say (level : Console.Level) (t : Text) (emoji : Bool) (color : Option Bool) :
    Yields h tree (say level t emoji color) (.ok ()) :=
  fun _ hs => ⟨rfl, hs⟩

theorem Yields.bind {x : Run α} {f : α → Run β} {a : α} {r : Except Failure β}
    (hx : Yields h tree x (.ok a)) (hf : Yields h tree (f a) r) : Yields h tree (x >>= f) r := by
  refine Ensures.bind hx ?_ ?_
  · rintro b ⟨⟩
    exact hf
  · rintro e ⟨⟩

theorem Yields.attempt {x : Run α} {r : Except Failure α} (hx : Yields h tree x r) :
    Yields h tree (attempt x) (.ok r) := by
  refine (Ensures.attempt hx).mono ?_
  rintro _ ⟨_, rfl, rfl⟩
  rfl

theorem yields_mapM {f : α → Run β} {g : α → β} {items : List α}
    (hf : ∀ a ∈ items, Yields h tree (f a) (.ok (g a))) :
    Yields h tree (items.mapM f) (.ok (items.map g)) := by
  refine (ensures_mapM hf).mono fun r hr => ?_
  rw [hr.eq_mapM]
  exact List.mapM_pure

end Run

open Run

namespace Linter

variable {l : Linter} {settings : Settings} {root dir : Path} {fix : Bool} {output : Output}
  {e : Envelope} {f : Findings}

/-- What the linter does follows from what it is asked for and from the files, which it leaves as
they are; it fails only in its verification, for want of a program. -/
structure IsSteady (h : Host) (tree : FileTree) (l : Linter) : Prop where
  verify : ∀ dir, Yields h tree (l.verify dir) (.ok ()) ∨
    ∃ linter program, Yields h tree (l.verify dir) (.error (.notInstalled linter program))
  lint : ∀ dir extensions fix, ∃ e, Yields h tree (l.lint dir extensions fix) (.ok e)
  findings : ∀ root e, ∃ f, Yields h tree (l.findings root e) (.ok f)

theorem runVerified_yields {extensions : List Text}
    (he : Yields h tree (l.lint dir extensions fix) (.ok e))
    (hf : Yields h tree (l.findings root e) (.ok f)) :
    Yields h tree (l.runVerified extensions root dir fix output) (.ok (l.ranReport e f)) := by
  refine (yields_say _ _ _ _).bind (he.bind (hf.bind ?_))
  rw [ranReport]
  split
  · exact (yields_say _ _ _ _).bind (yields_pure _)
  · exact (yields_say _ _ _ _).bind (yields_pure _)

theorem run_yields_skipped {linter program : Text}
    (hverify : Yields h tree (l.verify (Path.join root settings.directory))
      (.error (.notInstalled linter program))) :
    Yields h tree (l.run settings root fix output)
      (.ok (l.skippedReport (Failure.notInstalled linter program).message)) := by
  have hmissing : Yields h tree (l.missing? (Path.join root settings.directory))
      (.ok (some (Failure.notInstalled linter program).message)) :=
    hverify.attempt.bind (yields_pure _)
  exact (yields_say _ _ _ _).bind (hmissing.bind ((yields_say _ _ _ _).bind (yields_pure _)))

theorem run_yields_ran
    (hverify : Yields h tree (l.verify (Path.join root settings.directory)) (.ok ()))
    (he : Yields h tree (l.lint (Path.join root settings.directory)
      (if settings.extensions = [] then l.defaultExtensions else settings.extensions) fix) (.ok e))
    (hf : Yields h tree (l.findings root e) (.ok f)) :
    Yields h tree (l.run settings root fix output) (.ok (l.ranReport e f)) := by
  have hmissing : Yields h tree (l.missing? (Path.join root settings.directory)) (.ok none) :=
    hverify.attempt.bind (yields_pure _)
  exact (yields_say _ _ _ _).bind (hmissing.bind ((yields_say _ _ _ _).bind
    (runVerified_yields he hf)))

/-- A steady linter always comes to a report, and always to the same one. -/
theorem IsSteady.run (hl : l.IsSteady h tree) (settings : Settings) (root : Path) (fix : Bool)
    (output : Output) : ∃ report, Yields h tree (l.run settings root fix output) (.ok report) := by
  obtain hverify | ⟨linter, program, hverify⟩ := hl.verify (Path.join root settings.directory)
  · obtain ⟨e, he⟩ := hl.lint (Path.join root settings.directory)
      (if settings.extensions = [] then l.defaultExtensions else settings.extensions) fix
    obtain ⟨f, hf⟩ := hl.findings root e
    exact ⟨l.ranReport e f, run_yields_ran hverify he hf⟩
  · exact ⟨_, run_yields_skipped hverify⟩

end Linter

namespace Registry

variable {registry : Registry Linter} {config : Config} {root : Path} {names : List Text}

/-- Every linter that is registered is steady, and made in the same way every time. -/
def IsSteady (h : Host) (tree : FileTree) (registry : Registry Linter) : Prop :=
  ∀ name f, registry.get? name = some f → ∀ options,
    ∃ l, Yields h tree (f.make options) (.ok l) ∧ l.IsSteady h tree

theorem IsSteady.runOne (hsteady : registry.IsSteady h tree) (config : Config) (root : Path)
    {name : Text} {f : Factory Linter} (hf : registry.get? name = some f) :
    ∃ report, Yields h tree (registry.runOne config root name f) (.ok report) := by
  rw [Registry.runOne, create, get_eq_ok.2 hf]
  obtain ⟨l, hmake, hl⟩ := hsteady name f hf _
  obtain ⟨report, hrun⟩ := hl.run (config.settingsFor name f.defaultExtensions) root
    config.execution.autoFix config.output
  exact ⟨report, ((yields_pure f).bind hmake).bind hrun⟩

theorem exists_factories (hnames : ∀ name ∈ names, (registry.get? name).isSome) :
    ∃ factories : List (Text × Factory Linter),
      (names.mapM fun name => (registry.get name).map fun f => (name, f)) = .ok factories ∧
      factories.map (·.1) = names ∧ ∀ p ∈ factories, registry.get? p.1 = some p.2 := by
  induction names with
  | nil => exact ⟨[], rfl, rfl, by simp⟩
  | cons name names ih =>
    obtain ⟨hname, hnames⟩ := List.forall_mem_cons.1 hnames
    obtain ⟨f, hf⟩ := Option.isSome_iff_exists.1 hname
    obtain ⟨factories, hmapM, hfirst, hall⟩ := ih hnames
    refine ⟨(name, f) :: factories, ?_, by rw [List.map_cons, hfirst],
      List.forall_mem_cons.2 ⟨hf, hall⟩⟩
    rw [List.mapM_cons, get_eq_ok.2 hf, hmapM]
    rfl

theorem runAll_yields {report : Text → Report}
    (hreport : ∀ name f, registry.get? name = some f →
      Yields h tree (registry.runOne config root name f) (.ok (report name)))
    (hnames : ∀ name ∈ names, (registry.get? name).isSome) :
    Yields h tree (registry.runAll config root names) (.ok (names.map report)) := by
  obtain ⟨factories, hmapM, hfirst, hall⟩ := exists_factories hnames
  have hreports : factories.map (fun p => report p.1) = names.map report := by
    rw [← hfirst, List.map_map]
    rfl
  rw [runAll, hmapM, ← hreports]
  exact (yields_pure factories).bind
    (yields_mapM fun p hp => hreport p.1 p.2 (hall p hp))

/-- The reports on two lists of linters, run one after the other, are those on the first list and
then those on the second. There is one for each name, and it is the report on that linter alone,
whether or not a program is missing for any of them. -/
theorem runAll_append (hsteady : registry.IsSteady h tree) (config : Config) (root : Path) :
    ∃ report : Text → Report,
      (∀ name f, registry.get? name = some f →
        Yields h tree (registry.runOne config root name f) (.ok (report name))) ∧
      ∀ xs ys, (∀ name ∈ xs ++ ys, (registry.get? name).isSome) →
        Yields h tree (registry.runAll config root xs) (.ok (xs.map report)) ∧
        Yields h tree (registry.runAll config root ys) (.ok (ys.map report)) ∧
        Yields h tree (registry.runAll config root (xs ++ ys))
          (.ok (xs.map report ++ ys.map report)) := by
  have hone : ∀ name, ∃ report, ∀ f, registry.get? name = some f →
      Yields h tree (registry.runOne config root name f) (.ok report) := by
    intro name
    cases hget : registry.get? name with
    | none => exact ⟨⟨name, ⟨false, [], []⟩, [], none, none⟩, nofun⟩
    | some f =>
      obtain ⟨report, hrun⟩ := hsteady.runOne config root hget
      refine ⟨report, ?_⟩
      rintro _ ⟨⟩
      exact hrun
  choose report hreport using hone
  refine ⟨report, hreport, fun xs ys hnames => ?_⟩
  obtain ⟨hxs, hys⟩ := List.forall_mem_append.1 hnames
  refine ⟨runAll_yields hreport hxs, runAll_yields hreport hys, ?_⟩
  rw [← List.map_append]
  exact runAll_yields hreport hnames

/-- A linter that does no more than to be verified, and ends with a status of its own. -/
def endingWith (name : String) (verify : Run Unit) (status : Int) : Linter :=
  { name := name.toList
    defaultExtensions := []
    verify := fun _ => verify
    lint := fun _ _ _ => return ⟨status, [], []⟩
    findings := fun _ e => return ⟨e.status = 0, [], []⟩ }

/-- Three linters: one prints a mark and finds nothing, one lacks its program, and one is killed. -/
def unlikeLinters : List Linter :=
  [endingWith "calm" (Run.print ['!']) 0,
    endingWith "gone" (throw (.notInstalled "gone".toList "indent".toList)) 0,
    endingWith "killed" (pure ()) (-9)]

def unlike : Registry Linter :=
  ⟨unlikeLinters.map fun l => (l.name, ⟨[], fun _ => return l⟩)⟩

theorem isSteady_unlike : unlike.IsSteady h tree := by
  intro name f hf options
  obtain ⟨p, hp, rfl⟩ := Option.map_eq_some_iff.1 hf
  obtain ⟨l, hl, rfl⟩ := List.mem_map.1 (List.mem_of_find?_eq_some hp)
  refine ⟨l, yields_pure l, ?_⟩
  simp only [unlikeLinters, List.mem_cons, List.not_mem_nil, or_false] at hl
  obtain rfl | rfl | rfl := hl
  · exact ⟨fun _ => .inl fun _ hs => ⟨rfl, hs⟩, fun _ _ _ => ⟨_, yields_pure _⟩,
      fun _ _ => ⟨_, yields_pure _⟩⟩
  · exact ⟨fun _ => .inr ⟨_, _, fun _ hs => ⟨rfl, hs⟩⟩, fun _ _ _ => ⟨_, yields_pure _⟩,
      fun _ _ => ⟨_, yields_pure _⟩⟩
  · exact ⟨fun _ => .inl (yields_pure ()), fun _ _ _ => ⟨_, yields_pure _⟩,
      fun _ _ => ⟨_, yields_pure _⟩⟩

/-- The linter that finds nothing is reported twice, each time next to one that comes to grief. -/
theorem runAll_append_unlike :
    let xs := ["gone".toList, "calm".toList]
    let ys := ["calm".toList, "killed".toList]
    let ran := fun names => unlike.runAll (.standard 1) ⟨1, []⟩ names
    (((ran (xs ++ ys)).exec ClangFormat.uniformHost (.start (.dir []))).1.map fun reports =>
        reports.map Report.isOk) = .ok [false, true, true, false] ∧
      ∃ report : Text → Report,
        Yields ClangFormat.uniformHost (.dir []) (ran xs) (.ok (xs.map report)) ∧
        Yields ClangFormat.uniformHost (.dir []) (ran ys) (.ok (ys.map report)) ∧
        Yields ClangFormat.uniformHost (.dir []) (ran (xs ++ ys))
          (.ok (xs.map report ++ ys.map report)) := by
  intro xs ys ran
  have hsteady : unlike.IsSteady ClangFormat.uniformHost (.dir []) := isSteady_unlike
  obtain ⟨report, -, hreports⟩ := runAll_append hsteady (.standard 1) ⟨1, []⟩
  exact ⟨by decide +kernel, report, hreports xs ys (by decide)⟩

end Registry

end FormatAudit
