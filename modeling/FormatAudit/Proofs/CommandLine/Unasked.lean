import FormatAudit.CommandLine.Run
import FormatAudit.Proofs.Config.Load

/-! Runs for which no linter is named on the command line. Of the linters that the configuration
switches off none is looked at, so that whatever stands in the registry for them makes no
difference. The exception is a configuration that switches all of its linters off, the first one of
the registry among them. -/
namespace FormatAudit
variable {h : Host} {s : Session} {registry other : Registry Linter} {c : Config} {r : LintRequest}

def Config.disables (c : Config) (name : Text) : Bool :=
  (c.settings? name).any (!·.enabled)

theorem Config.disables_of_mem_enabledLinters {name : Text} (hkeyed : c.IsKeyed)
    (hname : name ∈ c.enabledLinters) : c.disables name = false := by
  simp only [enabledLinters, List.mem_map, List.mem_filter] at hname
  obtain ⟨⟨_, settings⟩, ⟨hmem, henabled⟩, rfl⟩ := hname
  have hsettings : c.settings? _ = some settings := (find?_map_eq_some hkeyed).2 hmem
  simpa [disables, hsettings] using henabled

theorem Run.ofExcept_bind_congr {α β : Type} {x : Except Failure α} {f g : α → Run β}
    (hfg : ∀ a, x = .ok a → f a = g a) : (ofExcept id x >>= f) = (ofExcept id x >>= g) := by
  cases x with
  | error e => rfl
  | ok a => simp only [ofExcept, pure_bind, hfg a rfl]

namespace Registry

theorem runOne_congr {name : Text} (hname : other.get? name = registry.get? name) (config : Config)
    (root : Path) (f : Factory Linter) :
    other.runOne config root name f = registry.runOne config root name f := by
  simp only [runOne, create, get, hname]

/-- Only the linters that are run are taken from the registry. -/
theorem runAll_congr {names : List Text}
    (hnames : ∀ name ∈ names, other.get? name = registry.get? name) (config : Config)
    (root : Path) : other.runAll config root names = registry.runAll config root names := by
  have hget : (names.mapM fun name => (other.get name).map fun f => (name, f)) =
      names.mapM fun name => (registry.get name).map fun f => (name, f) :=
    mapM_congr fun name hname => by rw [get, get, hnames name hname]
  rw [runAll, runAll, hget]
  refine Run.ofExcept_bind_congr fun factories hfactories => mapM_congr fun factory hmem => ?_
  obtain ⟨name, hname, hmade⟩ := exists_mem_of_mapM hfactories factory hmem
  obtain ⟨f, -, rfl⟩ := exists_of_map hmade
  exact runOne_congr (hnames name hname) config root f

end Registry

namespace LintRequest

theorem names_congr (hnames : other.names = registry.names) (r : LintRequest) (c : Config) :
    r.names other c = r.names registry c := by
  rw [names, names, hnames]

/-- Without linters on the command line only such linters are run as are not switched off, unless
all that are configured are. -/
theorem not_disables_of_mem_names (hunasked : r.linters = []) (hkeyed : c.IsKeyed)
    (hsome : c.enabledLinters ≠ [] ∨ ∀ first ∈ registry.names.head?, c.disables first = false)
    {names : List Text} (hnames : r.names registry c = .ok names) :
    ∀ name ∈ names, c.disables name = false := by
  rw [LintRequest.names, if_neg (not_not.2 hunasked)] at hnames
  split at hnames
  · cases hnames
    exact fun name => c.disables_of_mem_enabledLinters hkeyed
  · next hnone =>
    have hfirst := hsome.resolve_left hnone
    split at hnames
    · next first rest heq =>
      cases hnames
      rw [heq, List.head?_cons] at hfirst
      simpa using hfirst
    · cases hnames

def Loads (r : LintRequest) (h : Host) (s : Session) (c : Config) : Prop :=
  ∃ root, (r.workspace.exec h s).1 = .ok root ∧ ((Config.load root r.configFile).exec h s).1 = .ok c

theorem exec_workspace (r : LintRequest) : (r.workspace.exec h s).2 = s := by
  rw [workspace, Run.exec_read_bind, Run.exec_get_bind]
  dsimp only
  split <;> rfl

theorem exec_reports_congr {root : Path} (hnames : other.names = registry.names)
    (hsame : ∀ c, ((Config.load root r.configFile).exec h s).1 = .ok c → ∀ names,
      r.names registry c = .ok names → ∀ name ∈ names, other.get? name = registry.get? name) :
    (r.reports other root).exec h s = (r.reports registry root).exec h s := by
  rw [reports, reports, Run.exec_bind, Run.exec_bind]
  rcases hload : (Config.load root r.configFile).exec h s with ⟨e | c, s'⟩
  · rfl
  · dsimp only
    rw [names_congr hnames]
    refine congrArg (fun x => Run.exec x h s') (Run.ofExcept_bind_congr fun names hchosen => ?_)
    simp only [Registry.runAll_congr (hsame c (by rw [hload]) names hchosen)]

end LintRequest

namespace CommandLine

theorem runWith_congr {args : List Text} (hargs : Request.ofArguments h.numerals args = .ok (.lint r))
    (hnames : other.names = registry.names)
    (hsame : ∀ c, r.Loads h s c → ∀ names, r.names registry c = .ok names →
      ∀ name ∈ names, other.get? name = registry.get? name) :
    (runWith other args).exec h s = (runWith registry args).exec h s := by
  obtain ⟨fault?, hcheck⟩ : ∃ fault?, (Request.check (.lint r)).exec h s = (.ok fault?, s) :=
    ⟨_, rfl⟩
  rw [runWith, runWith, Run.exec_read_bind, Run.exec_read_bind, hargs]
  dsimp only
  rw [Run.exec_bind, Run.exec_bind, hcheck]
  cases fault? with
  | some fault => rfl
  | none =>
    change (r.run other).exec h s = (r.run registry).exec h s
    rw [LintRequest.run, LintRequest.run, Run.exec_bind, Run.exec_bind]
    have hstays := r.exec_workspace (h := h) (s := s)
    rcases hroot : r.workspace.exec h s with ⟨e | root, s'⟩
    · rfl
    · obtain rfl : s' = s := by rwa [hroot] at hstays
      have hloads : ∀ c, ((Config.load root r.configFile).exec h s').1 = .ok c → r.Loads h s' c :=
        fun c hc => ⟨root, by rw [hroot], hc⟩
      dsimp only
      rw [Run.exec_bind, Run.exec_bind, Run.exec_attempt, Run.exec_attempt,
        LintRequest.exec_reports_congr hnames fun c hc => hsame c (hloads c hc)]

/-- Where no linter is named on the command line, no linter that is switched off is chosen, and the
run is the same whatever stands in the registry for such linters. The configuration has to leave
some linter switched on, or not to switch off the first one of the registry. -/
theorem runWith_unasked {args : List Text} (hargs : Request.ofArguments h.numerals args = .ok (.lint r))
    (hunasked : r.linters = []) (hnames : other.names = registry.names)
    (hsome : ∀ c, r.Loads h s c → c.enabledLinters ≠ [] ∨
      ∀ first ∈ registry.names.head?, c.disables first = false)
    (hsame : ∀ c, r.Loads h s c → ∀ name, c.disables name = false →
      other.get? name = registry.get? name) :
    (∀ c, r.Loads h s c → ∀ names, r.names registry c = .ok names →
      ∀ name ∈ names, c.disables name = false) ∧
    (runWith other args).exec h s = (runWith registry args).exec h s := by
  have hchosen : ∀ c, r.Loads h s c → ∀ names, r.names registry c = .ok names →
      ∀ name ∈ names, c.disables name = false := by
    intro c hc names hchosen
    have hkeyed : c.IsKeyed := by
      obtain ⟨root, -, hload⟩ := hc
      exact Config.isKeyed_of_load hload
    exact LintRequest.not_disables_of_mem_names hunasked hkeyed (hsome c hc) hchosen
  exact ⟨hchosen, runWith_congr hargs hnames fun c hc names hok name hname =>
    hsame c hc name (hchosen c hc names hok name hname)⟩

def bareRequest : LintRequest :=
  ⟨['.'], [], ⟨none, none, none⟩, false, none, none, none, false, false⟩

def configured (toml : String) : Session :=
  .start (.dir [(Config.ownFile, .file (Utf8.encode toml.toList) true false)])

/-- From the top of the tree, the workspace of a command line that names none is that top. -/
theorem workspace_here (hroot : r.root = ['.']) (hhere : h.here = []) :
    r.workspace.exec h s = (.ok ⟨1, []⟩, s) := by
  have htop : s.tree.canonical h.here (Path.ofText r.root) = ⟨1, []⟩ := by
    have hparts : (Path.ofText r.root).parts = [] := by
      rw [hroot]
      decide
    rw [FileTree.canonical, hparts, hhere, FileTree.follow, ite_self]
    rfl
  rw [LintRequest.workspace, Run.exec_read_bind, Run.exec_get_bind]
  dsimp only
  rw [htop]
  rfl

theorem workspace_bareRequest (s : Session) :
    bareRequest.workspace.exec bareHost s = (.ok ⟨1, []⟩, s) :=
  workspace_here rfl rfl

theorem loads_bareRequest :
    bareRequest.Loads bareHost s c ↔ ((Config.load ⟨1, []⟩ none).exec bareHost s).1 = .ok c := by
  rw [LintRequest.Loads, workspace_bareRequest]
  constructor
  · rintro ⟨root, hroot, hload⟩
    cases hroot
    exact hload
  · exact fun hload => ⟨_, rfl, hload⟩

/-- A linter that finds nothing, and prints a text when it is verified. -/
def printing (name : String) (t : Text) : Linter :=
  { name := name.toList
    defaultExtensions := []
    verify := fun _ => Run.print t
    lint := fun _ _ _ => return ⟨0, [], []⟩
    findings := fun _ _ => return ⟨true, [], []⟩ }

/-- Two linters, of which the first one prints a text when it is verified. -/
def printers (t : Text) : Registry Linter :=
  ⟨[("first".toList, ⟨[], fun _ => return printing "first" t⟩),
    ("second".toList, ⟨[], fun _ => return printing "second" []⟩)]⟩

def firstOff : Session :=
  configured "[linters.first]\nenabled = false\n[linters.second]\n"

theorem runWith_unasked_printers :
    (∀ c, bareRequest.Loads bareHost firstOff c →
      ∀ names, bareRequest.names (printers []) c = .ok names →
        ∀ name ∈ names, c.disables name = false) ∧
    (runWith (printers ['!']) ["lint".toList]).exec bareHost firstOff =
      (runWith (printers []) ["lint".toList]).exec bareHost firstOff := by
  let off : Config := ⟨.standard 1, .standard,
    [("first".toList, { Settings.standard with enabled := false }),
      ("second".toList, .standard)]⟩
  have hload : ((Config.load ⟨1, []⟩ none).exec bareHost firstOff).1 = .ok off := by
    decide +kernel
  have hloads : ∀ c, bareRequest.Loads bareHost firstOff c → c = off := fun c hc =>
    Except.ok.inj ((loads_bareRequest.1 hc).symm.trans hload)
  refine runWith_unasked (by decide) rfl rfl (fun c hc => ?_) fun c hc name hname => ?_
  · obtain rfl := hloads c hc
    decide
  · obtain rfl := hloads c hc
    have hfirst : "first".toList ≠ name := by
      rintro rfl
      exact absurd hname (by decide)
    simp only [Registry.get?, printers, List.find?_cons, hfirst, decide_false]

/-- With every linter switched off, the first one of the registry is verified all the same. -/
theorem run_all_disabled :
    let s := configured "[linters.clang_format]\nenabled = false\n"
    ∃ r c, Request.ofArguments bareHost.numerals ["lint".toList] = .ok (.lint r) ∧
      r.linters = [] ∧
      r.Loads bareHost s c ∧ c.disables ClangFormat.name ∧
      ((run ["lint".toList]).exec bareHost s).2.lookups = ["clang-format".toList] := by
  intro s
  let off : Config := ⟨.standard 1, .standard,
    [(ClangFormat.name, { Settings.standard with enabled := false })]⟩
  have hload : ((Config.load ⟨1, []⟩ none).exec bareHost s).1 = .ok off := by
    decide +kernel
  have hargs : Request.ofArguments bareHost.numerals ["lint".toList] = .ok (.lint bareRequest) := by
    decide
  have hcheck : (Request.check (.lint bareRequest)).exec bareHost s = (.ok none, s) := rfl
  refine ⟨bareRequest, off, hargs, rfl, loads_bareRequest.2 hload, by decide, ?_⟩
  rw [run, runWith, Run.exec_read_bind, hargs]
  dsimp only
  rw [Run.exec_bind, hcheck]
  change ((bareRequest.run Registry.standard).exec bareHost s).2.lookups = _
  rw [LintRequest.run, Run.exec_bind, workspace_bareRequest]
  decide +kernel

end CommandLine

end FormatAudit
