import FormatAudit.Proofs.Config.Override
import FormatAudit.Proofs.Config.Settings

/-! Overrides as an overlay. What is given for a linter is what the same texts come to in a
configuration file, whatever the settings are that it is laid over, so it makes no difference how
often or in which order the linters are named. -/
namespace FormatAudit

namespace Overrides

def toFields (o : Overrides) : Fields :=
  [("extensions".toList, o.extensions), ("args".toList, o.args),
    ("prefix".toList, o.launcher)].filterMap fun f => f.2.map fun t => (f.1, .text t)

variable {o : Overrides} {s : Settings}

theorem get?_toFields (o : Overrides) :
    Fields.get? o.toFields "enabled".toList = none ∧
      Fields.get? o.toFields "extensions".toList = o.extensions.map .text ∧
      Fields.get? o.toFields "args".toList = o.args.map .text ∧
      Fields.get? o.toFields "prefix".toList = o.launcher.map .text ∧
      Fields.get? o.toFields "directory".toList = none := by
  obtain ⟨_ | _, _ | _, _ | _⟩ := o <;> exact ⟨rfl, rfl, rfl, rfl, rfl⟩

theorem unknownFields_toFields (o : Overrides) :
    Intake.unknownFields Settings.fieldNames o.toFields = [] := by
  obtain ⟨_ | _, _ | _, _ | _⟩ := o <;> rfl

/-- Extensions that are laid over some settings are read alike from a file, and can be laid over any
settings. -/
theorem exists_of_readExtensions {extensions : List Text}
    (h : o.readExtensions s = .ok extensions) :
    ∃ given, Intake.optional "extensions".toList Settings.readExtensions
        Settings.standard.extensions o.toFields = .ok given ∧
      ∀ s, o.readExtensions s = .ok (if o.extensions.isSome then given else s.extensions) := by
  obtain ⟨-, hget, -⟩ := o.get?_toFields
  rw [Intake.optional, hget]
  cases hgiven : o.extensions with
  | none => exact ⟨_, rfl, fun s => by rw [readExtensions, hgiven]; rfl⟩
  | some t =>
    rw [readExtensions, hgiven] at h
    by_cases hnone : Text.commaItems t = []
    · simp [hnone] at h
    · refine ⟨Text.commaItems t, rfl, fun s => ?_⟩
      rw [readExtensions, hgiven]
      simp [hnone]

theorem exists_of_readArgs {args : List Text} (h : o.readArgs s = .ok args) :
    ∃ given, Intake.optional "args".toList Settings.readArgs Settings.standard.args o.toFields =
        .ok given ∧
      ∀ s, o.readArgs s = .ok (if o.args.isSome then given else s.args) := by
  obtain ⟨-, -, hget, -⟩ := o.get?_toFields
  rw [Intake.optional, hget]
  cases hgiven : o.args with
  | none => exact ⟨_, rfl, fun s => by rw [readArgs, hgiven]; rfl⟩
  | some t =>
    rw [readArgs, hgiven] at h
    cases hread : Settings.readArgs (.text t) with
    | error issues => simp [hread, Intake.within, Intake.named, Except.mapError] at h
    | ok words =>
      refine ⟨words, by simp [hread, Intake.within, Except.mapError], fun s => ?_⟩
      rw [readArgs, hgiven]
      simp [hread, Intake.within, Intake.named, Except.mapError]

end Overrides

namespace Settings

variable {o : Overrides} {s t : Settings}

def overlay (s : Settings) (o : Overrides) (given : Settings) : Settings :=
  { s with
    extensions := if o.extensions.isSome then given.extensions else s.extensions
    args := if o.args.isSome then given.args else s.args
    launcher := if o.launcher.isSome then given.launcher else s.launcher }

theorem overlay_overlay (s : Settings) (o : Overrides) (given : Settings) :
    (s.overlay o given).overlay o given = s.overlay o given := by
  simp only [overlay]
  split_ifs <;> rfl

/-- Where overrides succeed, they can be read from a file and are laid over any settings. -/
theorem exists_overlay (h : s.override o = .ok t) :
    ∃ given, read (.table o.toFields) = .ok given ∧
      ∀ u : Settings, u.override o = .ok (u.overlay o given) := by
  rw [override_eq] at h
  obtain ⟨_, hextensions, h⟩ := exists_of_bind h
  obtain ⟨_, hargs, -⟩ := exists_of_bind h
  obtain ⟨extensions, hreadExtensions, hextensions⟩ :=
    Overrides.exists_of_readExtensions hextensions
  obtain ⟨args, hreadArgs, hargs⟩ := Overrides.exists_of_readArgs hargs
  obtain ⟨henabled, -, -, hlauncher, hdirectory⟩ := o.get?_toFields
  refine ⟨⟨standard.enabled, extensions, args, o.launcherOver standard, standard.directory⟩,
    readFields_eq_ok.2 ⟨?_, hreadExtensions, hreadArgs, ?_, ?_, o.unknownFields_toFields⟩,
    fun u => ?_⟩
  · rw [Intake.optional, henabled]
  · rw [Intake.optional, hlauncher, Overrides.launcherOver]
    cases o.launcher <;> rfl
  · rw [Intake.optional, hdirectory]
  · rw [override_eq, hextensions, hargs, overlay, Overrides.launcherOver, Overrides.launcherOver]
    cases o.launcher <;> rfl

end Settings

namespace Config

variable {c d : Config} {o : Overrides} {n : Text} {s : Settings}
  {linters : List (Text × Settings)}

theorem settingsFor_nil (c : Config) (name : Text) :
    c.settingsFor name [] = (c.settings? name).getD Settings.standard := by
  rw [settingsFor]
  split
  · next hnone => rw [← hnone]
  · rfl

theorem names_putLinter (n : Text) (s : Settings) (linters : List (Text × Settings)) :
    (putLinter n s linters).map (·.1) =
      if n ∈ linters.map (·.1) then linters.map (·.1) else linters.map (·.1) ++ [n] := by
  induction linters with
  | nil => rfl
  | cons l linters ih =>
    rw [putLinter, List.map_cons]
    by_cases hn : l.1 = n
    · simp [hn]
    · rw [if_neg hn, List.map_cons, ih]
      simp only [List.mem_cons, Ne.symm hn, false_or]
      split <;> rfl

theorem putLinter_of_lookup (h : (linters.find? fun l => l.1 = n).map (·.2) = some s) :
    putLinter n s linters = linters := by
  induction linters with
  | nil => cases h
  | cons l linters ih =>
    rw [List.find?_cons] at h
    rw [putLinter]
    by_cases hn : l.1 = n
    · simp only [hn, decide_true] at h
      cases h
      rw [if_pos hn, ← hn]
    · simp only [hn, decide_false] at h
      rw [if_neg hn, ih h]

/-! ### Linters put in one after the other -/

def putLinters (settings : Text → Settings) (names : List Text)
    (linters : List (Text × Settings)) : List (Text × Settings) :=
  names.foldl (fun linters name => putLinter name (settings name) linters) linters

section PutLinters
variable {settings : Text → Settings} {names : List Text}

theorem putLinters_cons :
    putLinters settings (n :: names) linters =
      putLinters settings names (putLinter n (settings n) linters) :=
  rfl

/-- New names come behind the others, in the order in which they come first. -/
theorem names_putLinters (names : List Text) (linters : List (Text × Settings)) :
    (putLinters settings names linters).map (·.1) =
      linters.map (·.1) ++ (names.removeAll (linters.map (·.1))).eraseDups := by
  induction names generalizing linters with
  | nil => simp [putLinters]
  | cons n names ih =>
    rw [putLinters_cons, ih, names_putLinter, List.cons_removeAll]
    by_cases hn : n ∈ linters.map (·.1)
    · rw [if_pos hn, if_neg (by simpa using hn)]
    · have hrest : names.removeAll (linters.map (·.1) ++ [n]) =
          (names.removeAll (linters.map (·.1))).filter fun m => !m == n := by
        simp only [List.removeAll, List.filter_filter]
        refine List.filter_congr fun m _ => Bool.eq_iff_iff.2 ?_
        simp [and_comm]
      rw [if_neg hn, if_pos (by simpa using hn), List.eraseDups_cons, hrest, List.append_assoc]
      rfl

theorem lookup_putLinters (names : List Text) (linters : List (Text × Settings)) (n : Text) :
    ((putLinters settings names linters).find? fun l => l.1 = n).map (·.2) =
      if n ∈ names then some (settings n) else (linters.find? fun l => l.1 = n).map (·.2) := by
  induction names generalizing linters with
  | nil => rfl
  | cons m names ih =>
    rw [putLinters_cons, ih, lookup_putLinter]
    by_cases hm : m = n
    · simp [hm]
    · simp [hm, Ne.symm hm]

theorem putLinters_of_lookup
    (h : ∀ n ∈ names, (linters.find? fun l => l.1 = n).map (·.2) = some (settings n)) :
    putLinters settings names linters = linters := by
  induction names with
  | nil => rfl
  | cons n names ih =>
    obtain ⟨hn, hnames⟩ := List.forall_mem_cons.1 h
    rw [putLinters_cons, putLinter_of_lookup hn, ih hnames]

end PutLinters

/-! ### Overrides -/

def overlaySettings (c : Config) (o : Overrides) (given : Settings) (name : Text) : Settings :=
  ((c.settings? name).getD Settings.standard).overlay o given

def overlay (c : Config) (o : Overrides) (given : Settings) (names : List Text) : Config :=
  { c with linters := putLinters (c.overlaySettings o given) names c.linters }

section Overlay
variable {given : Settings} {names others : List Text}

theorem settings?_overlay (c : Config) (o : Overrides) (given : Settings) (names : List Text)
    (n : Text) :
    (c.overlay o given names).settings? n =
      if n ∈ names then some (c.overlaySettings o given n) else c.settings? n :=
  lookup_putLinters names c.linters n

/-- An overlay has nothing left to change for the linters that it was laid over. -/
theorem overlay_overlay (h : others ⊆ names) :
    (c.overlay o given names).overlay o given others = c.overlay o given names := by
  have hlinters : putLinters ((c.overlay o given names).overlaySettings o given) others
      (c.overlay o given names).linters = (c.overlay o given names).linters := by
    refine putLinters_of_lookup fun n hn => ?_
    have hsettings : (c.overlay o given names).settings? n =
        some (c.overlaySettings o given n) := by
      rw [settings?_overlay, if_pos (h hn)]
    refine hsettings.trans (congrArg some ?_)
    rw [overlaySettings, overlaySettings, hsettings]
    exact (Settings.overlay_overlay _ o given).symm
  rw [overlay, hlinters]

theorem override_eq_overlay (h : ∀ s : Settings, s.override o = .ok (s.overlay o given))
    (c : Config) (names : List Text) :
    c.override o names = .ok (c.overlay o given names) := by
  have hfold : ∀ linters, names.foldlM (c.overrideIn o) linters =
      .ok (putLinters (c.overlaySettings o given) names linters) := by
    induction names with
    | nil => exact fun _ => rfl
    | cons n names ih =>
      intro linters
      rw [List.foldlM_cons, overrideIn, settingsFor_nil, h]
      exact ih _
  have hoverride : c.override o names = (names.foldlM (c.overrideIn o) c.linters).map
      fun linters => { c with linters := linters } := rfl
  rw [hoverride, hfold]
  rfl

/-- The overrides were laid over the settings of the linters that are named, and over nothing else.
They may be applied again, and the names may be given in another order and more or less often. -/
structure IsOverlay (c : Config) (o : Overrides) (names : List Text) (d : Config) : Prop where
  execution : d.execution = c.execution
  output : d.output = c.output
  order : d.linters.map (·.1) =
    c.linters.map (·.1) ++ (names.removeAll (c.linters.map (·.1))).eraseDups
  unnamed : ∀ n ∉ names, d.settings? n = c.settings? n
  named : ∃ given, Settings.read (.table o.toFields) = .ok given ∧ ∀ n ∈ names,
    d.settings? n = some (((c.settings? n).getD Settings.standard).overlay o given)
  again : ∀ others, others ⊆ names → d.override o others = .ok d
  regrouped : ∀ others, (∀ n, n ∈ others ↔ n ∈ names) →
    ∃ e, c.override o others = .ok e ∧ ∀ n, e.settings? n = d.settings? n

theorem override_isOverlay (hnames : names ≠ []) (h : c.override o names = .ok d) :
    IsOverlay c o names d := by
  obtain ⟨n, rest, rfl⟩ := List.exists_cons_of_ne_nil hnames
  -- the first linter that is named shows that the overrides can be laid over any settings
  obtain ⟨linters, hfold, -⟩ := exists_of_bind h
  rw [List.foldlM_cons] at hfold
  obtain ⟨_, hfirst, -⟩ := exists_of_bind hfold
  obtain ⟨_, hfirst, -⟩ := exists_of_bind hfirst
  obtain ⟨given, hread, hover⟩ := Settings.exists_overlay hfirst
  rw [override_eq_overlay hover] at h
  cases h
  constructor
  case execution => rfl
  case output => rfl
  case order => exact names_putLinters _ c.linters
  case unnamed => exact fun m hm => by rw [settings?_overlay, if_neg hm]
  case named => exact ⟨given, hread, fun m hm => by rw [settings?_overlay, if_pos hm]; rfl⟩
  case again =>
    intro others hothers
    rw [override_eq_overlay hover, overlay_overlay hothers]
  case regrouped =>
    intro others hothers
    refine ⟨_, override_eq_overlay hover c others, fun m => ?_⟩
    rw [settings?_overlay, settings?_overlay]
    simp only [hothers]

/-- A linter that is configured and one that is not, which is named twice. -/
theorem override_isOverlay_twice :
    let c : Config := ⟨.standard 1, .standard, [("other".toList, .standard),
      ("clang_format".toList, ⟨false, [['c']], ["-v".toList], "xcrun".toList, Path.here⟩)]⟩
    let o : Overrides := ⟨some " .h,, m".toList, some "--style='{Indent: 2}'".toList, none⟩
    let names := ["new".toList, "clang_format".toList, "new".toList]
    ∃ d, c.override o names = .ok d ∧ IsOverlay c o names d ∧
      d.linters.map (·.1) = ["other".toList, "clang_format".toList, "new".toList] ∧
      d.settings? "clang_format".toList = some ⟨false, [".h".toList, ['m']],
        ["--style={Indent: 2}".toList], "xcrun".toList, Path.here⟩ := by
  intro c o names
  have hoverride : c.override o names = .ok { c with linters := [("other".toList, .standard),
      ("clang_format".toList, ⟨false, [".h".toList, ['m']], ["--style={Indent: 2}".toList],
        "xcrun".toList, Path.here⟩),
      ("new".toList, ⟨true, [".h".toList, ['m']], ["--style={Indent: 2}".toList], [],
        Path.here⟩)] } := by
    decide +kernel
  exact ⟨_, hoverride, override_isOverlay (by decide) hoverride, rfl, rfl⟩

end Overlay

end Config

end FormatAudit
