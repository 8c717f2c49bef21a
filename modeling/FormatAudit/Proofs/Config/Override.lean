import FormatAudit.Config.Override
import FormatAudit.Proofs.Result

/-! What overrides do to the linters that are named. What is given takes the place of what is
configured, and the overrides fail for one linter as they fail for any other. -/
namespace FormatAudit

namespace Overrides

def extensionsOver (o : Overrides) (s : Settings) : List Text :=
  (o.extensions.map Text.commaItems).getD s.extensions

def launcherOver (o : Overrides) (s : Settings) : Text :=
  o.launcher.getD s.launcher

def malformedArgs (fault : ShellWords.Fault) : Intake.Rejection :=
  ⟨Settings.recordName, [⟨[.field "args".toList], .invalid fault.message⟩]⟩

/-- How overrides fail: no extension is named, or the arguments are no command line. -/
inductive Fails (o : Overrides) : Failure → Prop
  | extensions {t : Text} (given : o.extensions = some t) (empty : Text.commaItems t = []) :
    Fails o (.config (.noExtensionNamed t))
  | args {t : Text} {fault : ShellWords.Fault} (given : o.args = some t)
    (malformed : ShellWords.split t = .error fault) : Fails o (.rejected (malformedArgs fault))

structure Applies (o : Overrides) (s t : Settings) : Prop where
  extensions : t.extensions = o.extensionsOver s
  launcher : t.launcher = o.launcherOver s

def readExtensions (o : Overrides) (s : Settings) : Except Failure (List Text) :=
  match o.extensions with
  | none => .ok s.extensions
  | some t =>
    if Text.commaItems t = [] then .error (.config (.noExtensionNamed t))
    else .ok (Text.commaItems t)

def readArgs (o : Overrides) (s : Settings) : Except Failure (List Text) :=
  match o.args with
  | none => .ok s.args
  | some t =>
    (Intake.named Settings.recordName
      (Intake.within (.field "args".toList) (Settings.readArgs (.text t)))).mapError .rejected

section Read

variable {o : Overrides} {s : Settings} {f : Failure}

theorem fails_of_readExtensions (h : o.readExtensions s = .error f) : o.Fails f := by
  rw [readExtensions] at h
  split at h
  · cases h
  · next t hgiven =>
    split at h <;> cases h
    exact .extensions hgiven ‹_›

theorem eq_of_readExtensions {extensions : List Text} (h : o.readExtensions s = .ok extensions) :
    extensions = o.extensionsOver s := by
  rw [readExtensions] at h
  rw [extensionsOver]
  split at h
  · next hnone =>
    cases h
    rw [hnone]
    rfl
  · next t hgiven =>
    split at h <;> cases h
    rw [hgiven]
    rfl

theorem fails_of_readArgs (h : o.readArgs s = .error f) : o.Fails f := by
  rw [readArgs] at h
  split at h
  · cases h
  · next t hgiven =>
    cases hsplit : ShellWords.split t with
    | error fault =>
      simp only [Settings.readArgs, hsplit] at h
      cases h
      exact .args hgiven hsplit
    | ok words =>
      simp only [Settings.readArgs, hsplit] at h
      cases h

end Read

end Overrides

variable {o : Overrides} {f : Failure}

namespace Settings

variable {s : Settings}

theorem override_noExtension {t : Text} (hgiven : o.extensions = some t)
    (hnone : Text.commaItems t = []) : s.override o = .error (.config (.noExtensionNamed t)) := by
  rw [override, hgiven]
  simp only [hnone, if_true]
  rfl

theorem override_eq (o : Overrides) (s : Settings) :
    s.override o = do
      let extensions ← o.readExtensions s
      let args ← o.readArgs s
      return { s with
        extensions := extensions, args := args, launcher := o.launcherOver s } := by
  obtain ⟨extensions?, args?, launcher?⟩ := o
  rw [override, Overrides.readExtensions]
  cases extensions? with
  | none => cases args? <;> rfl
  | some t =>
    dsimp only
    split
    · rfl
    · cases args? <;> rfl

theorem override_cases (o : Overrides) (s : Settings) :
    (∃ f, s.override o = .error f ∧ o.Fails f) ∨ ∃ t, s.override o = .ok t ∧ o.Applies s t := by
  rw [override_eq]
  cases hextensions : o.readExtensions s with
  | error f => exact .inl ⟨f, rfl, Overrides.fails_of_readExtensions hextensions⟩
  | ok extensions =>
    cases hargs : o.readArgs s with
    | error f => exact .inl ⟨f, rfl, Overrides.fails_of_readArgs hargs⟩
    | ok args => exact .inr ⟨_, rfl, Overrides.eq_of_readExtensions hextensions, rfl⟩

end Settings

namespace Config

variable {c : Config} {names : List Text}

theorem lookup_putLinter {name n : Text} {s : Settings} {linters : List (Text × Settings)} :
    ((putLinter name s linters).find? fun l => l.1 = n).map (·.2) =
      if name = n then some s else (linters.find? fun l => l.1 = n).map (·.2) := by
  induction linters with
  | nil => by_cases hn : name = n <;> simp [putLinter, hn]
  | cons l linters ih =>
    obtain ⟨m, t⟩ := l
    rw [putLinter]
    by_cases hm : m = name
    · subst hm
      by_cases hn : m = n <;> simp [hn]
    · rw [if_neg hm, List.find?_cons, List.find?_cons]
      by_cases hn : m = n
      · subst hn
        simp [Ne.symm hm]
      · simpa [hn] using ih

def overrideIn (c : Config) (o : Overrides) (linters : List (Text × Settings)) (name : Text) :
    Except Failure (List (Text × Settings)) := do
  let s ← (c.settingsFor name []).override o
  return putLinter name s linters

theorem foldlM_overrideIn (names : List Text) (linters : List (Text × Settings)) :
    (∃ f, names.foldlM (c.overrideIn o) linters = .error f ∧ o.Fails f) ∨
      ∃ linters', names.foldlM (c.overrideIn o) linters = .ok linters' ∧
        (∀ name ∈ names, ∃ t, o.Applies (c.settingsFor name []) t ∧
          (linters'.find? fun l => l.1 = name).map (·.2) = some t) ∧
        ∀ name ∉ names, (linters'.find? fun l => l.1 = name).map (·.2) =
          (linters.find? fun l => l.1 = name).map (·.2) := by
  induction names generalizing linters with
  | nil => exact .inr ⟨linters, rfl, by simp, fun _ _ => rfl⟩
  | cons name names ih =>
    rw [List.foldlM_cons, overrideIn]
    obtain ⟨f, hf, hfails⟩ | ⟨t, ht, happlies⟩ := (c.settingsFor name []).override_cases o
    · exact .inl ⟨f, by rw [hf]; rfl, hfails⟩
    · have hstep : ((c.settingsFor name []).override o >>= fun s =>
          pure (putLinter name s linters)) = Except.ok (putLinter name t linters) := by
        rw [ht]
        rfl
      rw [hstep]
      obtain ⟨f, hf, hfails⟩ | ⟨linters', hok, hnamed, hother⟩ := ih (putLinter name t linters)
      · exact .inl ⟨f, hf, hfails⟩
      · refine .inr ⟨linters', hok, List.forall_mem_cons.2 ⟨?_, hnamed⟩, fun n hn => ?_⟩
        · by_cases hagain : name ∈ names
          · exact hnamed name hagain
          · exact ⟨t, happlies, by rw [hother name hagain, lookup_putLinter, if_pos rfl]⟩
        · obtain ⟨hne, hn⟩ := not_or.1 (fun h => hn (List.mem_cons.2 h))
          rw [hother n hn, lookup_putLinter, if_neg (Ne.symm hne)]

theorem override_cases (o : Overrides) (names : List Text) (c : Config) :
    (∃ f, c.override o names = .error f ∧ o.Fails f) ∨
      ∃ d, c.override o names = .ok d ∧
        ∀ name ∈ names, ∃ t, o.Applies (c.settingsFor name []) t ∧ d.settings? name = some t := by
  have hoverride : c.override o names = (names.foldlM (c.overrideIn o) c.linters).map
      fun linters => { c with linters := linters } := rfl
  rw [hoverride]
  obtain ⟨f, hf, hfails⟩ | ⟨linters, hok, hnamed, -⟩ := foldlM_overrideIn names c.linters
  · exact .inl ⟨f, by rw [hf]; rfl, hfails⟩
  · exact .inr ⟨{ c with linters := linters }, by rw [hok]; rfl, hnamed⟩

theorem override_noExtension {t : Text} (hnames : names ≠ []) (hgiven : o.extensions = some t)
    (hnone : Text.commaItems t = []) :
    c.override o names = .error (.config (.noExtensionNamed t)) := by
  cases names with
  | nil => exact absurd rfl hnames
  | cons name names =>
    rw [override, List.foldlM_cons, Settings.override_noExtension hgiven hnone]
    rfl

theorem settingsFor_of_settings? {name : Text} {s : Settings} (h : c.settings? name = some s)
    (defaults : List Text) :
    c.settingsFor name defaults =
      { s with extensions := if s.extensions = [] then defaults else s.extensions } := by
  rw [settingsFor, h]
  by_cases hempty : s.extensions = [] <;> simp [hempty]

end Config

end FormatAudit
