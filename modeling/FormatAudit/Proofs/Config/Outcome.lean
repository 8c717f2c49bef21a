import FormatAudit.Config.Load
import FormatAudit.Proofs.Session.Ensures

/-! How the loading of a configuration ends. It returns a configuration, or it fails with a fault of
the configuration that the user is told about, unless the file is not UTF-8, holds an integer with
too many digits, or cannot be told to be a file, or the default number of jobs is needed on a host
that has none. -/
namespace FormatAudit

def FileTree.firstFile (t : FileTree) (here : FileTree.Place) :
    List Path → Except FileError (Option Path)
  | [] => .ok none
  | p :: ps => match t.isFile here p with
    | .error e => .error e
    | .ok true => .ok (some p)
    | .ok false => firstFile t here ps

namespace Config

def candidates (root : Path) : Option Path → List Path
  | some p => [Path.join root p]
  | none => [Path.join root (Path.ofText ownFile), Path.join root (Path.ofText sharedFile)]

def withoutFile (root : Path) : Option Path → Except Failure (Option Path)
  | some p => .error (.config (.absent (Path.join root p).text))
  | none => .ok none

def chosen (t : FileTree) (here : FileTree.Place) (root : Path) (asked : Option Path) :
    Except Failure (Option Path) :=
  match t.firstFile here (candidates root asked) with
  | .error e => .error (.file e)
  | .ok (some p) => .ok (some p)
  | .ok none => withoutFile root asked

def source (t : FileTree) (here : FileTree.Place) (root : Path) (asked : Option Path) :
    Except Failure (Option (Path × Bytes)) :=
  match chosen t here root asked with
  | .error f => .error f
  | .ok none => .ok none
  | .ok (some p) => match t.read here p with
    | .error e => .error (.config (.unreadable p.text e))
    | .ok content => .ok (some (p, content))

def loaded (h : Host) (t : FileTree) (root : Path) (asked : Option Path) :
    Except Failure Config :=
  match source t h.here root asked with
  | .error f => .error f
  | .ok none => ofNothing h.processors
  | .ok (some (p, content)) => ofBytes h.processors p content

section Exec

variable {h : Host} {s : Session}

theorem exec_isFile (p : Path) :
    (Run.isFile p).exec h s = ((s.tree.isFile h.here p).mapError Failure.file, s) :=
  Run.exec_ofExcept _ _

theorem exec_choose (root : Path) (asked : Option Path) :
    (choose root asked).exec h s = (chosen s.tree h.here root asked, s) := by
  cases asked with
  | some p =>
    rw [choose, Run.exec_bind, exec_isFile, chosen, candidates, FileTree.firstFile]
    rcases s.tree.isFile h.here (Path.join root p) with e | isFile
    · rfl
    · cases isFile <;> rfl
  | none =>
    rw [choose, List.forIn_cons, bind_assoc, bind_assoc, Run.exec_bind, exec_isFile, chosen,
      candidates, FileTree.firstFile]
    rcases s.tree.isFile h.here (Path.join root (Path.ofText ownFile)) with e | isOwn
    · rfl
    · cases isOwn with
      | true => rfl
      | false =>
        dsimp only [Except.mapError]
        simp only [Bool.false_eq_true, if_false, pure_bind, List.forIn_cons, List.forIn_nil,
          bind_assoc]
        rw [Run.exec_bind, exec_isFile, FileTree.firstFile]
        rcases s.tree.isFile h.here (Path.join root (Path.ofText sharedFile)) with e | isShared
        · rfl
        · cases isShared <;> rfl

theorem exec_load (root : Path) (asked : Option Path) :
    (load root asked).exec h s = (loaded h s.tree root asked, s) := by
  have hprocessors : Run.processors.exec h s = (.ok h.processors, s) := rfl
  rw [load, Run.exec_bind, hprocessors]
  dsimp only
  rw [Run.exec_bind, exec_choose, loaded, source]
  rcases chosen s.tree h.here root asked with f | _ | p
  · rfl
  · exact Run.exec_ofExcept_id _
  · have hread : (Run.readFile p).exec h s = (.ok (s.tree.read h.here p), s) := rfl
    dsimp only
    rw [Run.exec_bind, hread]
    cases s.tree.read h.here p with
    | error e => rfl
    | ok content => exact Run.exec_ofExcept_id _

end Exec

/-- A result, or a fault of the configuration in its place. -/
def IsTold {α : Type} (r : Except Failure α) : Prop :=
  (∃ a, r = .ok a) ∨ ∃ fault, r = .error (.config fault)

section Told

variable {α : Type}

theorem isTold_ok (a : α) : IsTold (.ok a : Except Failure α) :=
  .inl ⟨a, rfl⟩

theorem isTold_error {f : Failure} :
    IsTold (.error f : Except Failure α) ↔ ∃ fault, f = .config fault := by
  simp [IsTold]

end Told

/-- Whether the bytes are a text without integers that are too long, be it a configuration or
not. -/
def IsLegible (content : Bytes) : Prop :=
  ∃ t, Utf8.decode? content = some t ∧ ∀ digits, Toml.parse t ≠ .error (.longInteger digits)

section Outcome

variable {processors : Option Int} {p : Path} {content : Bytes} {v : Value}

theorem isTold_parseBytes : IsTold (parseBytes p content) ↔ IsLegible content := by
  rw [parseBytes, IsLegible]
  cases Utf8.decode? content with
  | none => simp [isTold_error]
  | some t => rcases hparse : Toml.parse t with (_ | digits) | fs <;>
      simp [isTold_error, isTold_ok, hparse]

theorem isTold_ofValue (path : Text) :
    IsTold (ofValue processors (fun issues => .config (.invalid path issues)) v) ↔
      (leavesJobsOpen v → ∃ jobs, defaultJobs? processors = some jobs) := by
  have hread : (∃ jobs, jobsToRead? processors (leavesJobsOpen v) = some jobs) ↔
      (leavesJobsOpen v → ∃ jobs, defaultJobs? processors = some jobs) := by
    cases leavesJobsOpen v <;> simp [jobsToRead?]
  rw [← hread, ofValue, readOn]
  cases jobsToRead? processors (leavesJobsOpen v) with
  | none => simp [isTold_error]
  | some jobs => cases hjobs : read jobs v <;> simp [isTold_ok, isTold_error, hjobs]

theorem isTold_ofNothing :
    IsTold (ofNothing processors) ↔ ∃ jobs, defaultJobs? processors = some jobs := by
  rw [ofNothing]
  cases defaultJobs? processors <;> simp [isTold_ok, isTold_error]

theorem isTold_ofBytes : IsTold (ofBytes processors p content) ↔
    IsLegible content ∧ ∀ fs, parseBytes p content = .ok fs →
      leavesJobsOpen (.table (section? p fs)) → ∃ jobs, defaultJobs? processors = some jobs := by
  rw [ofBytes, ← isTold_parseBytes (p := p)]
  cases parseBytes p content with
  | error f => simp [isTold_error, bind, Except.bind]
  | ok fs => simpa [isTold_ok, bind, Except.bind] using isTold_ofValue p.text

theorem isTold_source {t : FileTree} {here : FileTree.Place} {root : Path} {asked : Option Path} :
    IsTold (source t here root asked) ↔
      ∃ file?, t.firstFile here (candidates root asked) = .ok file? := by
  rw [source, chosen]
  rcases t.firstFile here (candidates root asked) with e | _ | p
  · simp [isTold_error]
  · cases asked <;> simp [withoutFile, isTold_ok, isTold_error]
  · cases hread : t.read here p <;> simp [hread, isTold_ok, isTold_error]

end Outcome

/-- What loading needs so as to end with a configuration or with a fault of it. -/
structure IsReadable (h : Host) (t : FileTree) (root : Path) (asked : Option Path) : Prop where
  told : ∃ file?, t.firstFile h.here (candidates root asked) = .ok file?
  legible : ∀ p content, source t h.here root asked = .ok (some (p, content)) → IsLegible content
  jobsOfNothing : source t h.here root asked = .ok none →
    ∃ jobs, defaultJobs? h.processors = some jobs
  jobsOfFile : ∀ p content fs, source t h.here root asked = .ok (some (p, content)) →
    parseBytes p content = .ok fs → leavesJobsOpen (.table (section? p fs)) →
      ∃ jobs, defaultJobs? h.processors = some jobs

/-- Loading returns a configuration or fails with a fault of it, and with nothing else, exactly
where it can be told which file there is to be read, where that file is legible if it can be opened,
and where the host has a default number of jobs if one is needed. -/
theorem load_ok_or_config_iff {h : Host} {s : Session} {root : Path} {asked : Option Path} :
    ((∃ c, ((load root asked).exec h s).1 = .ok c) ∨
        ∃ fault, ((load root asked).exec h s).1 = .error (.config fault)) ↔
      IsReadable h s.tree root asked := by
  rw [exec_load]
  change IsTold (loaded h s.tree root asked) ↔ _
  have htold : IsTold (source s.tree h.here root asked) ↔
      ∃ file?, s.tree.firstFile h.here (candidates root asked) = .ok file? := isTold_source
  rw [loaded]
  cases hsource : source s.tree h.here root asked with
  | error f =>
    rw [hsource, isTold_error] at htold
    dsimp only
    rw [isTold_error]
    refine htold.trans ⟨fun hfile => ⟨hfile, ?_, ?_, ?_⟩, IsReadable.told⟩ <;> simp [hsource]
  | ok file? =>
    have hfile := htold.1 (hsource ▸ isTold_ok file?)
    cases file? with
    | none =>
      refine isTold_ofNothing.trans ⟨fun hjobs => ⟨hfile, ?_, fun _ => hjobs, ?_⟩,
        fun hreadable => hreadable.jobsOfNothing hsource⟩ <;> simp [hsource]
    | some file =>
      obtain ⟨p, content⟩ := file
      refine isTold_ofBytes.trans ⟨fun hall => ?_, fun hreadable =>
        ⟨hreadable.legible p content hsource, fun fs => hreadable.jobsOfFile p content fs hsource⟩⟩
      obtain ⟨hlegible, hjobs⟩ := hall
      constructor
      · exact hfile
      · rintro p' content' heq
        cases hsource.symm.trans heq
        exact hlegible
      · simp [hsource]
      · rintro p' content' fs heq
        cases hsource.symm.trans heq
        exact hjobs fs

/-- A file that is no text is not told to be one. -/
theorem load_not_utf8 :
    ((load ⟨1, []⟩ none).exec bareHost (.start (.dir [(ownFile, .file [0xff] true false)]))).1 =
      .error .notUtf8 := by
  decide +kernel

end Config

end FormatAudit
