import FormatAudit.Config.Load
import FormatAudit.Proofs.Session.Ensures
import FormatAudit.Proofs.Toml.Keys

/-! A configuration that is loaded has settings for each linter once, since no table of the file
that it is read from has a key twice. -/
namespace FormatAudit

namespace Intake

variable {α β : Type}

theorem exists_of_both {f : Checked (α → β)} {a : Checked α} {b : β} (h : both f a = .ok b) :
    ∃ g x, f = .ok g ∧ a = .ok x ∧ g x = b := by
  cases f <;> cases a <;> cases h
  exact ⟨_, _, rfl, rfl, rfl⟩

theorem ok_of_plus {a : Checked α} {more : List Issue} {x : α} (h : plus a more = .ok x) :
    a = .ok x := by
  cases a with
  | error issues => cases h
  | ok y =>
    rw [plus] at h
    split at h <;> cases h
    rfl

theorem ok_of_within {step : Step} {a : Checked α} {x : α} (h : within step a = .ok x) :
    a = .ok x := by
  cases a <;> cases h
  rfl

theorem keys_eachField {read : Value → Checked α} {fs : Fields} {xs : List (Text × α)}
    (h : eachField read fs = .ok xs) : xs.map (·.1) = fs.map (·.1) := by
  induction fs generalizing xs with
  | nil =>
    cases h
    rfl
  | cons f fs ih =>
    obtain ⟨k, v⟩ := f
    obtain ⟨put, ys, hput, hys, rfl⟩ := exists_of_both h
    obtain ⟨x, -, rfl⟩ := exists_of_map hput
    rw [List.map_cons, List.map_cons, ih hys]

end Intake

namespace Config

variable {c : Config} {jobs : Nat} {fs : Fields}

def IsKeyed (c : Config) : Prop :=
  (c.linters.map (·.1)).Nodup

theorem isKeyed_of_read {v : Value} (hv : v.Distinct) (h : read jobs v = .ok c) : c.IsKeyed := by
  cases v with
  | table fs =>
    obtain ⟨_, linters, hrest, hlinters, rfl⟩ := Intake.exists_of_both (Intake.ok_of_plus h)
    obtain ⟨_, output, hfirst, -, rfl⟩ := Intake.exists_of_both hrest
    obtain ⟨execution, -, rfl⟩ := exists_of_map hfirst
    change (linters.map (·.1)).Nodup
    rw [Intake.optional] at hlinters
    split at hlinters
    · next v hget =>
      have hv := hv.get? hget
      have hread := Intake.ok_of_within hlinters
      cases v with
      | table sub =>
        rw [Intake.keys_eachField hread]
        exact hv.keys
      | _ => cases hread
    · cases hlinters
      exact List.nodup_nil
  | _ => cases h

theorem distinct_subtable {key : Text} (h : (Value.table fs).Distinct) :
    (Value.table (subtable key fs)).Distinct := by
  rw [subtable]
  split
  · next sub hsub => exact h.get? hsub
  · exact .table List.nodup_nil (by simp)

theorem isKeyed_of_ofBytes {processors : Option Int} {p : Path} {content : Bytes}
    (h : ofBytes processors p content = .ok c) : c.IsKeyed := by
  obtain ⟨fs, hfs, h⟩ := exists_of_bind h
  have hdistinct : (Value.table (section? p fs)).Distinct := by
    have hall : (Value.table fs).Distinct := by
      rw [parseBytes] at hfs
      split at hfs
      · cases hfs
      · split at hfs <;> cases hfs
        next hparse => exact Toml.distinct_of_parse hparse
    rw [section?]
    split
    · exact distinct_subtable (distinct_subtable hall)
    · exact hall
  rw [ofValue] at h
  split at h <;> cases h
  next hread =>
  obtain ⟨jobs, -, hread⟩ := Option.map_eq_some_iff.1 hread
  exact isKeyed_of_read hdistinct hread

theorem isKeyed_of_ofNothing {processors : Option Int} (h : ofNothing processors = .ok c) :
    c.IsKeyed := by
  rw [ofNothing] at h
  split at h <;> cases h
  exact List.nodup_nil

/-- Whatever files there are, a configuration that is loaded has no linter twice. -/
theorem isKeyed_of_load {h : Host} {s : Session} {root : Path} {asked : Option Path}
    (hload : ((load root asked).exec h s).1 = .ok c) : c.IsKeyed := by
  obtain ⟨processors, _, -, hload⟩ := Run.exists_of_exec_bind hload
  obtain ⟨file, _, -, hload⟩ := Run.exists_of_exec_bind hload
  split at hload
  · exact isKeyed_of_ofNothing (Run.eq_of_exec_ofExcept hload)
  · obtain ⟨read, _, -, hload⟩ := Run.exists_of_exec_bind hload
    split at hload
    · cases hload
    · exact isKeyed_of_ofBytes (Run.eq_of_exec_ofExcept hload)

end Config

end FormatAudit
