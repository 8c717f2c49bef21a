import FormatAudit.Config.Settings
import FormatAudit.Proofs.Config.Load
import FormatAudit.Proofs.ShellWords

/-! Settings as they are read. The reader looks at each field on its own, so what is read for one of
them does not depend on the others, and arguments may be given in either of their forms. -/
namespace FormatAudit

namespace Intake

variable {α β : Type}

theorem both_eq_ok {f : Checked (α → β)} {a : Checked α} {b : β} :
    both f a = .ok b ↔ ∃ g x, f = .ok g ∧ a = .ok x ∧ g x = b := by
  constructor
  · exact exists_of_both
  · rintro ⟨g, x, rfl, rfl, rfl⟩
    rfl

theorem plus_eq_ok {a : Checked α} {more : List Issue} {x : α} :
    plus a more = .ok x ↔ a = .ok x ∧ more = [] := by
  cases a with
  | error issues => simp [plus]
  | ok y => by_cases h : more = [] <;> simp [plus, h]

theorem each_text (start : Nat) (ts : List Text) :
    each text start (ts.map Value.text) = .ok ts := by
  induction ts generalizing start with
  | nil => rfl
  | cons t ts ih =>
    rw [List.map_cons, each, ih]
    rfl

section Exchange
variable {k : Text} {v w : Value} {front back : Fields}

/-- A field is read alike from two tables that differ in the value of another field. -/
theorem optional_of_ne {name : Text} {read : Value → Checked α} {absent : α} (h : k ≠ name) :
    optional name read absent (front ++ (k, v) :: back) =
      optional name read absent (front ++ (k, w) :: back) := by
  simp only [optional, Fields.get?, List.find?_append, List.find?_cons, h, decide_false]

/-- A field is read alike from two tables that differ in its own value, if the values are. -/
theorem optional_congr {read : Value → Checked α} {absent : α} (h : read v = read w) :
    optional k read absent (front ++ (k, v) :: back) =
      optional k read absent (front ++ (k, w) :: back) := by
  simp only [optional, Fields.get?, List.find?_append, List.find?_cons, decide_true]
  cases front.find? fun f => f.1 = k with
  | some f => rfl
  | none => simp [h]

theorem unknownFields_congr (names : List Text) :
    unknownFields names (front ++ (k, v) :: back) =
      unknownFields names (front ++ (k, w) :: back) := by
  simp only [unknownFields, List.filter_append, List.filter_cons]
  split <;> simp

end Exchange

end Intake

namespace Settings

variable {fs : Fields} {s : Settings}

theorem readFields_eq_ok :
    readFields fs = .ok s ↔
      Intake.optional "enabled".toList Intake.bool standard.enabled fs = .ok s.enabled ∧
      Intake.optional "extensions".toList readExtensions standard.extensions fs =
        .ok s.extensions ∧
      Intake.optional "args".toList readArgs standard.args fs = .ok s.args ∧
      Intake.optional "prefix".toList Intake.text standard.launcher fs = .ok s.launcher ∧
      Intake.optional "directory".toList Intake.path standard.directory fs = .ok s.directory ∧
      Intake.unknownFields fieldNames fs = [] := by
  rw [readFields, Intake.plus_eq_ok, Intake.both_eq_ok]
  constructor
  · rintro ⟨⟨_, directory, hfour, hdirectory, rfl⟩, hunknown⟩
    obtain ⟨_, launcher, hthree, hlauncher, rfl⟩ := Intake.both_eq_ok.1 hfour
    obtain ⟨_, args, htwo, hargs, rfl⟩ := Intake.both_eq_ok.1 hthree
    obtain ⟨_, extensions, hone, hextensions, rfl⟩ := Intake.both_eq_ok.1 htwo
    obtain ⟨enabled, henabled, rfl⟩ := exists_of_map hone
    exact ⟨henabled, hextensions, hargs, hlauncher, hdirectory, hunknown⟩
  · rintro ⟨henabled, hextensions, hargs, hlauncher, hdirectory, hunknown⟩
    rw [henabled, hextensions, hargs, hlauncher, hdirectory, hunknown]
    exact ⟨⟨_, _, rfl, rfl, rfl⟩, rfl⟩

/-- Where the arguments of a linter stand, the value `v` is read as the list `words`. -/
structure ReadsArgs (v : Value) (words : List Text) : Prop where
  alone : read (.table [("args".toList, v)]) = .ok { standard with args := words }
  among : ∀ fs s, Fields.get? fs "args".toList = some v → read (.table fs) = .ok s →
    s.args = words
  likeList : ∀ front back, read (.table (front ++ ("args".toList, v) :: back)) =
    read (.table (front ++ ("args".toList, .list (words.map Value.text)) :: back))

theorem readsArgs_of_readArgs {v : Value} {words : List Text} (h : readArgs v = .ok words) :
    ReadsArgs v words := by
  constructor
  case alone =>
    refine readFields_eq_ok.2 ⟨rfl, rfl, ?_, rfl, rfl, rfl⟩
    change Intake.within _ (readArgs v) = _
    rw [h]
    rfl
  case among =>
    intro fs s hget hread
    obtain ⟨-, -, hargs, -⟩ := readFields_eq_ok.1 hread
    rw [Intake.optional, hget] at hargs
    exact Except.ok.inj ((Intake.ok_of_within hargs).symm.trans h)
  case likeList =>
    intro front back
    have hlist : readArgs (.list (words.map Value.text)) = .ok words := Intake.each_text 0 words
    change readFields _ = readFields _
    simp only [readFields]
    rw [Intake.unknownFields_congr (v := v) (w := .list (words.map .text)) fieldNames,
      Intake.optional_congr (h.trans hlist.symm)]
    iterate 4 rw [Intake.optional_of_ne (v := v) (w := .list (words.map .text)) (by decide)]

/-- A command line that words were joined to is read as these words. -/
theorem readArgs_join (words : List Text) :
    readArgs (.text (ShellWords.join words)) = .ok words := by
  rw [readArgs, ShellWords.split_join]

end Settings

end FormatAudit
