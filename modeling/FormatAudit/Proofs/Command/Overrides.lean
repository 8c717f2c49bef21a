import FormatAudit.Command.Run
import FormatAudit.Proofs.Fields

/-! Overrides of options as an overlay: an option that is named has the value given, whatever that
value is, and the others are as before. Overrides laid one over the other are one overlay, and a
command cannot tell whether its options were given or came from overrides. -/
namespace FormatAudit.Command

namespace Options

/-- The options of which those that a table names are taken from the table. -/
def overlay (o : Options) (fs : Fields) : Options where
  directory := (fs.get? "cwd".toList).getD o.directory
  environment := (fs.get? "env".toList).getD o.environment
  check := (fs.get? "check".toList).getD o.check
  captureOutput := (fs.get? "capture_output".toList).getD o.captureOutput
  asText := (fs.get? "text".toList).getD o.asText
  timeout := (fs.get? "timeout".toList).getD o.timeout
  discardInput := (fs.get? "discard_stdin".toList).getD o.discardInput

variable {o p : Options} {a b : Fields}

theorem set_overlay {k : Text} {v : Value} (h : k ∉ a.map (·.1)) :
    (o.set k v).overlay a = o.overlay ((k, v) :: a) := by
  have hnone := Fields.get?_eq_none h
  unfold set
  repeat' split
  all_goals
    simp_all [overlay, Fields.get?_cons]

/-- Where no option is named twice, the order of the overrides does not matter. -/
theorem setAll_eq_overlay (h : (a.map (·.1)).Nodup) : o.setAll a = o.overlay a := by
  induction a generalizing o with
  | nil => rfl
  | cons f a ih =>
    obtain ⟨k, v⟩ := f
    rw [List.map_cons, List.nodup_cons] at h
    calc o.setAll ((k, v) :: a)
        = (o.set k v).setAll a := rfl
      _ = (o.set k v).overlay a := ih h.2
      _ = o.overlay ((k, v) :: a) := set_overlay h.1

/-- A single test of the time limit covers both the overrides and the options under them. -/
theorem override_eq (h : (a.map (·.1)).Nodup) :
    o.override a =
      if unknown a ≠ [] then .error (.unknownOptions ((unknown a).mergeSort Text.le))
      else if isNegative (o.overlay a).timeout then .error .negativeTimeout
      else .ok (o.overlay a) := by
  rw [override, setAll_eq_overlay h]
  rfl

theorem override_eq_ok (h : (a.map (·.1)).Nodup) :
    o.override a = .ok p ↔
      unknown a = [] ∧ isNegative (o.overlay a).timeout = false ∧ o.overlay a = p := by
  rw [override_eq h]
  by_cases hunknown : unknown a = []
  · by_cases hnegative : isNegative (o.overlay a).timeout <;> simp [hunknown, hnegative]
  · simp [hunknown]

/-! ### Overrides laid over overrides -/

theorem overlay_overlay (o : Options) (a : Fields) (hb : (b.map (·.1)).Nodup) :
    (o.overlay a).overlay b = o.overlay (a.merge b) := by
  have hget : ∀ (k : Text) (v : Value),
      (b.get? k).getD ((a.get? k).getD v) = ((a.merge b).get? k).getD v := by
    intro k v
    rw [Fields.get?_merge hb]
    cases b.get? k <;> rfl
  simp only [overlay, hget]

/-- What is put over options that were accepted is refused on its own account. -/
theorem unknown_merge (ha : unknown a = []) (hb : (b.map (·.1)).Nodup) :
    unknown (a.merge b) = unknown b := by
  have hknown : ∀ k ∈ a.map (·.1), optionNames.contains k = true := by
    simpa [unknown] using ha
  have hrest : ∀ k ∈ b.map (·.1),
      ((!optionNames.contains k) && decide (k ∉ a.map (·.1))) = !optionNames.contains k := by
    intro k _
    by_cases hk : optionNames.contains k = true
    · rw [hk]
      rfl
    · have hnew : k ∉ a.map (·.1) := fun hmem => hk (hknown k hmem)
      rw [decide_eq_true hnew, Bool.and_true]
  calc unknown (a.merge b)
      = unknown a ++ ((b.map (·.1)).filter fun k => k ∉ a.map (·.1)).filter
          fun k => !optionNames.contains k := by
        rw [unknown, Fields.keys_merge hb, List.filter_append]
        rfl
    _ = unknown b := by
        rw [ha, List.nil_append, List.filter_filter, List.filter_congr hrest]
        rfl

theorem override_nil (h : isNegative o.timeout = false) : o.override [] = .ok o := by
  have hkeys : (([] : Fields).map (·.1)).Nodup := List.nodup_nil
  exact (override_eq_ok hkeys).2 ⟨rfl, h, rfl⟩

/-- Once overrides have been accepted, laying more over them comes to what laying both over the
options at once comes to, a refusal included, and a command that is run with the overrides is run as
with the options that they lead to. -/
theorem override_merge (ha : (a.map (·.1)).Nodup) (hb : (b.map (·.1)).Nodup)
    (h : o.override a = .ok p) :
    p.override b = o.override (a.merge b) ∧
      ∀ args host s, (run args o a).exec host s = (run args p []).exec host s := by
  obtain ⟨hknown, hlimit, rfl⟩ := (override_eq_ok ha).1 h
  constructor
  · rw [override_eq hb, override_eq (Fields.nodup_keys_merge ha hb), unknown_merge hknown hb,
      overlay_overlay o a hb]
  · intro args host s
    rw [run, run, h, override_nil hlimit]

/-- The options have a time limit that no command is run with. One override takes it away, and the
next ones take a check back that was asked for. -/
theorem override_merge_no_limit :
    let o := { standard with timeout := .int (-1) }
    let a : Fields := [("timeout".toList, .null), ("check".toList, .bool true)]
    let b : Fields := [("check".toList, .null), ("text".toList, .bool false)]
    let p := { o with timeout := .null }
    (a.map (·.1)).Nodup ∧ (b.map (·.1)).Nodup ∧ o.override a = .ok p ∧
      o.override (a.merge b) = .ok { p with check := .null, asText := .bool false } ∧
      p.override b = o.override (a.merge b) ∧
      ∀ args host s, (run args o a).exec host s = (run args p []).exec host s := by
  intro o a b p
  have ha : (a.map (·.1)).Nodup := by decide
  have hb : (b.map (·.1)).Nodup := by decide
  have hp : o.override a = .ok p := rfl
  exact ⟨ha, hb, hp, rfl, override_merge ha hb hp⟩

end Options

end FormatAudit.Command
