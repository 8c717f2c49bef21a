import FormatAudit.Envelope
import FormatAudit.Proofs.Json.RoundTrip

/-! Envelopes come back from their JSON texts: every file with its hunks in their order, and every
text whatever characters it holds. The one thing that is lost is a number with more digits than the
reader takes; then the whole text is refused. -/
namespace FormatAudit

/-! ### Records read what they write -/

theorem Intake.each_map {α : Type} {read : Value → Intake.Checked α} {write : α → Value}
    (h : ∀ a, read (write a) = .ok a) (items : List α) (start : Nat) :
    Intake.each read start (items.map write) = .ok items := by
  induction items generalizing start with
  | nil => rfl
  | cons a items ih =>
    rw [List.map_cons, Intake.each, h a, ih]
    rfl

theorem HunkKind.read_name (k : HunkKind) : HunkKind.read (.text k.name) = .ok k := by
  cases k <;> rfl

theorem Intake.atLeast_zero (n : Nat) : Intake.atLeast 0 (n : Int) = .ok n := by
  rw [Intake.atLeast, if_pos (by omega), Int.toNat_natCast]

theorem Hunk.read_toValue (form : Intake.Form) (h : Hunk) : Hunk.read form h.toValue = .ok h := by
  have hkind : Intake.required "kind".toList HunkKind.read
      [("kind".toList, .text h.kind.name), ("line_count".toList, .int h.lineCount),
        ("text".toList, .text h.text)] = .ok h.kind := by
    change Intake.within _ (HunkKind.read (.text h.kind.name)) = _
    rw [HunkKind.read_name]
    rfl
  have hcount : Intake.required "line_count".toList (fun v => Intake.int v >>= Intake.atLeast 0)
      [("kind".toList, .text h.kind.name), ("line_count".toList, .int h.lineCount),
        ("text".toList, .text h.text)] = .ok h.lineCount := by
    change Intake.within _ (Intake.atLeast 0 (h.lineCount : Int)) = _
    rw [Intake.atLeast_zero]
    rfl
  rw [Hunk.read, Hunk.toValue, Intake.record, hkind, hcount]
  rfl

theorem FileChanges.read_toValue (form : Intake.Form) (c : FileChanges) :
    FileChanges.read form c.toValue = .ok c := by
  have hchanges : Intake.sequenceOf form (Hunk.read form) (.list (c.changes.map Hunk.toValue)) =
      .ok c.changes := Intake.each_map (Hunk.read_toValue form) c.changes 0
  have hoptional : Intake.optional "changes".toList (Intake.sequenceOf form (Hunk.read form)) []
      [("file".toList, .text c.file), ("changes".toList, .list (c.changes.map Hunk.toValue))] =
      .ok c.changes := by
    change Intake.within _ (Intake.sequenceOf form (Hunk.read form)
      (.list (c.changes.map Hunk.toValue))) = _
    rw [hchanges]
    rfl
  rw [FileChanges.read, FileChanges.toValue, Intake.record, hoptional]
  rfl

theorem Envelope.read_toValue (form : Intake.Form) (e : Envelope) :
    Envelope.read form e.toValue = .ok e := by
  have hpayload : Intake.sequenceOf form (FileChanges.read form)
      (.list (e.payload.map FileChanges.toValue)) = .ok e.payload :=
    Intake.each_map (FileChanges.read_toValue form) e.payload 0
  have hoptional : Intake.optional "payload".toList
      (Intake.sequenceOf form (FileChanges.read form)) []
      [("status".toList, .int e.status),
        ("payload".toList, .list (e.payload.map FileChanges.toValue)),
        ("stderr".toList, .text e.stderr)] = .ok e.payload := by
    change Intake.within _ (Intake.sequenceOf form (FileChanges.read form)
      (.list (e.payload.map FileChanges.toValue))) = _
    rw [hpayload]
    rfl
  rw [Envelope.read, Envelope.toValue, Intake.record, hoptional]
  rfl

/-! ### The printed form -/

theorem Hunk.exact_toValue (depth : Nat) (h : Hunk) : Json.Exact (depth + 1) h.toValue := by
  have hkeys : ["kind".toList, "line_count".toList, "text".toList].Nodup := by decide
  refine .table hkeys ?_
  simp only [List.forall_mem_cons]
  exact ⟨.text _, .int _, .text _, by simp⟩

theorem FileChanges.exact_toValue (depth : Nat) (c : FileChanges) :
    Json.Exact (depth + 3) c.toValue := by
  have hkeys : ["file".toList, "changes".toList].Nodup := by decide
  have hchanges : Json.Exact (depth + 2) (.list (c.changes.map Hunk.toValue)) :=
    Json.exact_list (List.forall_mem_map.mpr fun h _ => h.exact_toValue depth)
  refine .table hkeys ?_
  simp only [List.forall_mem_cons]
  exact ⟨.text _, hchanges, by simp⟩

theorem Envelope.exact_toValue (depth : Nat) (e : Envelope) :
    Json.Exact (depth + 5) e.toValue := by
  have hkeys : ["status".toList, "payload".toList, "stderr".toList].Nodup := by decide
  have hpayload : Json.Exact (depth + 4) (.list (e.payload.map FileChanges.toValue)) :=
    Json.exact_list (List.forall_mem_map.mpr fun c _ => c.exact_toValue depth)
  refine .table hkeys ?_
  simp only [List.forall_mem_cons]
  exact ⟨.int _, hpayload, .text _, by simp⟩

def Envelope.IsWithin (most : Nat) (e : Envelope) : Prop :=
  e.status.natAbs < 10 ^ most ∧ ∀ c ∈ e.payload, ∀ h ∈ c.changes, h.lineCount < 10 ^ most

instance (most : Nat) (e : Envelope) : Decidable (e.IsWithin most) :=
  inferInstanceAs (Decidable (_ ∧ _))

section Digits

variable {most : Nat}

theorem Hunk.withinDigits_toValue (hmost : 0 < most) (h : Hunk) :
    Json.withinDigits most h.toValue = true ↔ h.lineCount < 10 ^ most := by
  simp [Hunk.toValue, Json.withinDigits, Json.fieldsWithin, Text.length_ofNat_le_iff hmost]

theorem FileChanges.withinDigits_toValue (hmost : 0 < most) (c : FileChanges) :
    Json.withinDigits most c.toValue = true ↔ ∀ h ∈ c.changes, h.lineCount < 10 ^ most := by
  simp [FileChanges.toValue, Json.withinDigits, Json.fieldsWithin, Json.itemsWithin_iff,
    Hunk.withinDigits_toValue hmost]

theorem Envelope.withinDigits_toValue (hmost : 0 < most) (e : Envelope) :
    Json.withinDigits most e.toValue = true ↔ e.IsWithin most := by
  simp [Envelope.toValue, Json.withinDigits, Json.fieldsWithin, Json.itemsWithin_iff,
    FileChanges.withinDigits_toValue hmost, Text.length_ofNat_le_iff hmost, Envelope.IsWithin]

end Digits

theorem Envelope.parse_toJson (e : Envelope) :
    Json.parseWithin? Json.Bounds.standard e.toJson =
      if e.IsWithin Number.mostDigits then some e.toValue else none := by
  have hparse : Json.parseWithin? Json.Bounds.standard e.toJson =
      if Json.withinDigits Number.mostDigits e.toValue then some e.toValue else none :=
    Json.parseWithin?_print (e.exact_toValue 195)
  rw [hparse]
  exact if_congr (Envelope.withinDigits_toValue (by decide) e) rfl rfl

/-- An envelope is read back from its JSON text, unless a number in it has too many digits. -/
theorem Envelope.ofJson_toJson (e : Envelope) :
    Envelope.ofJson e.toJson = if e.IsWithin Number.mostDigits then .ok e
      else .error ⟨Envelope.recordName, [⟨[], .notJson⟩]⟩ := by
  rw [Envelope.ofJson, Envelope.parse_toJson]
  by_cases h : e.IsWithin Number.mostDigits
  · rw [if_pos h, if_pos h]
    dsimp only
    rw [Envelope.read_toValue]
    rfl
  · rw [if_neg h, if_neg h]
    rfl

/-- A status of one digit more than the reader takes is lost. -/
theorem Envelope.ofJson_toJson_long_status :
    Envelope.ofJson (Envelope.toJson ⟨10 ^ Number.mostDigits, [], []⟩) ≠
      .ok ⟨10 ^ Number.mostDigits, [], []⟩ := by
  have hlong : ∀ most, ¬ Envelope.IsWithin most ⟨10 ^ most, [], []⟩ := by
    rintro most ⟨hstatus, -⟩
    rw [Int.natAbs_pow] at hstatus
    exact Nat.lt_irrefl _ hstatus
  rw [Envelope.ofJson, Envelope.parse_toJson, if_neg (hlong _)]
  intro h
  cases h

end FormatAudit
