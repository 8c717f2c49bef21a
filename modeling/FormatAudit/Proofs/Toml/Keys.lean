import FormatAudit.Toml.Reader
import FormatAudit.Proofs.Fields
import FormatAudit.Proofs.Result

/-! No table that is read from a TOML text has a key twice, at whatever depth. The tables of an
unfinished document are kept so by every statement. -/
namespace FormatAudit

def Value.isScalar : Value → Bool
  | .list _ | .table _ => false
  | _ => true

inductive Value.Distinct : Value → Prop
  | scalar {v : Value} (h : v.isScalar) : Distinct v
  | list {vs : List Value} (items : ∀ v ∈ vs, Distinct v) : Distinct (.list vs)
  | table {fs : Fields} (keys : (fs.map (·.1)).Nodup) (values : ∀ f ∈ fs, Distinct f.2) :
    Distinct (.table fs)

theorem Value.Distinct.keys {fs : Fields} (h : (Value.table fs).Distinct) :
    (fs.map (·.1)).Nodup := by
  cases h with
  | scalar h => cases h
  | table hkeys _ => exact hkeys

theorem Value.Distinct.get? {fs : Fields} {k : Text} {v : Value} (h : (Value.table fs).Distinct)
    (hk : fs.get? k = some v) : v.Distinct := by
  cases h with
  | scalar h => cases h
  | table _ hvalues => exact hvalues (k, v) (mem_of_find?_map hk)

namespace Toml

/-- As `Value.Distinct`, for what a key of an unfinished table stands for. -/
inductive Node.Distinct : Node → Prop
  | value {v : Value} (h : v.Distinct) : Distinct (.value v)
  | table {made : Option Nat} {ms : Members} (keys : (ms.map (·.1)).Nodup)
    (nodes : ∀ m ∈ ms, Distinct m.2) : Distinct (.table made ms)
  | tables {earlier : List Members} {ms : Members}
    (earlierKeys : ∀ e ∈ earlier, (e.map (·.1)).Nodup)
    (earlierNodes : ∀ e ∈ earlier, ∀ m ∈ e, Distinct m.2)
    (keys : (ms.map (·.1)).Nodup) (nodes : ∀ m ∈ ms, Distinct m.2) :
    Distinct (.tables earlier ms)

namespace Members

structure Distinct (ms : Members) : Prop where
  keys : (ms.map (·.1)).Nodup
  nodes : ∀ m ∈ ms, m.2.Distinct

variable {ms ms' sub : Members} {made : Nat} {k : Text} {n : Node}

theorem distinct_nil : Distinct [] :=
  ⟨List.nodup_nil, by simp⟩

theorem Distinct.get? (h : ms.Distinct) (hk : ms.get? k = some n) : n.Distinct :=
  h.nodes (k, n) (mem_of_find?_map hk)

theorem mem_keys_set {j : Text} : j ∈ (ms.set k n).map (·.1) ↔ j = k ∨ j ∈ ms.map (·.1) := by
  induction ms with
  | nil => simp [set]
  | cons m ms ih =>
    obtain ⟨i, m⟩ := m
    rw [set]
    split
    · next hi => simp [hi]
    · simp [ih, or_left_comm]

theorem Distinct.set (h : ms.Distinct) (hn : n.Distinct) : (ms.set k n).Distinct := by
  obtain ⟨hkeys, hnodes⟩ := h
  induction ms with
  | nil => exact ⟨by simp [Members.set], by simpa [Members.set] using hn⟩
  | cons m ms ih =>
    obtain ⟨j, m⟩ := m
    rw [List.map_cons, List.nodup_cons] at hkeys
    obtain ⟨hm, hms⟩ := List.forall_mem_cons.1 hnodes
    rw [Members.set]
    split
    · exact ⟨List.nodup_cons.2 hkeys, List.forall_mem_cons.2 ⟨hn, hms⟩⟩
    · next hj =>
      obtain ⟨hkeys', hnodes'⟩ := ih hkeys.2 hms
      refine ⟨List.nodup_cons.2 ⟨?_, hkeys'⟩, List.forall_mem_cons.2 ⟨hm, hnodes'⟩⟩
      rw [mem_keys_set, not_or]
      exact ⟨hj, hkeys.1⟩

theorem distinct_of_table {made : Option Nat} (h : (Node.table made ms).Distinct) :
    ms.Distinct := by
  cases h with
  | table hkeys hnodes => exact ⟨hkeys, hnodes⟩

theorem Distinct.table (h : ms.Distinct) (made : Option Nat) : (Node.table made ms).Distinct :=
  .table h.keys h.nodes

theorem distinct_of_tables {earlier : List Members} (h : (Node.tables earlier ms).Distinct) :
    (∀ e ∈ earlier, Distinct e) ∧ ms.Distinct := by
  cases h with
  | tables hearlierKeys hearlierNodes hkeys hnodes =>
    exact ⟨fun e he => ⟨hearlierKeys e he, hearlierNodes e he⟩, hkeys, hnodes⟩

theorem Distinct.tables {earlier : List Members} (hearlier : ∀ e ∈ earlier, Distinct e)
    (h : ms.Distinct) : (Node.tables earlier ms).Distinct :=
  .tables (fun e he => (hearlier e he).keys) (fun e he => (hearlier e he).nodes) h.keys h.nodes

/-- A change that keeps the keys apart does so wherever it is made. -/
theorem Distinct.under {change : Members → Option Members}
    (hchange : ∀ ms ms', ms.Distinct → change ms = some ms' → ms'.Distinct) {ks : Key}
    (h : ms.Distinct) (hms : ms.under change ks = some ms') : ms'.Distinct := by
  induction ks generalizing ms ms' with
  | nil => exact hchange ms ms' h hms
  | cons k ks ih =>
    rw [Members.under] at hms
    split at hms
    · obtain ⟨sub, hsub, rfl⟩ := Option.map_eq_some_iff.1 hms
      exact h.set ((ih distinct_nil hsub).table none)
    · next made sub hk =>
      obtain ⟨sub', hsub, rfl⟩ := Option.map_eq_some_iff.1 hms
      exact h.set ((ih (distinct_of_table (h.get? hk)) hsub).table made)
    · next earlier sub hk =>
      obtain ⟨sub', hsub, rfl⟩ := Option.map_eq_some_iff.1 hms
      obtain ⟨hearlier, hlast⟩ := distinct_of_tables (h.get? hk)
      exact h.set ((ih hlast hsub).tables hearlier)
    · cases hms

theorem Distinct.declare (h : ms.Distinct) (hms : ms.declare made k = some ms') :
    ms'.Distinct := by
  rw [Members.declare] at hms
  split at hms
  · cases hms
    exact h.set (distinct_nil.table _)
  · next sub hk =>
    cases hms
    exact h.set ((distinct_of_table (h.get? hk)).table _)
  · cases hms

theorem Distinct.append (h : ms.Distinct) (hms : ms.append k = some ms') : ms'.Distinct := by
  rw [Members.append] at hms
  split at hms
  · cases hms
    exact h.set (distinct_nil.tables (by simp))
  · next earlier sub hk =>
    cases hms
    obtain ⟨hearlier, hlast⟩ := distinct_of_tables (h.get? hk)
    refine h.set (distinct_nil.tables ?_)
    exact List.forall_mem_append.2 ⟨hearlier, by simpa using hlast⟩
  · cases hms

theorem Distinct.assign {last : Text} {v : Value} (hv : v.Distinct) {ks : Key} (h : ms.Distinct)
    (hms : ms.assign made last v ks = some ms') : ms'.Distinct := by
  induction ks generalizing ms ms' with
  | nil =>
    rw [Members.assign] at hms
    split at hms <;> cases hms
    exact h.set (.value hv)
  | cons k ks ih =>
    rw [Members.assign] at hms
    split at hms
    · obtain ⟨sub, hsub, rfl⟩ := Option.map_eq_some_iff.1 hms
      exact h.set ((ih distinct_nil hsub).table _)
    · next before sub hk =>
      split at hms
      · obtain ⟨sub', hsub, rfl⟩ := Option.map_eq_some_iff.1 hms
        exact h.set ((ih (distinct_of_table (h.get? hk)) hsub).table _)
      · cases hms
    · cases hms

end Members

/-! ### The tables that are made of them -/

theorem keys_toFields (ms : Members) : (toFields ms).map (·.1) = ms.map (·.1) := by
  induction ms with
  | nil => rfl
  | cons m ms ih =>
    obtain ⟨k, n⟩ := m
    rw [toFields, List.map_cons, List.map_cons, ih]

theorem forall_mem_toFields {P : Value → Prop} {ms : Members} (h : ∀ m ∈ ms, P m.2.toValue) :
    ∀ f ∈ toFields ms, P f.2 := by
  induction ms with
  | nil => simp [toFields]
  | cons m ms ih =>
    obtain ⟨k, n⟩ := m
    obtain ⟨hn, hms⟩ := List.forall_mem_cons.1 h
    rw [toFields]
    exact List.forall_mem_cons.2 ⟨hn, ih hms⟩

theorem forall_mem_toTables {P : Value → Prop} {ts : List Members}
    (h : ∀ ms ∈ ts, P (.table (toFields ms))) : ∀ v ∈ toTables ts, P v := by
  induction ts with
  | nil => simp [toTables]
  | cons ms ts ih =>
    obtain ⟨hms, hts⟩ := List.forall_mem_cons.1 h
    rw [toTables]
    exact List.forall_mem_cons.2 ⟨hms, ih hts⟩

theorem Node.distinct_toValue {n : Node} (h : n.Distinct) : n.toValue.Distinct := by
  induction h with
  | value h =>
    rw [Node.toValue]
    exact h
  | @table made ms hkeys _ ih =>
    rw [Node.toValue]
    exact .table (by rwa [keys_toFields]) (forall_mem_toFields ih)
  | @tables earlier ms hearlier _ hkeys _ ihearlier ih =>
    rw [Node.toValue]
    refine .list (List.forall_mem_append.2 ⟨forall_mem_toTables fun e he => ?_, ?_⟩)
    · exact .table (by simpa only [keys_toFields] using hearlier e he)
        (forall_mem_toFields (ihearlier e he))
    · simp only [List.forall_mem_singleton]
      exact .table (by rwa [keys_toFields]) (forall_mem_toFields ih)

theorem Members.Distinct.toFields {ms : Members} (h : ms.Distinct) :
    (Value.table (toFields ms)).Distinct :=
  .table (by simpa only [keys_toFields] using h.keys)
    (forall_mem_toFields fun m hm => Node.distinct_toValue (h.nodes m hm))

/-! ### What is read -/

theorem isScalar_of_moment? {t rest : Text} {v : Value}
    (h : moment? t = some (.ok (v, rest))) : v.isScalar := by
  simp only [moment?, Option.bind_eq_bind, Option.bind_eq_some_iff] at h
  obtain ⟨_, -, _, -, _, -, _, -, _, -, h⟩ := h
  split at h
  · rw [Option.some.injEq] at h
    split at h <;> cases h
    rfl
  · cases h

theorem isScalar_of_basedNumber? {t rest : Text} {v : Value}
    (h : basedNumber? t = some (v, rest)) : v.isScalar := by
  unfold basedNumber? at h
  split at h
  · split at h
    · simp only [Option.ite_none_left_eq_some] at h
      cases h.2
      rfl
    · cases h
  · cases h

theorem isScalar_of_decimalNumber? {negative : Bool} {t rest : Text} {v : Value}
    (h : decimalNumber? negative t = some (.ok (v, rest))) : v.isScalar := by
  grind [decimalNumber?, Value.isScalar]

theorem isScalar_of_namedNumber? {negative : Bool} {t rest : Text} {v : Value}
    (h : namedNumber? negative t = some (v, rest)) : v.isScalar := by
  rw [namedNumber?] at h
  split at h
  · cases h
    rfl
  · obtain ⟨_, -, h⟩ := Option.map_eq_some_iff.1 h
    cases h
    rfl

theorem isScalar_of_number {t rest : Text} {v : Value} (h : number t = .ok (v, rest)) :
    v.isScalar := by
  grind [number, isScalar_of_basedNumber?, isScalar_of_decimalNumber?, isScalar_of_namedNumber?]

theorem isScalar_of_plainValue {t rest : Text} {v : Value} (h : plainValue t = .ok (v, rest)) :
    v.isScalar := by
  rw [plainValue] at h
  split at h
  · next read hmoment => exact isScalar_of_moment? (hmoment.trans (congrArg some h))
  · split at h
    · cases h
      rfl
    · exact isScalar_of_number h

theorem distinct_of_put {made : Nat} {k : Key} {v : Value} {ms ms' : Members} (hv : v.Distinct)
    (h : ms.Distinct) (hms : put made k v ms = .ok ms') : ms'.Distinct := by
  rw [put] at hms
  split at hms
  · cases hms
  · split at hms <;> cases hms
    next hassign => exact h.assign hv hassign

structure ReadsDistinct (fuel : Nat) : Prop where
  value : ∀ {t v rest}, value fuel t = .ok (v, rest) → v.Distinct
  items : ∀ {t vs rest}, items fuel t = .ok (vs, rest) → ∀ v ∈ vs, v.Distinct
  pairs : ∀ {ms t ms' rest}, ms.Distinct → pairs fuel ms t = .ok (ms', rest) → ms'.Distinct

theorem readsDistinct_zero : ReadsDistinct 0 where
  value h := by
    rw [value] at h
    cases h
  items h := by
    rw [items] at h
    cases h
  pairs _ h := by
    rw [pairs] at h
    cases h

namespace ReadsDistinct
variable {fuel : Nat} {t rest : Text}

theorem value_succ (ih : ReadsDistinct fuel) {v : Value}
    (h : Toml.value (fuel + 1) t = .ok (v, rest)) : v.Distinct := by
  unfold Toml.value at h
  split at h
  -- strings and truth values, then lists, tables on a line and what else is plain
  iterate 4
    obtain ⟨_, -, h⟩ := exists_of_map h
    cases h
    exact .scalar rfl
  iterate 2
    cases h
    exact .scalar rfl
  · obtain ⟨r, -, h⟩ := exists_of_bind h
    obtain ⟨⟨vs, rest⟩, hvs, h⟩ := exists_of_bind h
    cases h
    exact .list (ih.items hvs)
  · split at h
    · cases h
      exact .table List.nodup_nil (by simp)
    · obtain ⟨⟨ms, rest⟩, hms, h⟩ := exists_of_bind h
      cases h
      exact (ih.pairs Members.distinct_nil hms).toFields
  · exact .scalar (isScalar_of_plainValue h)

theorem items_succ (ih : ReadsDistinct fuel) {vs : List Value}
    (h : Toml.items (fuel + 1) t = .ok (vs, rest)) : ∀ v ∈ vs, v.Distinct := by
  unfold Toml.items at h
  split at h
  · contradiction
  · cases h
    simp
  · next hfuel _ =>
    obtain rfl := Nat.succ.inj hfuel
    obtain ⟨⟨v, r⟩, hv, h⟩ := exists_of_bind h
    obtain ⟨r, -, h⟩ := exists_of_bind h
    split at h
    · cases h
      simpa using ih.value hv
    · obtain ⟨r, -, h⟩ := exists_of_bind h
      obtain ⟨⟨vs, r⟩, hvs, h⟩ := exists_of_bind h
      cases h
      exact List.forall_mem_cons.2 ⟨ih.value hv, ih.items hvs⟩
    · cases h

theorem pairs_succ (ih : ReadsDistinct fuel) {ms ms' : Members} (hms : ms.Distinct)
    (h : Toml.pairs (fuel + 1) ms t = .ok (ms', rest)) : ms'.Distinct := by
  rw [Toml.pairs] at h
  obtain ⟨⟨k, r⟩, -, h⟩ := exists_of_bind h
  dsimp only at h
  split at h
  · obtain ⟨⟨v, r⟩, hv, h⟩ := exists_of_bind h
    obtain ⟨ms'', hput, h⟩ := exists_of_bind h
    have hms'' := distinct_of_put (ih.value hv) hms hput
    split at h
    · cases h
      exact hms''
    · exact ih.pairs hms'' h
    · cases h
  · cases h

end ReadsDistinct

theorem readsDistinct (fuel : Nat) : ReadsDistinct fuel := by
  induction fuel with
  | zero => exact readsDistinct_zero
  | succ fuel ih => exact ⟨ih.value_succ, ih.items_succ, ih.pairs_succ⟩

/-! ### Documents -/

namespace Document

variable {d d' : Document} {k : Key} {t rest : Text}

theorem distinct_of_enter {list : Bool} (h : d.members.Distinct) (hd : d.enter list k = .ok d') :
    d'.members.Distinct := by
  rw [enter] at hd
  split at hd
  · cases hd
  · cases list with
    | false =>
      simp only [Bool.false_eq_true, if_false] at hd
      split at hd <;> cases hd
      next ms hms => exact h.under (fun _ _ hms hchange => hms.declare hchange) hms
    | true =>
      simp only [if_true] at hd
      split at hd <;> cases hd
      next ms hms => exact h.under (fun _ _ hms hchange => hms.append hchange) hms

theorem distinct_of_take {v : Value} (hv : v.Distinct) (h : d.members.Distinct)
    (hd : d.take k v = .ok d') : d'.members.Distinct := by
  rw [take] at hd
  split at hd <;> cases hd
  next ms hms =>
  refine h.under (fun ms ms' hms hchange => ?_) hms
  cases hput : put d.made k v ms with
  | error e => simp [hput, Except.toOption] at hchange
  | ok ms'' =>
    rw [hput] at hchange
    cases hchange
    exact distinct_of_put hv hms hput

/-- A statement leaves no table with a key twice if there was none before. -/
theorem distinct_of_statement (h : d.members.Distinct) (hd : d.statement t = .ok (d', rest)) :
    d'.members.Distinct := by
  unfold statement at hd
  split at hd
  · cases hd
    exact h
  · obtain ⟨⟨k, r⟩, -, hd⟩ := exists_of_bind hd
    dsimp only at hd
    split at hd
    · obtain ⟨d'', henter, hd⟩ := exists_of_bind hd
      cases hd
      exact distinct_of_enter h henter
    · cases hd
  · obtain ⟨⟨k, r⟩, -, hd⟩ := exists_of_bind hd
    dsimp only at hd
    split at hd
    · obtain ⟨d'', henter, hd⟩ := exists_of_bind hd
      cases hd
      exact distinct_of_enter h henter
    · cases hd
  · obtain ⟨⟨k, r⟩, -, hd⟩ := exists_of_bind hd
    dsimp only at hd
    split at hd
    · obtain ⟨⟨v, r⟩, hv, hd⟩ := exists_of_bind hd
      obtain ⟨d'', htake, hd⟩ := exists_of_bind hd
      cases hd
      exact distinct_of_take ((readsDistinct _).value hv) h htake
    · cases hd

theorem distinct_of_statements {fuel : Nat} (h : d.members.Distinct)
    (hd : statements fuel d t = .ok d') : d'.members.Distinct := by
  induction fuel generalizing d t with
  | zero =>
    rw [statements] at hd
    cases hd
  | succ fuel ih =>
    rw [statements] at hd
    split at hd
    · cases hd
      exact h
    · exact ih h hd
    · obtain ⟨⟨d'', r⟩, hstatement, hd⟩ := exists_of_bind hd
      have h'' := distinct_of_statement h hstatement
      obtain ⟨r, -, hd⟩ := exists_of_bind hd
      split at hd
      · cases hd
        exact h''
      · exact ih h'' hd
      · cases hd

end Document

theorem distinct_of_parse {t : Text} {fs : Fields} (h : parse t = .ok fs) :
    (Value.table fs).Distinct := by
  obtain ⟨d, hd, rfl⟩ := exists_of_map h
  exact (Document.distinct_of_statements Members.distinct_nil hd).toFields

end Toml

end FormatAudit
