import FormatAudit.Proofs.Fields
import FormatAudit.Proofs.Json.Strings

/-! Printed values come back, with whatever follows them left over. Lists and tables must not nest
deeper than the reader allows, and a table must not repeat a key. An integer with more digits than
the reader allows is refused wherever it stands, and with it the whole value. -/
namespace FormatAudit

namespace Json

/-- What follows a number must not go on with it. -/
def Ends (rest : Text) : Prop :=
  ∀ c, rest.head? = some c → isDigit c = false ∧ c ≠ '.' ∧ c ≠ 'e' ∧ c ≠ 'E'

theorem ends_nil : Ends [] := by
  intro c h
  cases h

theorem ends_cons {c : Char} (h : isDigit c = false ∧ c ≠ '.' ∧ c ≠ 'e' ∧ c ≠ 'E') (rest : Text) :
    Ends (c :: rest) := by
  intro d hd
  rw [List.head?_cons, Option.some.injEq] at hd
  rwa [← hd]

/-! ### Numbers -/

section Numbers

variable {rest : Text} {n : Nat}

theorem dropWhile_isDigit_of_ends (h : Ends rest) : rest.dropWhile isDigit = rest := by
  cases rest with
  | nil => rfl
  | cons c r => rw [List.dropWhile_cons_of_neg (by simp [(h c rfl).1])]

theorem takeWhile_isDigit_of_ends (h : Ends rest) : rest.takeWhile isDigit = [] := by
  cases rest with
  | nil => rfl
  | cons c r => rw [List.takeWhile_cons_of_neg (by simp [(h c rfl).1])]

theorem fractionPart_of_ends (h : Ends rest) : fractionPart rest = ([], rest) := by
  cases rest with
  | nil => rfl
  | cons c r =>
    obtain ⟨-, hpoint, he, hE⟩ := h c rfl
    simp [fractionPart, hpoint, he, hE]

theorem after?_of_head_ne {c d : Char} (h : d ≠ c) (start t : Text) :
    Text.after? (d :: start) (c :: t) = none := by
  rw [Text.after?, if_neg h]

theorem ofNat_eq_cons (n : Nat) : ∃ c ds, Text.ofNat n = c :: ds ∧ isDigit c = true := by
  cases h : Text.ofNat n with
  | nil => exact absurd h (Text.ofNat_ne_nil n)
  | cons c ds => exact ⟨c, ds, rfl, Text.isDigit_of_mem_ofNat (by rw [h]; exact List.mem_cons_self)⟩

theorem ne_of_isDigit {c d : Char} (hc : isDigit c = true) (hd : isDigit d = false) : d ≠ c := by
  rintro rfl
  rw [hc] at hd
  cases hd

theorem numberFrom_ofNat (most : Nat) (negative : Bool) (n : Nat) (h : Ends rest) :
    numberFrom most negative (Text.ofNat n ++ rest) =
      if (Text.ofNat n).length ≤ most then some (.int (Number.signed negative n), rest)
      else none := by
  have hall : ∀ c ∈ Text.ofNat n, isDigit c = true := fun c => Text.isDigit_of_mem_ofNat
  have htake : (Text.ofNat n ++ rest).takeWhile isDigit = Text.ofNat n := by
    rw [List.takeWhile_append_of_pos hall, takeWhile_isDigit_of_ends h, List.append_nil]
  have hdrop : (Text.ofNat n ++ rest).dropWhile isDigit = rest := by
    rw [List.dropWhile_append_of_pos hall, dropWhile_isDigit_of_ends h]
  have hname : Text.after? "Infinity".toList (Text.ofNat n ++ rest) = none := by
    obtain ⟨c, ds, hds, hc⟩ := ofNat_eq_cons n
    rw [hds]
    exact after?_of_head_ne (ne_of_isDigit hc (by decide)) _ _
  have hzero : ¬ ((Text.ofNat n).head? = some '0' ∧ 1 < (Text.ofNat n).length) := by
    rintro ⟨hhead, hlength⟩
    rw [Text.length_ofNat_of_head?_eq_zero hhead] at hlength
    exact absurd hlength (by decide)
  rw [numberFrom, hname]
  simp only [htake, hdrop, fractionPart_of_ends h, Text.toNat_ofNat]
  by_cases hmost : (Text.ofNat n).length ≤ most
  · rw [if_pos hmost, if_neg (by simpa [Text.ofNat_ne_nil, hmost] using hzero), if_pos trivial]
  · rw [if_neg hmost, if_pos (by simp [Nat.lt_of_not_le hmost])]

theorem scalar_of_isDigit (most : Nat) {c : Char} (hc : isDigit c = true) (t : Text) :
    scalar most (c :: t) = numberFrom most false (c :: t) := by
  have hne : ∀ d, isDigit d = false → d ≠ c := fun d => ne_of_isDigit hc
  unfold scalar
  split
  · next h => exact absurd (List.cons.inj h).1.symm (hne '-' (by decide))
  · have hnull : Text.after? "null".toList (c :: t) = none :=
      after?_of_head_ne (hne 'n' (by decide)) _ _
    have htrue : Text.after? "true".toList (c :: t) = none :=
      after?_of_head_ne (hne 't' (by decide)) _ _
    have hfalse : Text.after? "false".toList (c :: t) = none :=
      after?_of_head_ne (hne 'f' (by decide)) _ _
    have hnan : Text.after? "NaN".toList (c :: t) = none :=
      after?_of_head_ne (hne 'N' (by decide)) _ _
    rw [hnull, htrue, hfalse, hnan]

theorem scalar_ofInt (most : Nat) (n : Int) (h : Ends rest) :
    scalar most (Text.ofInt n ++ rest) =
      if (Text.ofNat n.natAbs).length ≤ most then some (.int n, rest) else none := by
  cases n with
  | ofNat n =>
    have hnumber := numberFrom_ofNat most false n h
    obtain ⟨c, ds, hds, hc⟩ := ofNat_eq_cons n
    have hscalar : scalar most (Text.ofNat n ++ rest) =
        numberFrom most false (Text.ofNat n ++ rest) := by
      rw [hds]
      exact scalar_of_isDigit most hc _
    rw [Text.ofInt, hscalar, hnumber]
    rfl
  | negSucc n =>
    have hnumber := numberFrom_ofNat most true (n + 1) h
    rw [Text.ofInt, List.cons_append, scalar, hnumber]
    rfl

end Numbers

/-! ### Values -/

/-- A value that its printed form stands for, with lists and tables nested at most so deep. -/
inductive Exact : Nat → Value → Prop
  | null {depth : Nat} : Exact depth .null
  | bool {depth : Nat} (b : Bool) : Exact depth (.bool b)
  | int {depth : Nat} (n : Int) : Exact depth (.int n)
  | text {depth : Nat} (t : Text) : Exact depth (.text t)
  | noItems {depth : Nat} : Exact depth (.list [])
  | noFields {depth : Nat} : Exact depth (.table [])
  | list {depth : Nat} {v : Value} {vs : List Value} (hvs : ∀ w ∈ v :: vs, Exact depth w) :
    Exact (depth + 1) (.list (v :: vs))
  | table {depth : Nat} {k : Text} {v : Value} {fs : Fields}
    (hkeys : (((k, v) :: fs).map (·.1)).Nodup) (hfs : ∀ f ∈ (k, v) :: fs, Exact depth f.2) :
    Exact (depth + 1) (.table ((k, v) :: fs))

theorem exact_list {depth : Nat} {vs : List Value} (h : ∀ v ∈ vs, Exact depth v) :
    Exact (depth + 1) (.list vs) := by
  cases vs with
  | nil => exact .noItems
  | cons v vs => exact .list h

mutual

def withinDigits (most : Nat) : Value → Bool
  | .int n => (Text.ofNat n.natAbs).length ≤ most
  | .list vs => itemsWithin most vs
  | .table fs => fieldsWithin most fs
  | _ => true

def itemsWithin (most : Nat) : List Value → Bool
  | [] => true
  | v :: vs => withinDigits most v && itemsWithin most vs

def fieldsWithin (most : Nat) : List (Text × Value) → Bool
  | [] => true
  | (_, v) :: fs => withinDigits most v && fieldsWithin most fs

end

theorem itemsWithin_iff {most : Nat} {vs : List Value} :
    itemsWithin most vs = true ↔ ∀ v ∈ vs, withinDigits most v = true := by
  induction vs with
  | nil => simp [itemsWithin]
  | cons v vs ih => simp [itemsWithin, ih]

/-- The reader takes a value from the front of a text unless an integer in it has too many
digits. -/
def Reads (most depth : Nat) (v : Value) : Prop :=
  ∀ fuel rest, (print v).length ≤ fuel → Ends rest →
    value most fuel depth (print v ++ rest) =
      if withinDigits most v then some (v, rest) else none

theorem skipBlanks_cons {c : Char} (h : c ≠ ' ' ∧ c ≠ '\t' ∧ c ≠ '\n' ∧ c ≠ '\r') (t : Text) :
    skipBlanks (c :: t) = c :: t := by
  rw [skipBlanks, List.dropWhile_cons_of_neg (by simp [h])]

/-- The first character of a printed value is neither a blank nor the end of a list. -/
theorem print_eq_cons {depth : Nat} {v : Value} (h : Exact depth v) :
    ∃ c t, print v = c :: t ∧ c ≠ ']' ∧ c ≠ ' ' ∧ c ≠ '\t' ∧ c ≠ '\n' ∧ c ≠ '\r' := by
  cases h with
  | null => exact ⟨'n', "ull".toList, rfl, by decide⟩
  | bool b => cases b <;> exact ⟨_, _, rfl, by decide⟩
  | int n =>
    cases n with
    | ofNat n =>
      obtain ⟨c, ds, hds, hc⟩ := ofNat_eq_cons n
      have hne : ∀ d, isDigit d = false → c ≠ d := fun d hd => (ne_of_isDigit hc hd).symm
      exact ⟨c, ds, hds, hne _ (by decide), hne _ (by decide), hne _ (by decide),
        hne _ (by decide), hne _ (by decide)⟩
    | negSucc n => exact ⟨'-', Text.ofNat (n + 1), rfl, by decide⟩
  | text t => exact ⟨'"', _, rfl, by decide⟩
  | noItems => exact ⟨'[', _, rfl, by decide⟩
  | noFields => exact ⟨'\x7b', _, rfl, by decide⟩
  | list _ => exact ⟨'[', _, rfl, by decide⟩
  | table _ _ => exact ⟨'\x7b', _, rfl, by decide⟩

theorem print_pos {depth : Nat} {v : Value} (h : Exact depth v) : 1 ≤ (print v).length := by
  obtain ⟨c, t, hprint, -⟩ := print_eq_cons h
  rw [hprint, List.length_cons]
  omega

theorem printItems_pos (vs : List Value) : 1 ≤ (printItems vs).length := by
  cases vs <;> simp only [printItems, List.length_cons, List.length_append] <;> omega

theorem ends_printItems (vs : List Value) (rest : Text) : Ends (printItems vs ++ rest) := by
  cases vs <;> exact ends_cons (by decide) _

theorem ends_printFields (fs : Fields) (rest : Text) : Ends (printFields fs ++ rest) := by
  rcases fs with _ | ⟨⟨k, v⟩, fs⟩ <;> exact ends_cons (by decide) _

section Containers

variable {most depth : Nat}

theorem items_succ {v : Value} {fuel : Nat} {t : Text} (hv : Reads most depth v)
    (hfuel : (print v).length ≤ fuel) (ht : Ends t) :
    items most (fuel + 1) depth (print v ++ t) =
      if withinDigits most v then
        match skipBlanks t with
        | ',' :: r => (items most fuel depth r).bind fun (vs, r) => some (v :: vs, r)
        | ']' :: r => some ([v], r)
        | _ => none
      else none := by
  rw [items, hv fuel t hfuel ht]
  cases withinDigits most v <;> rfl

/-- The items of a list come back if each of them does; the induction is on those after the
first. -/
theorem items_print {v : Value} {vs : List Value} (hreads : ∀ w ∈ v :: vs, Reads most depth w)
    {fuel : Nat} (hfuel : (print v ++ printItems vs).length ≤ fuel) (rest : Text) :
    items most fuel depth (print v ++ (printItems vs ++ rest)) =
      if itemsWithin most (v :: vs) then some (v :: vs, rest) else none := by
  induction vs generalizing v fuel with
  | nil =>
    have hlength : (print v).length + 1 ≤ fuel := by
      rw [List.length_append] at hfuel
      exact Nat.le_trans (Nat.add_le_add_left (printItems_pos []) _) hfuel
    obtain ⟨fuel, rfl⟩ : ∃ n, fuel = n + 1 := ⟨fuel - 1, by omega⟩
    have hclose : skipBlanks (printItems [] ++ rest) = ']' :: rest := skipBlanks_cons (by decide) _
    rw [items_succ (hreads v List.mem_cons_self) (by omega) (ends_printItems [] rest), hclose]
    simp only [itemsWithin, Bool.and_true]
  | cons w vs ih =>
    rw [List.length_append, printItems, List.length_append, List.length_cons] at hfuel
    obtain ⟨fuel, rfl⟩ : ∃ n, fuel = n + 1 := ⟨fuel - 1, by omega⟩
    have hcomma : skipBlanks (printItems (w :: vs) ++ rest) =
        ',' :: (print w ++ (printItems vs ++ rest)) := by
      rw [printItems, List.cons_append, List.cons_append, List.append_assoc]
      exact skipBlanks_cons (by decide) _
    have hfuel' : (print w ++ printItems vs).length ≤ fuel := by
      rw [List.length_append]
      omega
    have hvs := ih (fun u hu => hreads u (List.mem_cons_of_mem v hu)) hfuel'
    rw [items_succ (hreads v List.mem_cons_self) (by omega) (ends_printItems (w :: vs) rest),
      hcomma]
    simp only [hvs]
    have hsplit : itemsWithin most (v :: w :: vs) =
        (withinDigits most v && itemsWithin most (w :: vs)) := by rw [itemsWithin]
    rw [hsplit]
    cases withinDigits most v <;> cases itemsWithin most (w :: vs) <;> rfl

theorem members_succ {k : Text} {v : Value} {before : Fields} {fuel : Nat} {t : Text}
    (hv : Reads most depth v) (hfuel : (print v).length ≤ fuel) (ht : Ends t) :
    members most (fuel + 1) depth before (string k ++ ':' :: (print v ++ t)) =
      if withinDigits most v then
        match skipBlanks t with
        | ',' :: r => members most fuel depth (before.insert k v) r
        | '\x7d' :: r => some (before.insert k v, r)
        | _ => none
      else none := by
  have hopen : skipBlanks (string k ++ ':' :: (print v ++ t)) =
      '"' :: (k.flatMap escape ++ '"' :: ':' :: (print v ++ t)) := by
    simp only [string, List.cons_append, List.append_assoc, List.nil_append]
    exact skipBlanks_cons (by decide) _
  have hcolon : skipBlanks (':' :: (print v ++ t)) = ':' :: (print v ++ t) :=
    skipBlanks_cons (by decide) _
  rw [members, hopen]
  simp only [stringFrom_string, Option.bind_eq_bind, Option.bind_some, hcolon, hv fuel t hfuel ht]
  cases withinDigits most v <;> rfl

theorem key_not_mem {k : Text} {v : Value} {before fs : Fields}
    (h : ((before ++ (k, v) :: fs).map (·.1)).Nodup) : k ∉ before.map (·.1) := by
  rw [List.map_append, List.map_cons, List.nodup_append] at h
  exact fun hk => h.2.2 k hk k List.mem_cons_self rfl

/-- The members of a table come back behind those read before, if no key is repeated. -/
theorem members_print {k : Text} {v : Value} {fs before : Fields}
    (hreads : ∀ f ∈ (k, v) :: fs, Reads most depth f.2)
    (hkeys : ((before ++ (k, v) :: fs).map (·.1)).Nodup) {fuel : Nat}
    (hfuel : (string k ++ ':' :: print v ++ printFields fs).length ≤ fuel) (rest : Text) :
    members most fuel depth before (string k ++ ':' :: (print v ++ (printFields fs ++ rest))) =
      if fieldsWithin most ((k, v) :: fs) then some (before ++ (k, v) :: fs, rest) else none := by
  have hv : Reads most depth v := hreads (k, v) List.mem_cons_self
  induction fs generalizing k v before fuel with
  | nil =>
    have hlength : (print v).length + 1 ≤ fuel := by
      rw [List.length_append, List.length_append, List.length_cons] at hfuel
      omega
    obtain ⟨fuel, rfl⟩ : ∃ n, fuel = n + 1 := ⟨fuel - 1, by omega⟩
    have hclose : skipBlanks (printFields [] ++ rest) = '\x7d' :: rest :=
      skipBlanks_cons (by decide) _
    rw [members_succ hv (by omega) (ends_printFields [] rest), hclose,
      Fields.insert_of_not_mem v (key_not_mem hkeys)]
    simp only [fieldsWithin, Bool.and_true]
  | cons f fs ih =>
    obtain ⟨l, w⟩ := f
    simp only [printFields, List.length_append, List.length_cons] at hfuel
    obtain ⟨fuel, rfl⟩ : ∃ n, fuel = n + 1 := ⟨fuel - 1, by omega⟩
    have hcomma : skipBlanks (printFields ((l, w) :: fs) ++ rest) =
        ',' :: (string l ++ ':' :: (print w ++ (printFields fs ++ rest))) := by
      rw [printFields]
      simp only [List.cons_append, List.append_assoc]
      exact skipBlanks_cons (by decide) _
    have hkeys' : (((before ++ [(k, v)]) ++ (l, w) :: fs).map (·.1)).Nodup := by
      rwa [List.append_assoc]
    have hfuel' : (string l ++ ':' :: print w ++ printFields fs).length ≤ fuel := by
      simp only [List.length_append, List.length_cons]
      omega
    have hfs := ih (fun u hu => hreads u (List.mem_cons_of_mem _ hu)) hkeys' hfuel'
      (hreads (l, w) (List.mem_cons_of_mem _ List.mem_cons_self))
    rw [members_succ hv (by omega) (ends_printFields ((l, w) :: fs) rest), hcomma,
      Fields.insert_of_not_mem v (key_not_mem hkeys)]
    simp only [hfs]
    have hsplit : fieldsWithin most ((k, v) :: (l, w) :: fs) =
        (withinDigits most v && fieldsWithin most ((l, w) :: fs)) := by rw [fieldsWithin]
    rw [hsplit]
    cases withinDigits most v <;> cases fieldsWithin most ((l, w) :: fs) <;> simp

end Containers

theorem value_scalar {most depth fuel : Nat} {c : Char} {r : Text}
    (hblank : c ≠ ' ' ∧ c ≠ '\t' ∧ c ≠ '\n' ∧ c ≠ '\r') (hopen : c ≠ '"' ∧ c ≠ '[' ∧ c ≠ '\x7b') :
    value most (fuel + 1) depth (c :: r) = scalar most (c :: r) := by
  rw [value, skipBlanks_cons hblank]
  simp only [hopen, if_false]

theorem value_ofInt {most depth fuel : Nat} (n : Int) (rest : Text) :
    value most (fuel + 1) depth (Text.ofInt n ++ rest) = scalar most (Text.ofInt n ++ rest) := by
  cases n with
  | ofNat n =>
    obtain ⟨c, ds, hds, hc⟩ := ofNat_eq_cons n
    have hne : ∀ d, isDigit d = false → c ≠ d := fun d hd => (ne_of_isDigit hc hd).symm
    rw [Text.ofInt, hds]
    exact value_scalar ⟨hne _ (by decide), hne _ (by decide), hne _ (by decide),
      hne _ (by decide)⟩ ⟨hne _ (by decide), hne _ (by decide), hne _ (by decide)⟩
  | negSucc n => exact value_scalar (by decide) (by decide)

theorem value_text {most depth fuel : Nat} (t rest : Text) :
    value most (fuel + 1) depth (string t ++ rest) = some (.text t, rest) := by
  have hopen : skipBlanks (string t ++ rest) = '"' :: (t.flatMap escape ++ '"' :: rest) := by
    simp only [string, List.cons_append, List.append_assoc, List.nil_append]
    exact skipBlanks_cons (by decide) _
  rw [value, hopen]
  simp only [if_true, stringFrom_string, Option.map_some]

theorem value_noItems {most depth fuel : Nat} (rest : Text) :
    value most (fuel + 1) depth ('[' :: ']' :: rest) = some (.list [], rest) := by
  have hopen : skipBlanks ('[' :: ']' :: rest) = '[' :: ']' :: rest := skipBlanks_cons (by decide) _
  have hclose : skipBlanks (']' :: rest) = ']' :: rest := skipBlanks_cons (by decide) _
  rw [value, hopen]
  simp [hclose]

theorem value_list {most depth fuel : Nat} {c : Char} {t : Text}
    (hc : c ≠ ']' ∧ c ≠ ' ' ∧ c ≠ '\t' ∧ c ≠ '\n' ∧ c ≠ '\r') :
    value most (fuel + 1) (depth + 1) ('[' :: c :: t) =
      (items most fuel depth (c :: t)).map fun (vs, r) => (.list vs, r) := by
  have hopen : skipBlanks ('[' :: c :: t) = '[' :: c :: t := skipBlanks_cons (by decide) _
  have hfirst : skipBlanks (c :: t) = c :: t := skipBlanks_cons hc.2 _
  rw [value, hopen]
  simp only [hfirst]
  simp [hc.1]

theorem value_noFields {most depth fuel : Nat} (rest : Text) :
    value most (fuel + 1) depth ('\x7b' :: '\x7d' :: rest) = some (.table [], rest) := by
  have hopen : skipBlanks ('\x7b' :: '\x7d' :: rest) = '\x7b' :: '\x7d' :: rest :=
    skipBlanks_cons (by decide) _
  have hclose : skipBlanks ('\x7d' :: rest) = '\x7d' :: rest := skipBlanks_cons (by decide) _
  rw [value, hopen]
  simp [hclose]

theorem value_table {most depth fuel : Nat} (t : Text) :
    value most (fuel + 1) (depth + 1) ('\x7b' :: '"' :: t) =
      (members most fuel depth [] ('"' :: t)).map fun (fs, r) => (.table fs, r) := by
  have hopen : skipBlanks ('\x7b' :: '"' :: t) = '\x7b' :: '"' :: t := skipBlanks_cons (by decide) _
  have hfirst : skipBlanks ('"' :: t) = '"' :: t := skipBlanks_cons (by decide) _
  rw [value, hopen]
  simp only [hfirst]
  simp

theorem reads_of_succ {most depth : Nat} {v : Value} (h : Exact depth v)
    (hread : ∀ fuel rest, (print v).length ≤ fuel + 1 → Ends rest →
      value most (fuel + 1) depth (print v ++ rest) =
        if withinDigits most v then some (v, rest) else none) : Reads most depth v := by
  intro fuel rest hfuel hrest
  have hpos := print_pos h
  obtain ⟨fuel, rfl⟩ : ∃ n, fuel = n + 1 := ⟨fuel - 1, by omega⟩
  exact hread fuel rest hfuel hrest

theorem exact_reads {depth : Nat} {v : Value} (most : Nat) (h : Exact depth v) :
    Reads most depth v := by
  induction h with
  | null =>
    apply reads_of_succ .null
    intro fuel rest _ _
    exact value_scalar (by decide) (by decide)
  | bool b =>
    apply reads_of_succ (.bool b)
    intro fuel rest _ _
    cases b <;> exact value_scalar (by decide) (by decide)
  | @int depth n =>
    apply reads_of_succ (.int n)
    intro fuel rest _ hrest
    have hscalar := scalar_ofInt most n hrest
    simp only [withinDigits, decide_eq_true_eq]
    rw [print, ← hscalar]
    exact value_ofInt n rest
  | text t =>
    apply reads_of_succ (.text t)
    intro fuel rest _ _
    exact value_text t rest
  | noItems =>
    apply reads_of_succ .noItems
    intro fuel rest _ _
    exact value_noItems rest
  | noFields =>
    apply reads_of_succ .noFields
    intro fuel rest _ _
    exact value_noFields rest
  | @list depth v vs hvs ih =>
    apply reads_of_succ (.list hvs)
    intro fuel rest hfuel _
    obtain ⟨c, t, hprint, hc⟩ := print_eq_cons (hvs v List.mem_cons_self)
    have hfuel' : (print v ++ printItems vs).length ≤ fuel := by simpa [print] using hfuel
    have hitems := items_print ih hfuel' rest
    rw [hprint, List.cons_append] at hitems
    rw [print, hprint]
    simp only [List.cons_append, List.append_assoc]
    rw [value_list hc, hitems, withinDigits]
    cases itemsWithin most (v :: vs) <;> rfl
  | @table depth k v fs hkeys hfs ih =>
    apply reads_of_succ (.table hkeys hfs)
    intro fuel rest hfuel _
    have hkeys' : ((([] : Fields) ++ (k, v) :: fs).map (·.1)).Nodup := hkeys
    have hfuel' : (string k ++ ':' :: print v ++ printFields fs).length ≤ fuel := by
      simpa [print] using hfuel
    have hmembers := members_print ih hkeys' hfuel' rest
    rw [print]
    simp only [string, List.cons_append, List.append_assoc] at hmembers ⊢
    rw [value_table, hmembers, withinDigits]
    cases fieldsWithin most ((k, v) :: fs) <;> rfl

theorem parseWithin?_print {b : Bounds} {v : Value} (h : Exact b.depth v) :
    parseWithin? b (print v) = if withinDigits b.digits v then some v else none := by
  have hread := exact_reads b.digits h (2 * (print v).length + 2) [] (by omega) ends_nil
  rw [List.append_nil] at hread
  rw [parseWithin?, hread]
  cases withinDigits b.digits v <;> rfl

end Json

end FormatAudit
