import FormatAudit.FileTree.Basic
import FormatAudit.Proofs.Fields
import FormatAudit.Proofs.Text.Pieces
import Mathlib.Logic.Basic

/-! Where a path leads that goes on behind another one: as far as that one leads, and from there
over the names behind it. Links are followed throughout. -/
namespace FormatAudit.FileTree
variable {t : FileTree} {place p : Place} {parts more names : List Text} {f : FileFault}

/-! ### Entries and directories by their names -/

/-- No directory in a tree has two entries of one name. -/
inductive Distinct : FileTree → Prop
  | file (content : Bytes) (readable executable : Bool) :
    Distinct (.file content readable executable)
  | link (target : Text) : Distinct (.link target)
  | dir {entries : List (Text × FileTree)} (names : (entries.map (·.1)).Nodup)
    (below : ∀ e ∈ entries, Distinct e.2) : Distinct (.dir entries)

theorem lookup_isSome {entries : List (Text × FileTree)} {name : Text} :
    (lookup entries name).isSome ↔ name ∈ entries.map (·.1) := by
  simp [lookup]

theorem at?_append (t : FileTree) (p q : Place) : t.at? (p ++ q) = (t.at? p).bind (at? q) := by
  induction p generalizing t with
  | nil => rfl
  | cons name p ih =>
    cases t with
    | dir entries =>
      rw [List.cons_append, at?, at?]
      cases lookup entries name with
      | none => rfl
      | some u => exact ih u
    | _ => rfl

theorem cons_mem_directoriesIn {entries : List (Text × FileTree)} {n : Text} :
    n :: names ∈ directoriesIn entries ↔ ∃ u, (n, u) ∈ entries ∧ names ∈ u.directories := by
  induction entries with
  | nil => simp [directoriesIn]
  | cons e entries ih =>
    obtain ⟨m, u⟩ := e
    rw [directoriesIn, List.mem_append, ih, List.mem_map]
    constructor
    · rintro (⟨rest, hrest, heq⟩ | ⟨v, hv, hrest⟩)
      · rw [List.cons.injEq] at heq
        obtain ⟨rfl, rfl⟩ := heq
        exact ⟨u, List.mem_cons_self, hrest⟩
      · exact ⟨v, List.mem_cons_of_mem _ hv, hrest⟩
    · rintro ⟨v, hv, hrest⟩
      obtain heq | hv := List.mem_cons.1 hv
      · cases heq
        exact .inl ⟨names, hrest, rfl⟩
      · exact .inr ⟨v, hv, hrest⟩

theorem mem_directories (h : t.Distinct) :
    names ∈ t.directories ↔ ∃ entries, t.at? names = some (.dir entries) := by
  induction names generalizing t with
  | nil => cases h <;> simp [directories, at?]
  | cons n names ih =>
    cases h with
    | file | link => simp [directories, at?]
    | @dir entries hnames hbelow =>
      have hne : n :: names ≠ [] := List.cons_ne_nil _ _
      have hlookup : ∀ u, lookup entries n = some u ↔ (n, u) ∈ entries :=
        fun u => find?_map_eq_some hnames
      rw [directories, List.mem_cons, or_iff_right hne, cons_mem_directoriesIn, at?]
      simp only [Option.bind_eq_some_iff, hlookup]
      constructor
      · rintro ⟨u, hu, hnames⟩
        obtain ⟨es, hes⟩ := (ih (hbelow _ hu)).1 hnames
        exact ⟨es, u, hu, hes⟩
      · rintro ⟨es, u, hu, hes⟩
        exact ⟨u, hu, (ih (hbelow _ hu)).2 ⟨es, hes⟩⟩

/-! ### Walks and resolution -/

/-- A walk over more parts goes on from where the walk over the first of them ends. -/
theorem walk_append (t : FileTree) (place : Place) (parts more : List Text) :
    t.walk true place (parts ++ more) =
      match t.walk true place parts with
      | .arrived p => t.walk true p more
      | .stopped fault => .stopped fault
      | .linked here target rest => .linked here target (rest ++ more) := by
  induction parts generalizing place with
  | nil => rfl
  | cons part rest ih =>
    simp only [List.cons_append, walk]
    cases t.at? place with
    | none => rfl
    | some u =>
      cases u with
      | file | link => rfl
      | dir entries =>
        by_cases hup : part = up
        · simpa only [hup, if_true] using ih _
        by_cases hsame : part = same
        · simpa only [if_neg hup, if_pos hsame] using ih _
        by_cases hlong : longestName < byteCount part
        · simp only [hup, hsame, hlong, if_true, if_false]
        simp only [hup, hsame, hlong, if_false]
        cases lookup entries part with
        | none => rfl
        | some v =>
          cases v with
          | file | dir => exact ih _
          | link target => simp

theorem resolveOver_congr {q : Place} {names' : List Text}
    (h : t.walk true p names = t.walk true q names') (links : Nat) :
    t.resolveOver true links p names = t.resolveOver true links q names' := by
  rw [resolveOver, resolveOver.eq_def, h]

theorem resolveOver_nil (t : FileTree) (links : Nat) (place : Place) :
    t.resolveOver true links place [] = .ok place := by
  rw [resolveOver, walk]

/-- A path that goes on leads on from the place that the path itself leads to. -/
theorem resolveOver_append {links : Nat} (h : t.resolveOver true links place parts = .ok p) :
    ∃ l, ∀ more, t.resolveOver true links place (parts ++ more) = t.resolveOver true l p more := by
  fun_induction resolveOver t true links place parts with
  | case1 links place parts q hwalk =>
    cases h
    exact ⟨links, fun more => resolveOver_congr (by rw [walk_append, hwalk]) links⟩
  | case2 links place parts g hwalk => cases h
  | case3 place parts here target rest hwalk => cases h
  | case4 place parts here target rest hwalk links start ih =>
    obtain ⟨l, hl⟩ := ih h
    refine ⟨l, fun more => ?_⟩
    rw [resolveOver, walk_append, hwalk, ← hl, List.append_assoc]

/-- A walk over the names of directories arrives at the last of them, unless a name is too long. -/
theorem walk_directories {u : FileTree} {dir : List Text} {entries : List (Text × FileTree)}
    (hplace : t.at? place = some u) (hdir : u.at? dir = some (.dir entries))
    (hnames : ∀ n ∈ dir, n ≠ up ∧ n ≠ same) :
    (∀ more, t.walk true place (dir ++ more) = .stopped .nameTooLong) ∨
      ∀ more, t.walk true place (dir ++ more) = t.walk true (place ++ dir) more := by
  induction dir generalizing place u with
  | nil => exact .inr fun more => by rw [List.append_nil, List.nil_append]
  | cons n dir ih =>
    obtain ⟨⟨hup, hsame⟩, hnames⟩ := List.forall_mem_cons.1 hnames
    cases u with
    | file | link => cases hdir
    | dir es =>
      rw [at?] at hdir
      obtain ⟨v, hv, hdir⟩ := Option.bind_eq_some_iff.1 hdir
      have hstep : ∀ more, t.walk true place (n :: dir ++ more) =
          if longestName < byteCount n then .stopped .nameTooLong
          else t.walk true (place ++ [n]) (dir ++ more) := by
        intro more
        rw [List.cons_append, walk, hplace]
        simp only [if_neg hup, if_neg hsame, hv]
        cases v with
        | file | dir => rfl
        | link target => cases dir <;> cases hdir
      by_cases hlong : longestName < byteCount n
      · exact .inl fun more => by rw [hstep, if_pos hlong]
      · have hnext : t.at? (place ++ [n]) = some v := by
          rw [at?_append, hplace]
          simp [at?, hv]
        simp only [hstep, if_neg hlong]
        simpa only [List.append_assoc, List.singleton_append] using ih hnext hdir hnames

/-! ### Why a path leads nowhere -/

/-- Whether the fault is one that a path may meet on its way, whatever its text is. -/
def isOnWay : FileFault → Bool
  | .missing | .notDirectory | .nameTooLong | .tooManyLinks => true
  | _ => false

theorem isOnWay_of_walk (h : t.walk true place parts = .stopped f) : isOnWay f := by
  induction parts generalizing place with
  | nil => cases h
  | cons part rest ih =>
    rw [walk] at h
    split at h
    · split at h
      · exact ih h
      · split at h
        · exact ih h
        · split at h
          · cases h
            rfl
          · split at h
            · cases h
              rfl
            · simp at h
            · exact ih h
    · cases h
      rfl
    · cases h
      rfl

theorem isOnWay_of_resolveOver {links : Nat}
    (h : t.resolveOver true links place parts = .error f) : isOnWay f := by
  fun_induction resolveOver t true links place parts with
  | case1 links place parts q hwalk => cases h
  | case2 links place parts g hwalk =>
    cases h
    exact isOnWay_of_walk hwalk
  | case3 place parts here target rest hwalk =>
    cases h
    rfl
  | case4 place parts here target rest hwalk links start ih => exact ih h

theorem entry_eq_ok {here : Place} {path : Path} {e : FileTree} :
    t.entry here path = .ok e ↔
      textFault? path = none ∧ ∃ p, t.resolve here path = .ok p ∧ t.at? p = some e := by
  rw [entry]
  cases textFault? path with
  | some fault => simp
  | none =>
    cases t.resolve here path with
    | error fault => simp
    | ok p => cases hp : t.at? p <;> simp [hp]

theorem fault_of_entry {here : Place} {path : Path} (h : t.entry here path = .error f) :
    textFault? path = some f ∨ isOnWay f := by
  rw [entry] at h
  split at h
  · next fault hfault =>
    cases h
    exact .inl hfault
  · split at h
    · next fault hresolve =>
      cases h
      exact .inr (isOnWay_of_resolveOver hresolve)
    · split at h <;> cases h
      exact .inr rfl

/-- What an entry cannot be told for, rather than be missing, is a path with a name that is too long
or that is too long itself. -/
theorem absence_or_long_of_entry {here : Place} {path : Path} (h : t.entry here path = .error f) :
    f.isAbsence ∨ f = .nameTooLong := by
  obtain hfault | hmet := fault_of_entry h
  · rw [textFault?] at hfault
    split at hfault
    · cases hfault
      exact .inl rfl
    · split at hfault <;> cases hfault
      exact .inr rfl
  · cases f <;> simp_all [isOnWay, FileFault.isAbsence]

theorem nameTooLong_of_seek {here : Place} {path : Path} {error : FileError}
    (h : t.seek here path = .error error) : error.fault = .nameTooLong := by
  rw [seek] at h
  cases hentry : t.entry here path with
  | ok u => simp [hentry] at h
  | error fault =>
    rw [hentry] at h
    obtain habsent | rfl := absence_or_long_of_entry hentry
    · simp [habsent] at h
    · cases h
      rfl

/-- Only the text of a path makes a null character a fault of reading. -/
theorem nullCharacter_of_read {here : Place} {path : Path} {error : FileError}
    (h : t.read here path = .error error) (hnull : error.fault = .nullCharacter) :
    '\x00' ∈ path.text := by
  rw [read] at h
  split at h
  · split at h <;> cases h
    cases hnull
  · cases h
    cases hnull
  · next fault hentry =>
    cases h
    obtain rfl : fault = .nullCharacter := hnull
    obtain htext | hmet := fault_of_entry hentry
    · rw [textFault?] at htext
      split at htext
      · next hcontains => exact List.contains_iff_mem.1 hcontains
      · split at htext <;> cases htext
    · cases hmet

/-! ### What is wrong with the text of a path -/

theorem byteCount_append (a b : Text) : byteCount (a ++ b) = byteCount a + byteCount b := by
  simp [byteCount, Utf8.encode]

theorem textFault?_eq_none {path : Path} :
    textFault? path = none ↔ '\x00' ∉ path.text ∧ byteCount path.text ≤ longestPath := by
  rw [textFault?]
  split
  · simp_all
  · split <;> simp_all

theorem text_of_append (path : Path) (name : Text) :
    path.text = ['.'] ∨
      ∃ x, (Path.mk path.slashes (path.parts ++ [name])).text = path.text ++ x := by
  obtain ⟨slashes, parts⟩ := path
  have hne : ¬(slashes = 0 ∧ parts ++ [name] = []) := fun h => by simp at h
  by_cases hparts : parts = []
  · subst hparts
    by_cases hslashes : slashes = 0
    · exact .inl (if_pos ⟨hslashes, rfl⟩)
    · refine .inr ⟨name, ?_⟩
      rw [Path.text, Path.text, if_neg hne, if_neg fun h => hslashes h.1]
      simp [Path.partsText]
  · refine .inr ⟨'/' :: name, ?_⟩
    rw [Path.text, Path.text, if_neg hne, if_neg fun h => hparts h.2]
    simp [Path.partsText, Text.intercalate_append hparts]

theorem textFault?_of_append {path : Path} {name : Text}
    (h : textFault? ⟨path.slashes, path.parts ++ [name]⟩ = none) : textFault? path = none := by
  rw [textFault?_eq_none] at h ⊢
  obtain hpoint | ⟨x, hx⟩ := text_of_append path name
  · rw [hpoint]
    decide
  · rw [hx, List.mem_append, not_or, byteCount_append] at h
    exact ⟨h.1.1, Nat.le_trans (Nat.le_add_right _ _) h.2⟩

end FormatAudit.FileTree
