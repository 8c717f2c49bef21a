import FormatAudit.Console.Log
import FormatAudit.Intake.Scalar
import Mathlib.Data.List.Forall2

/-! What a computation does in every session of a kind that it does not leave. Such facts put
together, since what comes next starts in a session of that kind again. -/
namespace FormatAudit

def bareHost : Host :=
  { find := fun _ => none
    launch := fun _ tree => (.exited 0 none none, tree)
    processors := none
    output := .plain
    here := []
    lookup := .listed
    numerals := Intake.numerals
    schedule := fun _ => [] }

/-- A pool hands out a console for the way of printing that is asked for, whatever consoles are in it
already. -/
theorem Console.Pool.getElem?_get (pool : Console.Pool) (s : Console.Setup) :
    (pool.get s).2[(pool.get s).1]? = some s := by
  unfold get
  cases hfound : pool.idxOf? s with
  | none => exact List.getElem?_concat_length
  | some i =>
    obtain ⟨hi, hsetup, -⟩ := List.idxOf?_eq_some_iff.1 hfound
    exact List.getElem?_eq_some_iff.2 ⟨hi, hsetup⟩

namespace Run

section Exec

variable {α β : Type} {h : Host} {s : Session}

theorem exec_bind (x : Run α) (f : α → Run β) :
    (x >>= f).exec h s = match x.exec h s with
      | (.ok a, s') => (f a).exec h s'
      | (.error e, s') => (.error e, s') := by
  change ExceptT.bindCont (fun a => f a h) (x.exec h s).1 (x.exec h s).2 = _
  obtain ⟨e | a, s'⟩ := x.exec h s <;> rfl

theorem exec_read_bind (f : Host → Run α) :
    ((read : Run Host) >>= f).exec h s = (f h).exec h s :=
  rfl

theorem exec_get_bind (f : Session → Run α) :
    ((get : Run Session) >>= f).exec h s = (f s).exec h s :=
  rfl

theorem exec_map (f : α → β) (x : Run α) :
    (f <$> x).exec h s = ((x.exec h s).1.map f, (x.exec h s).2) := by
  rw [map_eq_pure_bind, exec_bind]
  obtain ⟨e | a, s'⟩ := x.exec h s <;> rfl

theorem exec_tryCatch (x : Run α) (f : Failure → Run α) :
    (tryCatch x f).exec h s = match x.exec h s with
      | (.ok a, s') => (.ok a, s')
      | (.error e, s') => (f e).exec h s' := by
  rcases hx : x.exec h s with ⟨e | a, s'⟩
  all_goals
    change ExceptT.tryCatch (x h) (fun e => f e h) s = _
    replace hx : x h s = _ := hx
    simp only [ExceptT.tryCatch, ExceptT.mk, bind, StateT.bind, hx]
    rfl

theorem exec_attempt (x : Run α) :
    (attempt x).exec h s = (.ok (x.exec h s).1, (x.exec h s).2) := by
  rw [attempt, exec_tryCatch, exec_map]
  obtain ⟨e | a, s'⟩ := x.exec h s <;> rfl

theorem exec_find (p : Text) :
    (find p).exec h s = (.ok (h.find p), { s with lookups := s.lookups ++ [p] }) :=
  rfl

theorem exec_console (color emoji : Bool) :
    (console color emoji).exec h s = (.ok ⟨color, emoji, h.isTerminal⟩,
      { s with consoles := (s.consoles.get ⟨color, emoji, h.isTerminal⟩).2 }) := by
  let setup : Console.Setup := ⟨color, emoji, h.isTerminal⟩
  have hexec : (console color emoji).exec h s =
      (.ok ((s.consoles.get setup).2[(s.consoles.get setup).1]?.getD setup),
        { s with consoles := (s.consoles.get setup).2 }) := rfl
  rw [hexec, Console.Pool.getElem?_get]
  rfl

theorem exec_say (level : Console.Level) (t : Text) (emoji : Bool) (color : Option Bool) :
    (say level t emoji color).exec h s = (.ok (), { s with
      printed := s.printed ++
        [Console.message level t emoji (color.getD h.isTerminal && h.isTerminal)]
      consoles := (s.consoles.get ⟨color.getD h.isTerminal, emoji, h.isTerminal⟩).2 }) := by
  rw [say, exec_read_bind, exec_bind, exec_console]
  rfl

theorem exec_ofExcept {ε : Type} (wrap : ε → Failure) (r : Except ε α) :
    (ofExcept wrap r).exec h s = (r.mapError wrap, s) := by
  cases r <;> rfl

theorem exec_ofExcept_id (r : Except Failure α) : (ofExcept id r).exec h s = (r, s) := by
  cases r <;> rfl

theorem exec_bind_eq_ok {x : Run α} {f : α → Run β} {b : β} {t : Session} :
    (x >>= f).exec h s = (.ok b, t) ↔
      ∃ a s', x.exec h s = (.ok a, s') ∧ (f a).exec h s' = (.ok b, t) := by
  rw [exec_bind]
  rcases x.exec h s with ⟨e | a, s'⟩ <;> simp

theorem exists_of_exec_bind {x : Run α} {f : α → Run β} {b : β}
    (hx : ((x >>= f).exec h s).1 = .ok b) :
    ∃ a s', x.exec h s = (.ok a, s') ∧ ((f a).exec h s').1 = .ok b := by
  obtain ⟨a, s', ha, hb⟩ := exec_bind_eq_ok.1 (Prod.ext hx rfl)
  exact ⟨a, s', ha, congrArg Prod.fst hb⟩

theorem eq_of_exec_ofExcept {r : Except Failure α} {a : α}
    (hr : ((ofExcept id r).exec h s).1 = .ok a) : r = .ok a := by
  cases r <;> cases hr
  rfl

end Exec

/-- In a session of the kind `I` the computation comes to a result with `Q`, and the session stays
of that kind. -/
def Ensures {α : Type} (h : Host) (I : Session → Prop) (x : Run α)
    (Q : Except Failure α → Prop) : Prop :=
  ∀ s, I s → Q (x.exec h s).1 ∧ I (x.exec h s).2

/-- The results of a list of computations, or the failure of the first one that failed. -/
def Collects {α β : Type} (Q : α → Except Failure β → Prop) (items : List α)
    (r : Except Failure (List β)) : Prop :=
  ∃ rs, List.Forall₂ Q items rs ∧ r = rs.mapM id

variable {α β : Type} {h : Host} {I : Session → Prop}

theorem Ensures.mono {x : Run α} {Q R : Except Failure α → Prop} (hx : Ensures h I x Q)
    (hQ : ∀ r, Q r → R r) : Ensures h I x R := by
  intro s hs
  exact ⟨hQ _ (hx s hs).1, (hx s hs).2⟩

theorem ensures_pure {a : α} {Q : Except Failure α → Prop} (ha : Q (.ok a)) :
    Ensures h I (pure a) Q := by
  intro s hs
  exact ⟨ha, hs⟩

theorem ensures_readFile {p : Path} {Q : Except Failure (Except FileError Bytes) → Prop}
    (hp : ∀ s, I s → Q (.ok (s.tree.read h.here p))) : Ensures h I (readFile p) Q := by
  intro s hs
  exact ⟨hp s hs, hs⟩

theorem Ensures.bind {x : Run α} {f : α → Run β} {Q : Except Failure α → Prop}
    {R : Except Failure β → Prop} (hx : Ensures h I x Q)
    (hf : ∀ a, Q (.ok a) → Ensures h I (f a) R) (he : ∀ e, Q (.error e) → R (.error e)) :
    Ensures h I (x >>= f) R := by
  intro s hs
  obtain ⟨hQ, hI⟩ := hx s hs
  rw [exec_bind]
  rcases hr : x.exec h s with ⟨e | a, s'⟩
  · rw [hr] at hQ hI
    exact ⟨he e hQ, hI⟩
  · rw [hr] at hQ hI
    exact hf a hQ s' hI

/-- Where the first computation does not fail, only what follows it matters. -/
theorem Ensures.bind_ok {x : Run α} {f : α → Run β} {Q : α → Prop} {R : Except Failure β → Prop}
    (hx : Ensures h I x fun r => ∃ a, r = .ok a ∧ Q a) (hf : ∀ a, Q a → Ensures h I (f a) R) :
    Ensures h I (x >>= f) R := by
  apply hx.bind
  · rintro a ⟨b, hab, hb⟩
    cases hab
    exact hf a hb
  · rintro e ⟨b, heb, -⟩
    cases heb

theorem Ensures.map {x : Run α} {f : α → β} {Q : Except Failure α → Prop}
    {R : Except Failure β → Prop} (hx : Ensures h I x Q) (hQ : ∀ r, Q r → R (r.map f)) :
    Ensures h I (f <$> x) R := by
  intro s hs
  rw [exec_map]
  exact ⟨hQ _ (hx s hs).1, (hx s hs).2⟩

theorem Ensures.attempt {x : Run α} {Q : Except Failure α → Prop} (hx : Ensures h I x Q) :
    Ensures h I (attempt x) fun r => ∃ a, r = .ok a ∧ Q a := by
  intro s hs
  rw [exec_attempt]
  exact ⟨⟨_, rfl, (hx s hs).1⟩, (hx s hs).2⟩

theorem collects_nil {Q : α → Except Failure β → Prop} : Collects Q [] (.ok []) :=
  ⟨[], .nil, rfl⟩

theorem collects_cons_ok {Q : α → Except Failure β → Prop} {a : α} {b : β} {items : List α}
    {r : Except Failure (List β)} (hb : Q a (.ok b)) (hr : Collects Q items r) :
    Collects Q (a :: items) (r.map (b :: ·)) := by
  obtain ⟨rs, hrs, rfl⟩ := hr
  refine ⟨.ok b :: rs, .cons hb hrs, ?_⟩
  rw [List.mapM_cons]
  cases rs.mapM id <;> rfl

theorem collects_cons_error {Q : α → Except Failure β → Prop} {a : α} {e : Failure}
    {items : List α} {r : Except Failure (List β)} (he : Q a (.error e))
    (hr : Collects Q items r) : Collects Q (a :: items) (.error e) := by
  obtain ⟨rs, hrs, -⟩ := hr
  refine ⟨.error e :: rs, .cons he hrs, ?_⟩
  rw [List.mapM_cons]
  rfl

theorem Collects.ok {P : α → β → Prop} {items : List α} {r : Except Failure (List β)}
    (hr : Collects (fun a r => ∃ b, r = .ok b ∧ P a b) items r) :
    ∃ bs, r = .ok bs ∧ List.Forall₂ P items bs := by
  obtain ⟨rs, hrs, rfl⟩ := hr
  induction hrs with
  | nil => exact ⟨[], rfl, .nil⟩
  | @cons a r items rs ha _ ih =>
    obtain ⟨b, rfl, hb⟩ := ha
    obtain ⟨bs, hbs, hall⟩ := ih
    refine ⟨b :: bs, ?_, .cons hb hall⟩
    rw [List.mapM_cons, hbs]
    rfl

theorem Collects.eq_mapM {v : α → Except Failure β} {items : List α}
    {r : Except Failure (List β)} (hr : Collects (fun a r => r = v a) items r) :
    r = items.mapM v := by
  obtain ⟨rs, hrs, rfl⟩ := hr
  have hmap : rs = items.map v := by
    induction hrs with
    | nil => rfl
    | cons hv _ ih => rw [hv, ih, List.map_cons]
  rw [hmap, List.mapM_map]
  rfl

/-! ### Failures -/

def FailsOnly (Q : Failure → Prop) (r : Except Failure α) : Prop :=
  ∀ f, r = .error f → Q f

section Failures

variable {P Q : Failure → Prop} {r : Except Failure α}

theorem failsOnly_ok (a : α) : FailsOnly Q (.ok a : Except Failure α) :=
  fun _ hf => nomatch hf

theorem failsOnly_error {f : Failure} : FailsOnly Q (.error f : Except Failure α) ↔ Q f :=
  ⟨fun hr => hr f rfl, fun hf _ heq => Except.error.inj heq ▸ hf⟩

theorem FailsOnly.mono (hr : FailsOnly P r) (hPQ : ∀ f, P f → Q f) : FailsOnly Q r :=
  fun f hf => hPQ f (hr f hf)

theorem FailsOnly.map (hr : FailsOnly Q r) (f : α → β) : FailsOnly Q (r.map f) := by
  cases r with
  | error e => exact failsOnly_error.2 (failsOnly_error.1 hr)
  | ok a => exact failsOnly_ok (f a)

theorem Collects.failsOnly {items : List α} {r : Except Failure (List β)}
    (hr : Collects (fun _ => FailsOnly Q) items r) : FailsOnly Q r := by
  obtain ⟨rs, hrs, rfl⟩ := hr
  induction hrs with
  | nil => exact failsOnly_ok []
  | @cons _ r _ rs hr _ ih =>
    rw [List.mapM_cons]
    cases r with
    | error e => exact failsOnly_error.2 (failsOnly_error.1 hr)
    | ok b => exact ih.map (b :: ·)

end Failures

end Run

end FormatAudit
