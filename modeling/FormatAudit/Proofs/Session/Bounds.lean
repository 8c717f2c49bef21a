import FormatAudit.Console.Log
import FormatAudit.Proofs.Session.Promises

/-! Bounds on what a computation may do: what it launches and how it fails. What is printed, and
which programs are looked up, is left open. -/
namespace FormatAudit.Run

variable {α β : Type} {h : Host} {P : List Launch → Prop} {Q R : Failure → Prop}

/-- The launches keep `P`, and if the computation fails, the failure has `Q`. -/
def IsBounded (h : Host) (P : List Launch → Prop) (Q : Failure → Prop) (x : Run α) : Prop :=
  Ensures h (fun s => P s.launches) x (FailsOnly Q)

theorem IsBounded.mono {x : Run α} (hx : IsBounded h P Q x) (hQ : ∀ f, Q f → R f) :
    IsBounded h P R x :=
  Ensures.mono hx fun _ hr => hr.mono hQ

theorem isBounded_of_exec {x : Run α} (hx : ∀ s, ∃ a, (x.exec h s).1 = .ok a)
    (hlaunches : ∀ s, (x.exec h s).2.launches = s.launches) : IsBounded h P Q x := by
  intro s hs
  obtain ⟨a, ha⟩ := hx s
  refine ⟨?_, ?_⟩
  · rw [ha]
    exact failsOnly_ok a
  · change P (x.exec h s).2.launches
    rwa [hlaunches]

theorem isBounded_pure (a : α) : IsBounded h P Q (pure a) :=
  ensures_pure (failsOnly_ok a)

theorem isBounded_throw {f : Failure} (hf : Q f) : IsBounded h P Q (throw f : Run α) :=
  fun _ hs => ⟨failsOnly_error.2 hf, hs⟩

theorem isBounded_ofExcept {ε : Type} {wrap : ε → Failure} {r : Except ε α}
    (hr : ∀ e, r = .error e → Q (wrap e)) : IsBounded h P Q (ofExcept wrap r) := by
  cases r with
  | ok a => exact isBounded_pure a
  | error e => exact isBounded_throw (hr e rfl)

theorem isBounded_print (t : Text) : IsBounded h P Q (print t) :=
  isBounded_of_exec (fun _ => ⟨(), rfl⟩) fun _ => rfl

theorem isBounded_find (p : Text) : IsBounded h P Q (find p) :=
  isBounded_of_exec (fun _ => ⟨h.find p, rfl⟩) fun _ => rfl

theorem isBounded_say (level : Console.Level) (t : Text) (emoji : Bool) (color : Option Bool) :
    IsBounded h P Q (say level t emoji color) :=
  isBounded_of_exec (fun _ => ⟨(), rfl⟩) fun _ => rfl

theorem launch_ensures {l : Launch} (hP : ∀ ls, P ls → P (ls ++ [l])) :
    Ensures h (fun s => P s.launches) (launch l) fun r =>
      ∃ outcome, r = .ok outcome ∧ ∃ t, outcome = (h.launch l t).1 :=
  fun s hs => ⟨⟨_, rfl, s.tree, rfl⟩, hP s.launches hs⟩

theorem IsBounded.bind {x : Run α} {f : α → Run β} (hx : IsBounded h P Q x)
    (hf : ∀ a, IsBounded h P Q (f a)) : IsBounded h P Q (x >>= f) :=
  Ensures.bind hx (fun a _ => hf a) fun _ he => failsOnly_error.2 (failsOnly_error.1 he)

/-- Where the failures of a computation are dealt with, only its launches matter. -/
theorem IsBounded.attempt_bind {x : Run α} {f : Except Failure α → Run β} (hx : IsBounded h P R x)
    (hf : ∀ r, IsBounded h P Q (f r)) : IsBounded h P Q (Run.attempt x >>= f) :=
  Ensures.bind_ok hx.attempt fun r _ => hf r

theorem isBounded_mapM {f : α → Run β} {items : List α}
    (hf : ∀ a ∈ items, IsBounded h P Q (f a)) : IsBounded h P Q (items.mapM f) :=
  (ensures_mapM hf).mono fun _ hr => hr.failsOnly

theorem isBounded_forIn {f : α → β → Run (ForInStep β)} {items : List α} (b : β)
    (hf : ∀ a ∈ items, ∀ b, IsBounded h P Q (f a b)) : IsBounded h P Q (forIn items b f) := by
  induction items generalizing b with
  | nil =>
    rw [List.forIn_nil]
    exact isBounded_pure b
  | cons a items ih =>
    obtain ⟨ha, hitems⟩ := List.forall_mem_cons.1 hf
    rw [List.forIn_cons]
    refine (ha b).bind fun step => ?_
    cases step with
    | done c => exact isBounded_pure c
    | yield c => exact ih c hitems

end FormatAudit.Run
