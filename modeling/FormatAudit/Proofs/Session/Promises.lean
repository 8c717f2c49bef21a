import FormatAudit.Proofs.Session.Ensures

/-! What a computation does from a session on, where other computations may have moved the session
on before it runs. All that is known of the others is which kinds of sessions none of them leaves. -/
namespace FormatAudit.Run

variable {ι α β : Type} {h : Host} {K : ι → Session → Prop} {s t u : Session}

/-- Of every kind that the session `s` is of, the session `t` is, too. -/
def Keeps (K : ι → Session → Prop) (s t : Session) : Prop :=
  ∀ i, K i s → K i t

theorem Keeps.refl (s : Session) : Keeps K s s :=
  fun _ hs => hs

theorem Keeps.trans (hst : Keeps K s t) (htu : Keeps K t u) : Keeps K s u :=
  fun i hs => htu i (hst i hs)

/-- From whatever `s` has been moved on to, the computation keeps the kinds and comes to a result
and a session with `Q`. -/
def Promises (h : Host) (K : ι → Session → Prop) (s : Session) (x : Run α)
    (Q : Except Failure α → Session → Prop) : Prop :=
  ∀ t, Keeps K s t → Keeps K t (x.exec h t).2 ∧ Q (x.exec h t).1 (x.exec h t).2

theorem Promises.later {x : Run α} {Q : Except Failure α → Session → Prop}
    (hx : Promises h K s x Q) (hst : Keeps K s t) : Promises h K t x Q :=
  fun u htu => hx u (hst.trans htu)

theorem Promises.mono {x : Run α} {Q T : Except Failure α → Session → Prop}
    (hx : Promises h K s x Q) (hQ : ∀ r t, Q r t → T r t) : Promises h K s x T :=
  fun t hst => ⟨(hx t hst).1, hQ _ _ (hx t hst).2⟩

theorem promises_pure {a : α} {Q : Except Failure α → Session → Prop}
    (ha : ∀ t, Keeps K s t → Q (.ok a) t) : Promises h K s (pure a) Q :=
  fun t hst => ⟨Keeps.refl t, ha t hst⟩

theorem promises_read {Q : Except Failure Host → Session → Prop}
    (hh : ∀ t, Keeps K s t → Q (.ok h) t) : Promises h K s read Q :=
  fun t hst => ⟨Keeps.refl t, hh t hst⟩

theorem promises_ofExcept {ε : Type} {wrap : ε → Failure} {r : Except ε α}
    {Q : Except Failure α → Session → Prop} (hr : ∀ t, Keeps K s t → Q (r.mapError wrap) t) :
    Promises h K s (ofExcept wrap r) Q := by
  intro t hst
  rw [exec_ofExcept]
  exact ⟨Keeps.refl t, hr t hst⟩

theorem Promises.bind {x : Run α} {f : α → Run β} {Q : Except Failure α → Session → Prop}
    {T : Except Failure β → Session → Prop} (hx : Promises h K s x Q)
    (hf : ∀ a t, Keeps K s t → Q (.ok a) t → Promises h K t (f a) T)
    (he : ∀ e t, Q (.error e) t → T (.error e) t) : Promises h K s (x >>= f) T := by
  intro t hst
  obtain ⟨hkeep, hQ⟩ := hx t hst
  rw [exec_bind]
  rcases hr : x.exec h t with ⟨e | a, t'⟩
  · rw [hr] at hkeep hQ
    exact ⟨hkeep, he e t' hQ⟩
  · rw [hr] at hkeep hQ
    obtain ⟨hkeep', hT⟩ := hf a t' (hst.trans hkeep) hQ t' (Keeps.refl t')
    exact ⟨hkeep.trans hkeep', hT⟩

/-- Where the first computation does not fail, only what follows it matters. -/
theorem Promises.bind_ok {x : Run α} {f : α → Run β} {Q : α → Session → Prop}
    {T : Except Failure β → Session → Prop}
    (hx : Promises h K s x fun r t => ∃ a, r = .ok a ∧ Q a t)
    (hf : ∀ a t, Keeps K s t → Q a t → Promises h K t (f a) T) : Promises h K s (x >>= f) T := by
  apply hx.bind
  · rintro a t hst ⟨b, hab, hb⟩
    cases hab
    exact hf a t hst hb
  · rintro e t ⟨b, heb, -⟩
    cases heb

theorem Promises.attempt {x : Run α} {Q : Except Failure α → Session → Prop}
    (hx : Promises h K s x Q) :
    Promises h K s (attempt x) fun r t => ∃ r', r = .ok r' ∧ Q r' t := by
  intro t hst
  rw [exec_attempt]
  exact ⟨(hx t hst).1, _, rfl, (hx t hst).2⟩

theorem promises_mapM {f : α → Run β} {Q : α → Except Failure β → Prop} {items : List α}
    (hf : ∀ a ∈ items, Promises h K s (f a) fun r _ => Q a r) :
    Promises h K s (items.mapM f) fun r _ => Collects Q items r := by
  induction items generalizing s with
  | nil => exact promises_pure fun _ _ => collects_nil
  | cons a items ih =>
    have ha := hf a List.mem_cons_self
    have hrest : ∀ t, Keeps K s t →
        Promises h K t (items.mapM f) fun r _ => Collects Q items r :=
      fun t hst => ih fun b hb => (hf b (List.mem_cons_of_mem a hb)).later hst
    intro t hst
    obtain ⟨hkeep, hQ⟩ := ha t hst
    rw [List.mapM_cons, exec_bind]
    rcases hr : (f a).exec h t with ⟨e | b, t'⟩
    · rw [hr] at hkeep hQ
      -- the rest is not run here, but it would come to some results
      exact ⟨hkeep, collects_cons_error hQ (hrest t hst t (Keeps.refl t)).2⟩
    · rw [hr] at hkeep hQ
      obtain ⟨hkeep', hbs⟩ := hrest t' (hst.trans hkeep) t' (Keeps.refl t')
      dsimp only
      rw [← map_eq_pure_bind, exec_map]
      exact ⟨hkeep.trans hkeep', collects_cons_ok hQ hbs⟩

/-! ### A single kind of sessions -/

section Single

variable {I : Session → Prop}

theorem Ensures.promises {x : Run α} {Q : Except Failure α → Prop} (hx : Ensures h I x Q)
    (hs : I s) : Promises h (fun _ : Unit => I) s x fun r _ => Q r := by
  intro t hst
  obtain ⟨hQ, hI⟩ := hx t (hst () hs)
  exact ⟨fun _ _ => hI, hQ⟩

theorem ensures_of_promises {x : Run α} {Q : Except Failure α → Prop}
    (hx : ∀ s, I s → Promises h (fun _ : Unit => I) s x fun r _ => Q r) : Ensures h I x Q := by
  intro s hs
  obtain ⟨hkeep, hQ⟩ := hx s hs s (Keeps.refl s)
  exact ⟨hQ, hkeep () hs⟩

theorem ensures_mapM {f : α → Run β} {Q : α → Except Failure β → Prop} {items : List α}
    (hf : ∀ a ∈ items, Ensures h I (f a) (Q a)) :
    Ensures h I (items.mapM f) (Collects Q items) :=
  ensures_of_promises fun _ hs => promises_mapM fun a ha => (hf a ha).promises hs

end Single

end FormatAudit.Run
