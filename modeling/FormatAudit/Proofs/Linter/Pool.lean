import FormatAudit.Linter.Pool
import FormatAudit.Proofs.Session.Promises

/-! Concurrent tasks that do not disturb each other. If each step of a task keeps the kinds that the
session is of, and the task leads to a result from whatever the session has been moved on to, then
the results are those that the tasks lead to, in the order of the tasks, whatever the schedule. -/
namespace FormatAudit.Pool

open Run

variable {ι α σ β : Type}

/-- What the first step of a task came to leads on to a result with `Q`, whatever happens before
its second step. -/
def Resumes (h : Host) (K : ι → Session → Prop) (finish : σ → Run β)
    (Q : Except Failure β → Prop) : Except Failure σ → Session → Prop
  | .ok x, s => Promises h K s (finish x) fun r _ => Q r
  | .error e, _ => Q (.error e)

/-- From its stage on, a task comes to a result with `Q`, whatever happens between its steps. -/
def Stage.Leads (h : Host) (K : ι → Session → Prop) (start : Run σ) (finish : σ → Run β)
    (Q : Except Failure β → Prop) (s : Session) : Stage σ β → Prop
  | .waiting => Promises h K s start (Resumes h K finish Q)
  | .started x => Promises h K s (finish x) fun r _ => Q r
  | .finished r => Q r

section Steps

variable {h : Host} {K : ι → Session → Prop} {start : Run σ} {finish : σ → Run β}
  {Q : Except Failure β → Prop} {s t : Session}

theorem Stage.Leads.later {stage : Stage σ β} (hstage : stage.Leads h K start finish Q s)
    (hst : Keeps K s t) : stage.Leads h K start finish Q t := by
  cases stage with
  | waiting => exact Promises.later hstage hst
  | started x =>
    have hfinish : Promises h K s (finish x) fun r _ => Q r := hstage
    exact hfinish.later hst
  | finished r => exact hstage

theorem advance_leads {stage : Stage σ β} (hstage : stage.Leads h K start finish Q s) :
    Promises h K s (advance start finish stage) fun r t =>
      ∃ stage', r = .ok stage' ∧ stage'.Leads h K start finish Q t := by
  cases stage with
  | waiting =>
    have hstart : Promises h K s start (Resumes h K finish Q) := hstage
    refine Promises.bind_ok hstart.attempt ?_
    intro r t _ hr
    cases r with
    | ok x =>
      have hx : (Stage.started x).Leads h K start finish Q t := hr
      exact promises_pure fun u htu => ⟨.started x, rfl, hx.later htu⟩
    | error e => exact promises_pure fun _ _ => ⟨.finished (.error e), rfl, hr⟩
  | started x =>
    have hfinish : Promises h K s (finish x) fun r _ => Q r := hstage
    refine Promises.bind_ok hfinish.attempt ?_
    intro r t _ hr
    exact promises_pure fun _ _ => ⟨.finished r, rfl, hr⟩
  | finished r => exact promises_pure fun _ _ => ⟨.finished r, rfl, hstage⟩

theorem bind_promises (hstart : Promises h K s start (Resumes h K finish Q)) :
    Promises h K s (start >>= finish) fun r _ => Q r := by
  apply hstart.bind
  · intro x t _ hx
    exact hx
  · intro e t he
    exact he

end Steps

section Tasks

variable {h : Host} {K : ι → Session → Prop} {start : α → Run σ} {finish : σ → Run β}
  {Q : α → Except Failure β → Prop} {s : Session}

theorem conclude_promises {t : Task α σ β}
    (ht : t.stage.Leads h K (start t.item) finish (Q t.item) s) :
    Promises h K s (conclude start finish t) fun r _ => ∃ r', r = .ok r' ∧ Q t.item r' := by
  refine Promises.bind_ok (advance_leads ht) ?_
  intro stage u _ hstage
  cases stage with
  | finished r => exact promises_pure fun _ _ => ⟨r, rfl, hstage⟩
  | started x =>
    have hfinish : Promises h K u (finish x) fun r _ => Q t.item r := hstage
    exact hfinish.attempt
  | waiting => exact Promises.attempt (bind_promises hstage)

def AllLead (h : Host) (K : ι → Session → Prop) (start : α → Run σ) (finish : σ → Run β)
    (Q : α → Except Failure β → Prop) (items : List α) (tasks : List (Task α σ β))
    (s : Session) : Prop :=
  tasks.map Task.item = items ∧
    ∀ t ∈ tasks, t.stage.Leads h K (start t.item) finish (Q t.item) s

theorem AllLead.later {items : List α} {tasks : List (Task α σ β)} {t : Session}
    (htasks : AllLead h K start finish Q items tasks s) (hst : Keeps K s t) :
    AllLead h K start finish Q items tasks t :=
  ⟨htasks.1, fun task htask => (htasks.2 task htask).later hst⟩

theorem move_allLead {items : List α} {tasks : List (Task α σ β)}
    (htasks : AllLead h K start finish Q items tasks s) (i : Nat) :
    Promises h K s (move start finish tasks i) fun r u =>
      ∃ tasks', r = .ok tasks' ∧ AllLead h K start finish Q items tasks' u := by
  unfold move
  split
  · exact promises_pure fun u hsu => ⟨tasks, rfl, htasks.later hsu⟩
  · next t ht =>
    refine Promises.bind_ok (advance_leads (htasks.2 t (List.mem_of_getElem? ht))) ?_
    intro stage u hsu hstage
    refine promises_pure fun v huv => ⟨tasks.set i ⟨t.item, stage⟩, rfl, ?_, ?_⟩
    · have hitem : (tasks.map Task.item)[i]? = some t.item := by
        rw [List.getElem?_map, ht]
        rfl
      obtain ⟨hi, hget⟩ := List.getElem?_eq_some_iff.mp hitem
      rw [List.map_set, ← htasks.1, ← hget, List.set_getElem_self]
    · intro t' ht'
      obtain hmem | rfl := List.mem_or_eq_of_mem_set ht'
      · exact (htasks.2 t' hmem).later (hsu.trans huv)
      · exact hstage.later huv

/-- Whatever the schedule, what the tasks lead to stays the same. -/
theorem foldlM_move_allLead {items : List α} (schedule : List Nat) {tasks : List (Task α σ β)}
    (htasks : AllLead h K start finish Q items tasks s) :
    Promises h K s (schedule.foldlM (move start finish) tasks) fun r u =>
      ∃ tasks', r = .ok tasks' ∧ AllLead h K start finish Q items tasks' u := by
  induction schedule generalizing tasks s with
  | nil => exact promises_pure fun u hsu => ⟨tasks, rfl, htasks.later hsu⟩
  | cons i schedule ih =>
    rw [List.foldlM_cons]
    exact Promises.bind_ok (move_allLead htasks i) fun tasks' u _ htasks' => ih htasks'

theorem run_promises {items : List α}
    (hitems : ∀ a ∈ items, Promises h K s (start a) (Resumes h K finish (Q a))) :
    Promises h K s (run start finish items) fun r _ => Collects Q items r := by
  have hwaiting : AllLead h K start finish Q items (items.map fun a => ⟨a, .waiting⟩) s := by
    constructor
    · rw [List.map_map]
      exact List.map_id items
    · intro t ht
      obtain ⟨a, ha, rfl⟩ := List.mem_map.mp ht
      exact hitems a ha
  refine Promises.bind_ok (Q := fun host _ => host = h)
    (promises_read fun _ _ => ⟨h, rfl, rfl⟩) ?_
  rintro host u hsu rfl
  refine Promises.bind_ok (foldlM_move_allLead (host.schedule items.length) (hwaiting.later hsu)) ?_
  rintro tasks v - ⟨rfl, htasks⟩
  have hresults := promises_mapM fun t ht => conclude_promises (htasks t ht)
  refine Promises.bind_ok (hresults.mono fun r _ hr => hr.ok) ?_
  intro results w _ hall
  refine promises_ofExcept fun _ _ => ⟨results, List.forall₂_map_left_iff.mpr hall, ?_⟩
  cases results.mapM id <;> rfl

end Tasks

/-! ### A single kind of sessions -/

section Single

variable {h : Host} {I : Session → Prop}

/-- What the first step of a task came to leads to a result with `Q`. -/
def Continues (h : Host) (I : Session → Prop) (finish : σ → Run β)
    (Q : Except Failure β → Prop) : Except Failure σ → Prop
  | .ok x => Ensures h I (finish x) Q
  | .error e => Q (.error e)

theorem promises_of_continues {start : Run σ} {finish : σ → Run β} {Q : Except Failure β → Prop}
    (hstart : Ensures h I start (Continues h I finish Q)) {s : Session} (hs : I s) :
    Promises h (fun _ : Unit => I) s start (Resumes h (fun _ : Unit => I) finish Q) := by
  intro t hst
  obtain ⟨hnext, hI⟩ := hstart t (hst () hs)
  refine ⟨fun _ _ => hI, ?_⟩
  rcases hr : start.exec h t with ⟨e | x, t'⟩
  · rw [hr] at hnext
    exact hnext
  · rw [hr] at hnext hI
    exact Ensures.promises hnext hI

theorem bind_ensures {start : Run σ} {finish : σ → Run β} {Q : Except Failure β → Prop}
    (hstart : Ensures h I start (Continues h I finish Q)) : Ensures h I (start >>= finish) Q :=
  ensures_of_promises fun _ hs => bind_promises (promises_of_continues hstart hs)

theorem run_ensures {start : α → Run σ} {finish : σ → Run β} {Q : α → Except Failure β → Prop}
    {items : List α} (hitems : ∀ a ∈ items, Ensures h I (start a) (Continues h I finish (Q a))) :
    Ensures h I (run start finish items) (Collects Q items) :=
  ensures_of_promises fun _ hs =>
    run_promises fun a ha => promises_of_continues (hitems a ha) hs

end Single

end FormatAudit.Pool
