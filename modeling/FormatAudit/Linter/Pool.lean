import FormatAudit.Session

/-!
Concurrent tasks. A task has two steps, and the schedule of the host tells which task makes its
next step when. The results come in the order of the tasks, whatever the schedule.
-/
namespace FormatAudit

namespace Pool

variable {α σ β : Type}

inductive Stage (σ β : Type) where
  | waiting
  | started (x : σ)
  | finished (r : Except Failure β)

def advance (start : Run σ) (finish : σ → Run β) : Stage σ β → Run (Stage σ β)
  | .waiting => do
    match ← Run.attempt start with
    | .ok x => return .started x
    | .error f => return .finished (.error f)
  | .started x => return .finished (← Run.attempt (finish x))
  | .finished r => return .finished r

structure Task (α σ β : Type) where
  item : α
  stage : Stage σ β

def move (start : α → Run σ) (finish : σ → Run β) (tasks : List (Task α σ β)) (i : Nat) :
    Run (List (Task α σ β)) :=
  match tasks[i]? with
  | none => return tasks
  | some t => return tasks.set i ⟨t.item, ← advance (start t.item) finish t.stage⟩

def conclude (start : α → Run σ) (finish : σ → Run β) (t : Task α σ β) :
    Run (Except Failure β) := do
  match ← advance (start t.item) finish t.stage with
  | .finished r => return r
  | .started x => Run.attempt (finish x)
  | .waiting => Run.attempt (start t.item >>= finish)

def run (start : α → Run σ) (finish : σ → Run β) (items : List α) : Run (List β) := do
  let schedule := (← read).schedule items.length
  let tasks ← schedule.foldlM (move start finish) (items.map fun a => ⟨a, .waiting⟩)
  let results ← tasks.mapM (conclude start finish)
  Run.ofExcept id (results.mapM id)

end Pool

end FormatAudit
