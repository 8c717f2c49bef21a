import FormatAudit.Intake.Issue
import FormatAudit.Value

/-!
Results of checks that go on after an issue, so that all issues of a value are reported, in the
order in which its parts are looked at.
-/
namespace FormatAudit

namespace Intake

abbrev Checked (α : Type) := Except (List Issue) α

variable {α β : Type}

def refuse (cause : Cause) : Checked α :=
  .error [⟨[], cause⟩]

def both (f : Checked (α → β)) (a : Checked α) : Checked β :=
  match f, a with
  | .ok f, .ok a => .ok (f a)
  | .ok _, .error issues => .error issues
  | .error issues, .ok _ => .error issues
  | .error issues, .error more => .error (issues ++ more)

def within (step : Step) (a : Checked α) : Checked α :=
  a.mapError (List.map fun issue => ⟨step :: issue.place, issue.cause⟩)

def plus (a : Checked α) (more : List Issue) : Checked α :=
  match a with
  | .ok a => if more = [] then .ok a else .error more
  | .error issues => .error (issues ++ more)

def each (read : Value → Checked α) (start : Nat) : List Value → Checked (List α)
  | [] => .ok []
  | v :: vs => both ((within (.item start) (read v)).map List.cons) (each read (start + 1) vs)

def eachField (read : Value → Checked α) : Fields → Checked (List (Text × α))
  | [] => .ok []
  | (k, v) :: fs =>
    both ((within (.field k) (read v)).map fun a => List.cons (k, a)) (eachField read fs)

def required (name : Text) (read : Value → Checked α) (fields : Fields) : Checked α :=
  within (.field name) <| match fields.get? name with
    | some v => read v
    | none => refuse .missing

def optional (name : Text) (read : Value → Checked α) (absent : α) (fields : Fields) :
    Checked α :=
  match fields.get? name with
  | some v => within (.field name) (read v)
  | none => .ok absent

def unknownFields (names : List Text) (fields : Fields) : List Issue :=
  (fields.filter fun f => !names.contains f.1).map fun f => ⟨[.field f.1], .unknownField⟩

def noField (name : Text) : Checked α :=
  .error [⟨[.field name], .noAttribute name⟩]

def record (form : Form) (name : Text) (read : Fields → Checked α) : Value → Checked α
  | .table fields => read fields
  | _ => refuse (.notRecord form name)

def named (name : Text) (a : Checked α) : Except Rejection α :=
  a.mapError fun issues => ⟨name, issues⟩

/-- A name that begins with an underscore names nothing in the data of a record. Giving it a value
changes no record, and is never refused. -/
def isPrivate (name : Text) : Bool :=
  name.head? = some '_'

def unchangeable? (record field : Text) : Option Rejection :=
  if isPrivate field then none else some ⟨record, [⟨[.field field], .frozen⟩]⟩

end Intake

end FormatAudit
