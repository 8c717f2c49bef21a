import FormatAudit.Text.Basic

/-!
Consoles are made once for each way of printing and then used again.
-/
namespace FormatAudit

namespace Console

/-- Where the output goes: a terminal, something else, or nowhere that can be asked. -/
inductive Sink where
  | terminal
  | plain
  | closed
  | absent
  deriving DecidableEq, Repr

def Sink.isTerminal : Sink → Bool
  | .terminal => true
  | _ => false

structure Setup where
  color : Bool
  emoji : Bool
  isTerminal : Bool
  deriving DecidableEq, Repr

def Setup.isColored (s : Setup) : Bool :=
  s.color && s.isTerminal

/-- The setups for which consoles were made, the oldest first. -/
abbrev Pool := List Setup

/-- The number of the console for a setup, and the pool with that console in it. -/
def Pool.get (pool : Pool) (s : Setup) : Nat × Pool :=
  match pool.idxOf? s with
  | some i => (i, pool)
  | none => (pool.length, pool ++ [s])

end Console

end FormatAudit
