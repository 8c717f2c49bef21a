import FormatAudit.Toml.Scalar
import FormatAudit.Toml.Tree

/-!
Reading TOML texts. Statements are read one after the other into a tree of unfinished tables. A
carriage return before a line feed does not count.
-/
namespace FormatAudit

namespace Toml

def skipBlanks (t : Text) : Text :=
  t.dropWhile isBlankChar

def skipComment (t : Text) : Except Fault Text :=
  match t with
  | '#' :: r =>
    if (r.takeWhile (· != '\n')).any isControl then .error .malformed
    else .ok (r.dropWhile (· != '\n'))
  | _ => .ok t

def skipLines : Nat → Text → Except Fault Text
  | 0, t => .ok t
  | fuel + 1, t => match t.dropWhile fun c => isBlankChar c || c = '\n' with
    | '#' :: r => do
      let rest ← skipComment ('#' :: r)
      skipLines fuel rest
    | rest => .ok rest

def skipGap (t : Text) : Except Fault Text :=
  skipLines (t.length + 1) t

def isBareKey (c : Char) : Bool :=
  isDigit c || c.isAlpha || c = '-' || c = '_'

def keyPart (t : Text) : Except Fault (Text × Text) :=
  match t with
  | [] => .error .malformed
  | c :: r =>
    if c = '\'' || c = '"' then shortString c r
    else if isBareKey c then .ok (t.takeWhile isBareKey, t.dropWhile isBareKey)
    else .error .malformed

def key : Nat → Text → Except Fault (Key × Text)
  | 0, _ => .error .malformed
  | fuel + 1, t => do
    let (part, rest) ← keyPart t
    match skipBlanks rest with
    | '.' :: rest => do
      let (parts, rest) ← key fuel (skipBlanks rest)
      return (part :: parts, rest)
    | rest => return ([part], rest)

def keyOf (t : Text) : Except Fault (Key × Text) :=
  key (t.length + 1) t

def put (made : Nat) (k : Key) (v : Value) (ms : Members) : Except Fault Members :=
  match k.getLast? with
  | none => .error .malformed
  | some last => match ms.assign made last v k.dropLast with
    | some ms => .ok ms
    | none => .error .malformed

mutual

def value : Nat → Text → Except Fault (Value × Text)
  | 0, _ => .error .malformed
  | fuel + 1, t => match t with
    | '"' :: '"' :: '"' :: r => (longString '"' r).map fun (s, r) => (.text s, r)
    | '"' :: r => (shortString '"' r).map fun (s, r) => (.text s, r)
    | '\'' :: '\'' :: '\'' :: r => (longString '\'' r).map fun (s, r) => (.text s, r)
    | '\'' :: r => (shortString '\'' r).map fun (s, r) => (.text s, r)
    | 't' :: 'r' :: 'u' :: 'e' :: r => .ok (.bool true, r)
    | 'f' :: 'a' :: 'l' :: 's' :: 'e' :: r => .ok (.bool false, r)
    | '[' :: r => do
      let r ← skipGap r
      let (vs, r) ← items fuel r
      return (.list vs, r)
    | '\x7b' :: r => match skipBlanks r with
      | '\x7d' :: r => .ok (.table [], r)
      | r => do
        let (ms, r) ← pairs fuel [] r
        return (.table (toFields ms), r)
    | _ => plainValue t

def items : Nat → Text → Except Fault (List Value × Text)
  | 0, _ => .error .malformed
  | _ + 1, ']' :: r => .ok ([], r)
  | fuel + 1, t => do
    let (v, r) ← value fuel t
    let r ← skipGap r
    match r with
    | ']' :: r => return ([v], r)
    | ',' :: r => do
      let r ← skipGap r
      let (vs, r) ← items fuel r
      return (v :: vs, r)
    | _ => .error .malformed

def pairs : Nat → Members → Text → Except Fault (Members × Text)
  | 0, _, _ => .error .malformed
  | fuel + 1, ms, t => do
    let (k, r) ← keyOf t
    match r with
    | '=' :: r => do
      let (v, r) ← value fuel (skipBlanks r)
      let ms ← put 0 k v ms
      match skipBlanks r with
      | '\x7d' :: r => return (ms, r)
      | ',' :: r => pairs fuel ms (skipBlanks r)
      | _ => .error .malformed
    | _ => .error .malformed

end

/-- A document while it is read: the number and the key of the current section, and the tables. -/
structure Document where
  made : Nat
  header : Key
  members : Members

namespace Document

def enter (d : Document) (list : Bool) (k : Key) : Except Fault Document :=
  match k.getLast? with
  | none => .error .malformed
  | some last =>
    let change := if list then Members.append last else Members.declare (d.made + 1) last
    match d.members.under change k.dropLast with
    | some ms => .ok ⟨d.made + 1, k, ms⟩
    | none => .error .malformed

def take (d : Document) (k : Key) (v : Value) : Except Fault Document :=
  match d.members.under (fun ms => (put d.made k v ms).toOption) d.header with
  | some ms => .ok { d with members := ms }
  | none => .error .malformed

def statement (d : Document) (t : Text) : Except Fault (Document × Text) :=
  match t with
  | '#' :: _ => .ok (d, t)
  | '[' :: '[' :: r => do
    let (k, r) ← keyOf (skipBlanks r)
    match r with
    | ']' :: ']' :: r => return (← d.enter true k, r)
    | _ => .error .malformed
  | '[' :: r => do
    let (k, r) ← keyOf (skipBlanks r)
    match r with
    | ']' :: r => return (← d.enter false k, r)
    | _ => .error .malformed
  | _ => do
    let (k, r) ← keyOf t
    match r with
    | '=' :: r => do
      let (v, r) ← value (2 * r.length + 2) (skipBlanks r)
      return (← d.take k v, r)
    | _ => .error .malformed

def statements : Nat → Document → Text → Except Fault Document
  | 0, _, _ => .error .malformed
  | fuel + 1, d, t => match skipBlanks t with
    | [] => .ok d
    | '\n' :: r => statements fuel d r
    | t => do
      let (d, r) ← d.statement t
      let r ← skipComment (skipBlanks r)
      match r with
      | [] => return d
      | '\n' :: r => statements fuel d r
      | _ => .error .malformed

end Document

def plainBreaks : Text → Text
  | '\r' :: '\n' :: r => '\n' :: plainBreaks r
  | c :: r => c :: plainBreaks r
  | [] => []

def parse (t : Text) : Except Fault Fields :=
  let t := plainBreaks t
  (Document.statements (t.length + 1) ⟨0, [], []⟩ t).map fun d => toFields d.members

end Toml

end FormatAudit
