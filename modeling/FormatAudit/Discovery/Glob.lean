import FormatAudit.Path

/-!
Patterns for paths. A component of two stars matches any number of directories; in the other
components a star matches any characters, a question mark one character, and brackets one
character of a class.
-/
namespace FormatAudit

namespace Glob

inductive ClassItem where
  | single (c : Char)
  | range (first last : Char)
  deriving DecidableEq, Repr

def ClassItem.holds (c : Char) : ClassItem → Bool
  | .single d => c = d
  | .range first last => first.toNat ≤ c.toNat && c.toNat ≤ last.toNat

inductive Token where
  | anyRun
  | anyChar
  | char (c : Char)
  | oneOf (negated : Bool) (items : List ClassItem)
  deriving DecidableEq, Repr

/-- Splits a class at the hyphens that make ranges: one has at least `least` characters before it,
and each further one at least two between it and the one before. -/
def splitRanges : Nat → Text → List Text
  | _, [] => [[]]
  | least, c :: r =>
    if least = 0 ∧ c = '-' then [] :: splitRanges 2 r
    else match splitRanges (least - 1) r with
      | s :: ss => (c :: s) :: ss
      | [] => [[c]]

def keepLastHyphen : List Text → List Text
  | [s, []] => [s ++ ['-']]
  | s :: ss => s :: keepLastHyphen ss
  | [] => []

/-- Puts a stretch before others. A range from a greater character to a smaller one vanishes with
both of them. -/
def putStretch (s : Text) : List Text → List Text
  | [] => [s]
  | t :: ts =>
    match s.getLast?, t.head? with
    | some a, some b =>
      if b.toNat < a.toNat then (s.dropLast ++ t.tail) :: ts else s :: t :: ts
    | _, _ => s :: t :: ts

/-- The characters of a class, with nothing in place of each hyphen that makes a range. -/
def classMarks (body : Text) : List (Option Char) :=
  let least := if body.head? = some '!' then 2 else 1
  let stretches := (keepLastHyphen (splitRanges least body)).foldr putStretch []
  [none].intercalate (stretches.map fun s => s.map some)

def classItems : List (Option Char) → List ClassItem
  | some a :: none :: some b :: r => .range a b :: classItems r
  | some a :: r => .single a :: classItems r
  | none :: r => .single '-' :: classItems r
  | [] => []

/-- The token of a class. Only an exclamation mark that comes first when the empty ranges are gone
negates the class. -/
def classToken (body : Text) : Token :=
  match classMarks body with
  | [some '!'] => .anyChar
  | some '!' :: marks => .oneOf true (classItems marks)
  | marks => .oneOf false (classItems marks)

def classBody? (t : Text) : Option (Text × Text) :=
  let (first, r) := match t with
    | '!' :: ']' :: r => (['!', ']'], r)
    | '!' :: r => (['!'], r)
    | ']' :: r => ([']'], r)
    | r => ([], r)
  match r.dropWhile (· != ']') with
  | _ :: rest => some (first ++ r.takeWhile (· != ']'), rest)
  | [] => none

def class? (t : Text) : Option (Token × Text) :=
  (classBody? t).map fun (body, rest) => (classToken body, rest)

def tokens : Nat → Text → List Token
  | 0, _ => []
  | _ + 1, [] => []
  | fuel + 1, c :: r =>
    if c = '*' then .anyRun :: tokens fuel r
    else if c = '?' then .anyChar :: tokens fuel r
    else if c = '[' then
      match class? r with
      | some (token, rest) => token :: tokens fuel rest
      | none => .char c :: tokens fuel r
    else .char c :: tokens fuel r

def Token.holds (c : Char) : Token → Bool
  | .anyRun => false
  | .anyChar => true
  | .char d => c = d
  | .oneOf negated items => items.any (ClassItem.holds c) != negated

def orLater : List Bool → List Bool
  | [] => []
  | b :: bs =>
    match orLater bs with
    | [] => [b]
    | later :: more => (b || later) :: later :: more

/-- Whether tokens match the ends of a name, from the whole name to the empty end. -/
def matchEnds (name : Text) : List Token → List Bool
  | [] => name.map (fun _ => false) ++ [true]
  | .anyRun :: ts => orLater (matchEnds name ts)
  | t :: ts => List.zipWith (fun c m => t.holds c && m) name (matchEnds name ts).tail ++ [false]

def matchTokens (ts : List Token) (name : Text) : Bool :=
  (matchEnds name ts).headD false

inductive Component where
  | deep
  | up
  | exact (name : Text)
  | name (tokens : List Token)
  deriving DecidableEq, Repr

inductive Fault where
  | empty
  | absolute
  | misplacedStars
  | noComponent
  | onlySlash
  deriving DecidableEq, Repr

def Fault.message : Fault → Text
  | .empty => "Unacceptable pattern: ''".toList
  | .absolute => "Non-relative patterns are unsupported".toList
  | .misplacedStars =>
    "Invalid pattern: '**' can only be an entire path component".toList
  | .noComponent => "pattern names no component".toList
  | .onlySlash => "pattern names no entry".toList

def hasTwoStars : Text → Bool
  | '*' :: '*' :: _ => true
  | _ :: r => hasTwoStars r
  | [] => false

def component (part : Text) : Except Fault Component :=
  if part = "**".toList then .ok .deep
  else if part = "..".toList then .ok .up
  else if hasTwoStars part then .error .misplacedStars
  else if part.any fun c => c = '*' || c = '?' || c = '[' then .ok (.name (tokens part.length part))
  else .ok (.exact part)

end Glob

structure Glob where
  components : List Glob.Component
  directoriesOnly : Bool
  deriving DecidableEq, Repr

namespace Glob

def ofText (t : Text) : Except Fault Glob :=
  if t = [] then .error .empty
  else if t.head? = some '/' then .error .absolute
  else
    let slash : Bool := t.getLast? = some '/'
    match Path.partsOf t with
    | [] => .error (if slash then .onlySlash else .noComponent)
    | parts => (parts.mapM component).map fun cs => ⟨cs, slash⟩

end Glob

end FormatAudit
