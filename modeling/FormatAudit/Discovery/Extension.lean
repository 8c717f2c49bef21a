import FormatAudit.Text.Blank

/-!
File extensions, and the pattern of the files that have one of them.
-/
namespace FormatAudit

namespace Extension

def clean (t : Text) : Text :=
  (Text.strip t).dropWhile (· = '.')

def add (found : List Text) (t : Text) : List Text :=
  if clean t = [] ∨ clean t ∈ found then found else found ++ [clean t]

def normalize? (ts : List Text) : Option (List Text) :=
  match ts.foldl add [] with
  | [] => none
  | found => some found

def pattern : List Text → Text
  | [t] => "**/*.".toList ++ t
  | ts => "**/*.".toList ++ '\x7b' :: [','].intercalate ts ++ ['\x7d']

end Extension

end FormatAudit
