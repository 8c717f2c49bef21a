import FormatAudit.FileTree.Basic

/-!
Canonical paths: absolute, without links and without parts that lead up. Parts that name nothing
count as they stand. Where links lead in a circle, the path keeps the link that closes it, and all
that comes after it is taken as it is written.
-/
namespace FormatAudit

namespace FileTree

mutual

def linkCount : FileTree → Nat
  | .link _ => 1
  | .dir entries => linkCountIn entries
  | .file .. => 0

def linkCountIn : List (Text × FileTree) → Nat
  | [] => 0
  | (_, t) :: r => t.linkCount + linkCountIn r

end

/-- The links met on a way, each with the place that it leads to as soon as that is known. -/
abbrev LinksMet := List (Place × Option Place)

/-- Where a way has led to. It is cut short at a link that it leads back to; then the rest of it
stands in the place as it is written. -/
structure Reached where
  place : Place
  isComplete : Bool
  met : LinksMet

def knownOf (met : LinksMet) (link : Place) : Option (Option Place) :=
  (met.find? fun m => m.1 = link).map (·.2)

def follow (t : FileTree) : Nat → LinksMet → Place → List Text → Reached
  | _, met, place, [] => ⟨place, true, met⟩
  | links, met, place, part :: rest =>
    if part = up then follow t links met place.dropLast rest
    else
      let next := place ++ [part]
      match t.at? next with
      | some (.link target) =>
        match knownOf met next, links with
        | some (some known), links => follow t links met known rest
        | some none, _ => ⟨next ++ rest, false, met⟩
        | none, 0 => ⟨next ++ rest, false, met⟩
        | none, links + 1 =>
          let p := Path.ofText target
          let r := follow t links ((next, none) :: met) (if p.isAbsolute then [] else place) p.parts
          if r.isComplete then follow t (links + 1) ((next, some r.place) :: r.met) r.place rest
          else ⟨r.place ++ rest, false, r.met⟩
      | _ => follow t links met next rest
termination_by links _ _ parts => (links, parts.length)

def flatten (parts : List Text) : Place :=
  parts.foldl (fun place part => if part = up then place.dropLast else place ++ [part]) []

def canonical (t : FileTree) (here : Place) (p : Path) : Path :=
  ⟨1, flatten (t.follow t.linkCount [] (if p.isAbsolute then [] else here) p.parts).place⟩

end FileTree

end FormatAudit
