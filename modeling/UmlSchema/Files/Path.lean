import UmlSchema.Text.Basic

/-! Paths as they are written: a root mark and names, without empty names and single dots. -/
namespace UmlSchema

structure Path where
  root : Text := []
  parts : List Text := []
  deriving DecidableEq, Repr

namespace Path

/-- Two leading slashes are a root of their own; three and more count as one. -/
def rootOf (t : Text) : Text :=
  match (t.takeWhile (· = .scalar '/')).length with
  | 0 => []
  | 2 => "//"
  | _ => "/"

def ofText (t : Text) : Path :=
  ⟨rootOf t, (t.splitOn (.scalar '/')).filter fun p => !p.isEmpty && p ≠ "."⟩

def render (p : Path) : Text :=
  let t := p.root ++ Text.joinWith "/" p.parts
  if t.isEmpty then "." else t

def name (p : Path) : Text := p.parts.getLastD []

def parent (p : Path) : Path := { p with parts := p.parts.dropLast }

def isAbsolute (p : Path) : Bool := !p.root.isEmpty

def child (p : Path) (name : Text) : Path := { p with parts := p.parts ++ [name] }

end Path

end UmlSchema
