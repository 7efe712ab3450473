import UmlSchema.Text.Basic

/-! Terminal styles: control sequences that set colours and the like. One is an escape and a
bracket, any number of parameters, any number of intermediates, and a final character. -/
namespace UmlSchema

namespace CodePoint

def escape : CodePoint := ofNat 0x1B

def isStyleParameter (c : CodePoint) : Bool := 0x30 ≤ c.toNat && c.toNat ≤ 0x3F

def isStyleIntermediate (c : CodePoint) : Bool := 0x20 ≤ c.toNat && c.toNat ≤ 0x2F

def isStyleEnd (c : CodePoint) : Bool := 0x40 ≤ c.toNat && c.toNat ≤ 0x7E

end CodePoint

namespace Text

inductive StylePart where
  | outside
  | escape
  | parameters
  | intermediates
  deriving DecidableEq, Repr

/-- A style goes on with another part, comes to its end, or turns out to be none. -/
inductive StyleStep where
  | more (part : StylePart)
  | done
  | broken
  deriving DecidableEq, Repr

def StylePart.step (c : CodePoint) : StylePart → StyleStep
  | outside => .broken
  | escape => if c = .scalar '[' then .more parameters else .broken
  | parameters =>
    if c.isStyleParameter then .more parameters
    else if c.isStyleIntermediate then .more intermediates
    else if c.isStyleEnd then .done
    else .broken
  | intermediates =>
    if c.isStyleIntermediate then .more intermediates
    else if c.isStyleEnd then .done
    else .broken

/-- `held` is what may become a style, last code point first; it is empty outside of one. -/
def dropStyles (part : StylePart) (held : Text) : Text → Text
  | [] => held.reverse
  | c :: cs =>
    match part.step c with
    | .more next => dropStyles next (c :: held) cs
    | .done => dropStyles .outside [] cs
    | .broken =>
      if c = .escape then held.reverse ++ dropStyles .escape [c] cs
      else held.reverse ++ c :: dropStyles .outside [] cs

def withoutStyles (t : Text) : Text := dropStyles .outside [] t

end Text

end UmlSchema
