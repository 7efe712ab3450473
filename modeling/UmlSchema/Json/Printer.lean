import UmlSchema.Json.Basic
import UmlSchema.Number.Shortest
import UmlSchema.Text.Quoted

/-! Writing JSON text in ASCII. A code point above U+FFFF is written as its two surrogates. -/
namespace UmlSchema.Json

private def unitEscape (n : Nat) : Text := "\\u" ++ CodePoint.hexDigits 4 n

private def escaped (c : CodePoint) : Text :=
  let n := c.toNat
  if c = .scalar '\x22' then "\\\x22"
  else if c = .scalar '\\' then "\\\\"
  else if n < 0x20 ∨ 0x7F ≤ n then
    if n < 0x10000 then unitEscape n
    else unitEscape (0xD800 + (n - 0x10000) / 0x400) ++ unitEscape (0xDC00 + (n - 0x10000) % 0x400)
  else [c]

private def quotedString (t : Text) : Text := "\x22" ++ t.flatMap escaped ++ "\x22"

private def realText : Binary → Text
  | .nan => "NaN"
  | .infinite s => if s then "-Infinity" else "Infinity"
  | x => x.render

mutual

def render : Json → Text
  | null => "null"
  | bool b => if b then "true" else "false"
  | int n => Text.ofInt n
  | real x => realText x
  | str t => quotedString t
  | arr items => "[" ++ renderItems items ++ "]"
  | obj members => "\x7b" ++ renderMembers members ++ "\x7d"

private def renderItems : List Json → Text
  | [] => []
  | [j] => j.render
  | j :: js => j.render ++ "," ++ renderItems js

private def renderMembers : List (Text × Json) → Text
  | [] => []
  | [(name, j)] => quotedString name ++ ":" ++ j.render
  | (name, j) :: ms => quotedString name ++ ":" ++ j.render ++ "," ++ renderMembers ms

end

end UmlSchema.Json
