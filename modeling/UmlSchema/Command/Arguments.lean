import UmlSchema.Text.Basic

/-! Command line arguments: long options with two dashes, short ones with one, and other words.
A value stands after its option, after an equals sign, or right behind a short option. -/
namespace UmlSchema

structure OptionSpec (κ : Type) where
  key : κ
  long : Text
  short : Option CodePoint := none
  takesValue : Bool := true

inductive ArgumentFault where
  | noSuchOption (name : Text)
  | requiresArgument (name : Text)
  | takesNoValue (name : Text)
  deriving DecidableEq, Repr

/-- Options in the order given, a flag with an empty value, and the words that are no options. -/
structure Arguments (κ : Type) where
  given : List (κ × Text) := []
  words : List Text := []

namespace Arguments

variable {κ : Type}

private def splitAssignment (arg : Text) : Text × Option Text :=
  match arg.dropWhile (· ≠ .scalar '=') with
  | [] => (arg, none)
  | _ :: value => (arg.takeWhile (· ≠ .scalar '='), some value)

private def valueFrom (name : Text) : List Text → Except ArgumentFault (Text × List Text)
  | [] => .error (.requiresArgument name)
  | v :: rest => .ok (v, rest)

/-- A run of short options; the first that takes a value has the rest of the run as its value. -/
private def shortOptions (specs : List (OptionSpec κ)) (rest : List Text) :
    Text → Except ArgumentFault (List (κ × Text) × List Text)
  | [] => .ok ([], rest)
  | c :: cs =>
    let name : Text := [.scalar '-', c]
    match specs.find? fun s => s.short == some c with
    | none => .error (.noSuchOption name)
    | some s =>
      if s.takesValue then
        if cs.isEmpty then do
          let (v, rest) ← valueFrom name rest
          return ([(s.key, v)], rest)
        else .ok ([(s.key, cs)], rest)
      else do
        let (more, rest) ← shortOptions specs rest cs
        return ((s.key, []) :: more, rest)

private def option (specs : List (OptionSpec κ)) (arg : Text) (rest : List Text) :
    Except ArgumentFault (List (κ × Text) × List Text) :=
  let (name, value) := splitAssignment arg
  match specs.find? fun s => s.long == name with
  | some s =>
    if s.takesValue then
      match value with
      | some v => .ok ([(s.key, v)], rest)
      | none => do
        let (v, rest) ← valueFrom name rest
        return ([(s.key, v)], rest)
    else if value.isSome then .error (.takesNoValue name)
    else .ok ([(s.key, [])], rest)
  | none =>
    if arg.startsWith "--" then .error (.noSuchOption name)
    else shortOptions specs rest (arg.drop 1)

/-- Every step takes at least one argument, so their number is budget enough. -/
private def parseWithin (specs : List (OptionSpec κ)) (interspersed : Bool) :
    Nat → Arguments κ → List Text → Except ArgumentFault (Arguments κ)
  | 0, found, rest => .ok { found with words := found.words ++ rest }
  | _ + 1, found, [] => .ok found
  | n + 1, found, arg :: rest =>
    if arg = "--" then .ok { found with words := found.words ++ rest }
    else if arg.startsWith "-" && arg.length > 1 then do
      let (given, rest) ← option specs arg rest
      parseWithin specs interspersed n { found with given := found.given ++ given } rest
    else if interspersed then
      parseWithin specs interspersed n { found with words := found.words ++ [arg] } rest
    else .ok { found with words := found.words ++ arg :: rest }

/-- Two dashes alone end the options. Unless options may be interspersed with words, the first word
ends them too. -/
def parse (specs : List (OptionSpec κ)) (interspersed : Bool) (args : List Text) :
    Except ArgumentFault (Arguments κ) :=
  parseWithin specs interspersed args.length {} args

def value? [BEq κ] (a : Arguments κ) (key : κ) : Option Text :=
  (a.given.reverse.find? fun g => g.1 == key).map (·.2)

/-- The options given, each once, by their first place, with their last value. -/
def settled [BEq κ] (a : Arguments κ) : List (κ × Text) :=
  let keys := a.given.foldl (fun ks g => if ks.contains g.1 then ks else ks ++ [g.1]) []
  keys.filterMap fun k => (a.value? k).map fun v => (k, v)

end Arguments

end UmlSchema
