import UmlSchema.Report.Warning

/-! What writing a declaration does: a list of events, and a result unless the model is at fault.
Events before a fault are kept. -/
namespace UmlSchema

inductive Event where
  | line (content : Text)
  | indent
  | outdent
  | warn (w : Warning)
  | log (r : LogRecord)
  deriving DecidableEq, Repr

structure Emission (α : Type) where
  events : List Event
  result : Except ModelFault α

namespace Emission

def bind {α β : Type} (x : Emission α) (f : α → Emission β) : Emission β :=
  match x.result with
  | .ok a =>
    let y := f a
    ⟨x.events ++ y.events, y.result⟩
  | .error fault => ⟨x.events, .error fault⟩

instance : Monad Emission where
  pure a := ⟨[], .ok a⟩
  bind := bind

instance : MonadLift (Except ModelFault) Emission := ⟨fun x => ⟨[], x⟩⟩

def emit (e : Event) : Emission Unit := ⟨[e], .ok ()⟩

def emitAll (es : List Event) : Emission Unit := ⟨es, .ok ()⟩

def fail {α : Type} (fault : ModelFault) : Emission α := ⟨[], .error fault⟩

def line (content : Text) : Emission Unit := emit (.line content)

def emptyLine : Emission Unit := emit (.line [])

def indent : Emission Unit := emit .indent

def outdent : Emission Unit := emit .outdent

def warn (k : WarningKind) (message : Text) (element : Shown) : Emission Unit :=
  emit (.warn ⟨k, message, element⟩)

def debug (source : LogSource) (message : Text) : Emission Unit :=
  emit (.log ⟨.debug, source, message⟩)

def each {α : Type} (xs : List α) (f : α → Emission Unit) : Emission Unit :=
  match xs with
  | [] => pure ()
  | x :: xs => do
    f x
    each xs f

def collect {α β : Type} (xs : List α) (f : α → Emission β) : Emission (List β) :=
  match xs with
  | [] => pure []
  | x :: xs => do
    let y ← f x
    let ys ← collect xs f
    return y :: ys

end Emission

namespace Event

def warning? : Event → Option Warning
  | warn w => some w
  | _ => none

/-- A warning is logged too. -/
def record? : Event → Option LogRecord
  | warn w => some w.record
  | log r => some r
  | _ => none

end Event

def warningsOf (events : List Event) : List Warning := events.filterMap Event.warning?

def recordsOf (events : List Event) : List LogRecord := events.filterMap Event.record?

end UmlSchema
