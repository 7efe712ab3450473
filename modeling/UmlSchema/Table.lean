/-! Tables: values by key, in the order in which the keys came. A value written to a key that is
there already takes the place of the old one. -/
namespace UmlSchema

abbrev Table (κ α : Type) := List (κ × α)

namespace Table

variable {κ α : Type} [DecidableEq κ]

def get? (t : Table κ α) (k : κ) : Option α := (t.find? fun x => x.1 = k).map (·.2)

def put (t : Table κ α) (k : κ) (a : α) : Table κ α :=
  match t with
  | [] => [(k, a)]
  | x :: xs => if x.1 = k then (k, a) :: xs else x :: put xs k a

def keys (t : Table κ α) : List κ := t.map (·.1)

def ofWrites (ws : List (κ × α)) : Table κ α := ws.foldl (fun t w => t.put w.1 w.2) []

@[simp] theorem get?_put_self (t : Table κ α) (k : κ) (a : α) : (t.put k a).get? k = some a := by
  induction t with
  | nil => simp [put, get?]
  | cons x xs ih =>
    by_cases h : x.1 = k
    · simp [put, get?, h]
    · simpa [put, get?, h] using ih

theorem get?_put_of_ne (t : Table κ α) {k l : κ} (a : α) (h : k ≠ l) :
    (t.put k a).get? l = t.get? l := by
  induction t with
  | nil => simp [put, get?, h]
  | cons x xs ih =>
    by_cases hx : x.1 = k
    · subst hx
      simp [put, get?, h]
    · by_cases hl : x.1 = l
      · subst hl
        simp [put, get?, hx]
      · simpa [put, get?, hx, hl] using ih

end Table

end UmlSchema
