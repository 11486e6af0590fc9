/-!
Cells that are computed once. The first request fills a cell with a value, and with an error if
there was one; later requests give these back and compute nothing.
-/

namespace DocPrologue

structure Once (α ε : Type) where
  result : Option (α × Option ε)

namespace Once

variable {α ε : Type}

def empty : Once α ε := ⟨none⟩

def isPending (cell : Once α ε) : Bool := cell.result.isNone

def getWithError (cell : Once α ε) (compute : Unit → α × Option ε) : (α × Option ε) × Once α ε :=
  match cell.result with
  | some result => (result, cell)
  | none =>
    let result := compute ()
    (result, ⟨some result⟩)

def get (cell : Once α ε) (compute : Unit → α) : α × Once α ε :=
  let (result, filled) := cell.getWithError fun _ => (compute (), none)
  (result.1, filled)

theorem getWithError_filled (cell : Once α ε) (first second : Unit → α × Option ε) :
    (cell.getWithError first).2.getWithError second = cell.getWithError first := by
  obtain ⟨result⟩ := cell
  cases result <;> rfl

end Once

end DocPrologue
