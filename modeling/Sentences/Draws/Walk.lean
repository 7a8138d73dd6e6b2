/-!
# Draws and walks along them

A source of random values is an endless sequence of 64-bit draws. A walk reads draws one after
another: it starts at a position and ends at a later one, with a value or with a failure. A
failure keeps the position at which it arose, so the next walk goes on from there. Walks that may
repeat a step without end carry fuel; `none` says that the fuel was too little.
-/

namespace Sentences

/-- A source of random values. -/
abbrev Draws := Nat → UInt64

/-- A scripted source: the listed draws, then zeros without end. -/
def Draws.ofList (draws : List UInt64) : Draws :=
  fun k => draws.getD k 0

/-- From a position of a source to a result and the next position; `none` when out of fuel. -/
abbrev Walk (ε α : Type) := Nat → Option (Except ε α × Nat)

namespace Walk

variable {ε α β : Type}

/-- The walk that reads nothing and ends with a value. -/
def done (a : α) : Walk ε α :=
  fun pos => some (.ok a, pos)

/-- The walk that reads nothing and fails. -/
def fail (e : ε) : Walk ε α :=
  fun pos => some (.error e, pos)

/-- The walk that has no fuel left. -/
def spent : Walk ε α :=
  fun _ => none

/-- One walk, then the next from where it ended, unless it failed. -/
def andThen (w : Walk ε α) (next : α → Walk ε β) : Walk ε β :=
  fun pos =>
    match w pos with
    | none => none
    | some (.error e, stop) => some (.error e, stop)
    | some (.ok a, stop) => next a stop

/-- The walk with its value changed. -/
def map (f : α → β) (w : Walk ε α) : Walk ε β :=
  w.andThen fun a => done (f a)

/-- One walk for each element, in order; their lists of values side by side. -/
def concat {σ : Type} (w : σ → Walk ε (List α)) : List σ → Walk ε (List α)
  | [] => done []
  | s :: rest => (w s).andThen fun xs => (concat w rest).map (xs ++ ·)

/-- One walk for each element, in order, each from the value of the one before. -/
def fold {σ : Type} (w : σ → α → Walk ε α) : List σ → α → Walk ε α
  | [], a => done a
  | s :: rest, a => (w s a).andThen (fold w rest)

end Walk

end Sentences
