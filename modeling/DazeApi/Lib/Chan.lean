/-!
# Buffered channels

A channel of Go: what is in its buffer, and whether it is closed.  An operation that would
block is `none`.  A receive from a closed channel whose buffer is empty returns at once,
without a value.
-/

structure Chan (α : Type) where
  cap : Nat
  buf : List α
  closed : Bool
deriving DecidableEq, Repr

namespace Chan

variable {α : Type} {c c' : Chan α} {x : α}

/-- `make(chan α, cap)`. -/
def make (cap : Nat) : Chan α := ⟨cap, [], false⟩

/-- `c <- x` on a channel that is open. -/
def send (c : Chan α) (x : α) : Option (Chan α) :=
  if c.buf.length < c.cap then some { c with buf := c.buf ++ [x] } else none

/-- `c <- x` where the panic of a closed channel is recovered. -/
def safeSend (c : Chan α) (x : α) : Option (Chan α) := if c.closed then some c else c.send x

/-- `<-c`. -/
def recv (c : Chan α) : Option (Option α × Chan α) :=
  match c.buf with
  | x :: xs => some (some x, { c with buf := xs })
  | [] => if c.closed then some (none, c) else none

/-- `close(c)`. -/
def close (c : Chan α) : Chan α := { c with closed := true }

theorem send_eq_some (h : c.send x = some c') : c' = { c with buf := c.buf ++ [x] } := by
  rw [send] at h
  split at h
  next => exact (Option.some.inj h).symm
  next => cases h

theorem safeSend_eq_some (h : c.safeSend x = some c') :
    c.closed = true ∧ c' = c ∨ c.closed = false ∧ c' = { c with buf := c.buf ++ [x] } := by
  rw [safeSend] at h
  split at h
  next hclosed => exact Or.inl ⟨hclosed, (Option.some.inj h).symm⟩
  next hclosed => exact Or.inr ⟨by simpa using hclosed, send_eq_some h⟩

/-- A receive takes the first value, or finds the channel closed and empty. -/
theorem recv_eq_some {r : Option α × Chan α} (h : c.recv = some r) :
    (∃ x xs, c.buf = x :: xs ∧ r = (some x, { c with buf := xs })) ∨
      c.buf = [] ∧ c.closed = true ∧ r = (none, c) := by
  rw [recv] at h
  split at h
  next x xs hbuf => exact Or.inl ⟨x, xs, hbuf, (Option.some.inj h).symm⟩
  next hbuf =>
    split at h
    next hclosed => exact Or.inr ⟨hbuf, hclosed, (Option.some.inj h).symm⟩
    next => cases h

theorem recv_eq_none_iff : c.recv = none ↔ c.buf = [] ∧ c.closed = false := by
  rw [recv]
  split
  next hbuf => simp [hbuf]
  next hbuf => simp [hbuf]

end Chan
