/-!
# Lines from a terminal

A reader takes its input in blocks and gives it out in lines. What a reader has taken and not given
out is lost to the next one.

* `Terminal.nextLine`: reads a line.
* `Terminal.answers`: the lines that can be read before the input ends.
-/

namespace BlockScript

/-- A reader: what it has taken from the input and what is still there. -/
structure Terminal where
  held : List UInt8
  waiting : List UInt8
  deriving Repr, DecidableEq

namespace Terminal

/-- How much a reader can hold. -/
def capacity : Nat := 4096

/-- The byte that ends a line. -/
def lineEnd : UInt8 := 10

/-- A reader that has taken nothing yet. -/
def fresh (input : List UInt8) : Terminal := ⟨[], input⟩

/-- The room for the next block. A reader that is full drops what it holds, which is a part of the
line being read. -/
def room (t : Terminal) : Nat :=
  if t.held.length < capacity then capacity - t.held.length else capacity

theorem room_pos (t : Terminal) : 0 < t.room := by
  unfold room capacity
  split <;> omega

/-- Takes the next block. -/
def refill (t : Terminal) : Terminal where
  held := (if t.held.length < capacity then t.held else []) ++ t.waiting.take t.room
  waiting := t.waiting.drop t.room

/-- Reads a line: whether the input held a complete one, and the reader behind it. -/
def nextLine (t : Terminal) : Bool × Terminal :=
  if lineEnd ∈ t.held then
    (true, { t with held := (t.held.dropWhile (· ≠ lineEnd)).tail })
  else if t.waiting = [] then (false, ⟨[], []⟩)
  else t.refill.nextLine
termination_by t.waiting.length
decreasing_by
  have := t.room_pos
  have := List.length_pos_iff.2 ‹_›
  simp only [refill, List.length_drop]
  omega

/-- The reader behind a number of lines. -/
def skip : Nat → Terminal → Terminal
  | 0, t => t
  | n + 1, t => skip n t.nextLine.2

/-- How many complete lines the input holds. -/
def answers (t : Terminal) : Nat :=
  (t.held ++ t.waiting).count lineEnd

end Terminal

end BlockScript
