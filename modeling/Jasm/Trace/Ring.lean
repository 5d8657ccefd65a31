import Jasm.Trace.Event

/-!
# Rings

A ring keeps the last events it was given, at most as many as it has slots. All slots are there from
the start. Once each of them was written, a new event takes the place of the oldest one.
-/

namespace Jasm.Trace

structure Ring where
  slots : Array Event
  /-- The slot that is written next. -/
  head : Nat := 0
  /-- Whether each slot was written. -/
  full : Bool := false

namespace Ring

/-- The capacity that stands in for one that is not positive. -/
def standardCapacity : Nat := 4096

/-- The most slots there can be: an event takes 96 bytes, and memory has fewer than 2 ^ 48. There is
no larger ring, since asking for one ends the process. -/
def maxCapacity : Nat := 0x1000000000000 / 96

def new (capacity : Int) : Ring :=
  { slots := Array.replicate (if capacity ≤ 0 then standardCapacity else capacity.toNat) {} }

def push (r : Ring) (e : Event) : Ring :=
  let head := (r.head + 1) % r.slots.size
  { slots := r.slots.setIfInBounds r.head e, head := head, full := r.full || head = 0 }

/-- The events in the ring, the oldest first. -/
def snapshot (r : Ring) : List Event :=
  let events := r.slots.toList
  if r.full then events.drop r.head ++ events.take r.head else events.take r.head

/-- All events in a format, with times counted from the oldest one. -/
def dump (r : Ring) (format : Format) : String :=
  let events := r.snapshot
  String.join (events.map (·.text format (events.head?.map (·.time))))

end Ring

end Jasm.Trace
