import Vetting.Calendar.Timestamp

/-!
# Moments

A moment is a local date and time whose offset from universal time may be unknown. Two moments are
the same if both offsets are known and the instants agree, or if both are unknown and the local
times agree.
-/

namespace Vetting.Calendar

/-- The date itself, if it is in the calendar. -/
def Date.checked (d : Date) : Except DateFault Date :=
  match Timestamp.dateFault? d Clock.midnight with
  | some fault => .error fault
  | none => .ok d

structure Moment where
  localMicros : Int
  offset : Option Int
deriving DecidableEq

/-- The written form of an offset, without seconds if it is a number of minutes. -/
def offsetText (offset : Int) : Text :=
  let c := Clock.ofMicros offset.natAbs
  (if offset < 0 then "-" else "+")
    ++ (if c.second = 0 ∧ c.micro = 0 then Text.padNat 2 c.hour ++ ":" ++ Text.padNat 2 c.minute
      else c.toText)

namespace Moment

def ofParts (d : Date) (c : Clock) (offset : Option Int) : Except DateFault Moment := do
  let t ← Timestamp.ofParts d c 0
  return ⟨t.localMicros, offset⟩

def date (m : Moment) : Date := Timestamp.dateOf m.localMicros

def clock (m : Moment) : Clock := Timestamp.clockOf m.localMicros

def same (a b : Moment) : Bool :=
  match a.offset, b.offset with
  | none, none => a.localMicros == b.localMicros
  | some x, some y => (Timestamp.mk a.localMicros x).instant == (Timestamp.mk b.localMicros y).instant
  | _, _ => false

def toText (m : Moment) : Text :=
  m.date.toText ++ " " ++ m.clock.toText ++ (m.offset.map offsetText).getD ""

end Moment
end Vetting.Calendar
