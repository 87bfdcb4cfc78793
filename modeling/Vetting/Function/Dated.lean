import Vetting.Calendar.Reading
import Vetting.Function.Argument

/-!
# Functions on dates

A date is a text or a number of milliseconds since 1970.
-/

namespace Vetting.Dated

open Calendar

def ofCalendar {α : Type} : Except DateFault α → Except Fault α
  | .ok a => .ok a
  | .error f => .error (.date f)

def toTimestamp : Value → Except Fault Timestamp
  | .number n => do
    match ← n.div (.integer 1000) with
    | .float seconds => ofCalendar (Timestamp.ofSeconds seconds)
    | .integer seconds => ofCalendar (Timestamp.ofSeconds (Binary64.ofInt seconds))
  | .text t => ofCalendar (Timestamp.ofLooseText t)
  | v => .error (.argument (.dateExpected v.describe))

def isToday (now : Int) (v : Value) : Except Fault Value := do
  let timestamp ← toTimestamp v
  let date ← ofCalendar timestamp.universalDate
  return .boolean (date == Timestamp.dateOf now)

/-- The seconds between two instants, as the nearest binary64 number. -/
def secondsBetween (first second : Int) : Binary64 :=
  (Binary64.ofIntQuotient (second - first) microsPerSecond).abs

/-- The days between two dates, rounded up. The second date is looked at first. -/
def daysBetween (first second : Value) : Except Fault Value := do
  let second ← toTimestamp second
  let first ← toTimestamp first
  let seconds := secondsBetween first.instant second.instant
  let days ← Number.ceil (.float (seconds.div (Binary64.ofInt secondsPerDay)))
  return .integer days

end Vetting.Dated
