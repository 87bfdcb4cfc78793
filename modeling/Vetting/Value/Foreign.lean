import Vetting.Calendar.Moment

/-!
# Objects outside the model

Documents and hosts bring objects that are no model values: dates, moments, bytes and sets, and
objects about which nothing but a name is known. An object can be shown and compared with others;
no operation of the engine looks further into it.
-/

namespace Vetting

inductive Foreign where
  /-- An object about which only its name is known. -/
  | named (name : Text)
  | day (date : Calendar.Date)
  | moment (moment : Calendar.Moment)
  | bytes (octets : List Nat)
  /-- A set, whose members are known by their written forms. -/
  | set (members : List Text)
deriving DecidableEq

namespace Foreign

def typeName : Foreign → Text
  | named _ => "Opaque"
  | day _ => "date"
  | moment _ => "datetime"
  | bytes _ => "bytes"
  | set _ => "set"

/-- The name of the type with that of the family it belongs to, which some messages give. -/
def familyTypeName : Foreign → Text
  | day _ => "datetime.date"
  | moment _ => "datetime.datetime"
  | object => object.typeName

def same : Foreign → Foreign → Bool
  | moment a, moment b => a.same b
  | a, b => a == b

/-- Whether an object has any content; only empty bytes and sets have none. -/
def hasContent : Foreign → Bool
  | bytes octets => !octets.isEmpty
  | set members => !members.isEmpty
  | _ => true

/-! ## Order -/

/-- The order of two moments, both with an offset or both without. -/
def compareMoments (a b : Calendar.Moment) : Except Fault Ordering :=
  match a.offset, b.offset with
  | none, none => .ok (Ord.compare a.localMicros b.localMicros)
  | some x, some y => .ok (Ord.compare (a.localMicros - x) (b.localMicros - y))
  | _, _ => .error .mixedOffsets

/-- The order of two objects. Only objects of one type are ordered, and sets are not. -/
def compare : Foreign → Foreign → Except Fault Ordering
  | day a, day b => .ok (Ord.compare a.number b.number)
  | moment a, moment b => compareMoments a b
  | day _, moment _ | moment _, day _ => .error .dateWithMoment
  | bytes a, bytes b => .ok (Text.comparePoints a b)
  | a, b => .error (.unordered "<" a.familyTypeName b.familyTypeName)

/-! ## Written forms -/

def callText (name : Text) (numbers : List Int) (more : List Text) : Text :=
  name ++ "(" ++ Text.join ", " (numbers.map Text.ofInt ++ more) ++ ")"

/-- The parts of a time of day down to the last one that is not zero; hour and minute stay. -/
def clockParts (c : Calendar.Clock) : List Nat :=
  [c.hour, c.minute]
    ++ if c.micro ≠ 0 then [c.second, c.micro] else if c.second ≠ 0 then [c.second] else []

/-- How an offset stands in the written form of a moment. -/
def zoneText (offset : Int) : Text :=
  if offset = 0 then "tzinfo=datetime.timezone.utc"
  else "tzinfo=datetime.timezone(" ++ durationText offset ++ ")"

/-- A byte in single or double quotes: itself if it is printable ASCII, else an escape. -/
def byteText (quote : Nat) (b : Nat) : Text :=
  if b < 128 then Text.quotedPoint quote b else "\\x" ++ Text.hex 2 b

/-- Bytes in single quotes, unless they hold a single quote and no double quote. -/
def bytesText (octets : List Nat) : Text :=
  let quote := if octets.contains 39 && !octets.contains 34 then 34 else 39
  "b" ++ Text.singleton quote ++ Text.concat (octets.map (byteText quote)) ++ Text.singleton quote

/-- How an object stands inside a message or a list. -/
def inspect : Foreign → Text
  | named name => "<opaque " ++ name ++ ">"
  | day d => callText "datetime.date" [d.year, d.month, d.day] []
  | moment m =>
    callText "datetime.datetime"
      ([m.date.year, (m.date.month : Int), (m.date.day : Int)] ++ (clockParts m.clock).map Int.ofNat)
      (m.offset.map zoneText).toList
  | bytes octets => bytesText octets
  | set members =>
    if members.isEmpty then "set()" else "\x7b" ++ Text.join ", " members ++ "\x7d"

def display : Foreign → Text
  | day d => d.toText
  | moment m => m.toText
  | object => object.inspect

end Foreign
end Vetting
