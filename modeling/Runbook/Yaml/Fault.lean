import Runbook.Json.Fault
import Runbook.Text.Quoted

/-! Why a text gives no YAML value. Most faults are of form, and nothing more is said of those. The others
come from scalars that have the form of a type but stand for none of its values. -/
namespace Runbook.Yaml

/-- A part of a time that is out of its range. -/
inductive TimePart where
  | year (n : Nat)
  | month
  | day
  | hour
  | minute
  | second
  | offset (minutes : Int)
  deriving DecidableEq, Repr

inductive Fault where
  | malformed
  | tooDeep
  | codePoint (n : Nat)
  | flagText (text : String)
  | noDigits
  | integerText (base : Nat) (text : String)
  | tooManyDigits (count : Nat)
  | numberText (text : String)
  | numberTooLarge
  | timeText
  | outOfRange (part : TimePart)
  deriving DecidableEq, Repr

/-- The code points from here on do not even fit a signed 32-bit word. -/
def wordLimit : Nat := Nat.pow 2 31

/-- A span of minutes in whole days and the seconds beyond them. -/
def spanText (minutes : Int) : String :=
  let days := Int.fdiv minutes 1440
  let seconds := (Int.fmod minutes 1440) * 60
  let parts := (if days = 0 then [] else [s!"days={days}"]) ++ (if seconds = 0 then [] else [s!"seconds={seconds}"])
  "datetime.timedelta(" ++ ", ".intercalate parts ++ ")"

def TimePart.message : TimePart → String
  | .year n => s!"year {n} is out of range"
  | .month => "month must be in 1..12"
  | .day => "day is out of range for month"
  | .hour => "hour must be in 0..23"
  | .minute => "minute must be in 0..59"
  | .second => "second must be in 0..59"
  | .offset minutes =>
    "offset must be a timedelta strictly between -timedelta(hours=24) and timedelta(hours=24), not " ++
      spanText minutes

def Fault.message : Fault → String
  | .malformed => "malformed document"
  | .tooDeep => "maximum recursion depth exceeded"
  | .codePoint n =>
    if n < wordLimit then "chr() arg not in range(0x110000)"
    else "Python int too large to convert to C int"
  | .flagText text => Text.quote text
  | .noDigits => "string index out of range"
  | .integerText base text => s!"invalid literal for int() with base {base}: " ++ Text.quote text
  | .tooManyDigits count => Json.digitsMessage count
  | .numberText text => "could not convert string to float: " ++ Text.quote text
  | .numberTooLarge => "int too large to convert to float"
  | .timeText => "'NoneType' object has no attribute 'groupdict'"
  | .outOfRange part => part.message

end Runbook.Yaml
