import BlockScript.Number.Power
import BlockScript.Scope
import BlockScript.Text.Case
import BlockScript.Value

/-!
# Native functions

Functions that the host gives to a program, by name. They take evaluated arguments and give a value
or a message of failure. The host may have a state of its own, which only the calls of programs
change, so an answer may depend on all calls before it.

* `Request`: a call, as the host sees it.
* `Native`, `Natives`: a function of the host, and a registry of them.
* `Natives.standard`: mathematics, texts, and the world around the program.
-/

namespace BlockScript

/-- A call of a function of the host. -/
structure Request where
  name : String
  args : List Value

/-- A function of the host: what it answers behind the given requests, the last one first. -/
abbrev Native := List Request → List Value → Except String Value

/-- The functions of the host, by name. -/
abbrev Natives := Scope Native

/-- The states of the world that a program can ask for, by the number of requests before. -/
structure Surroundings where
  /-- A number from zero up to but not including one. -/
  random : Nat → Float
  /-- The tick of a day of 24000 ticks. -/
  time : Nat → Int64
  weather : Nat → String

/-- The kinds of weather. -/
def weathers : List String :=
  ["sunny", "rainy", "thunderstorm"]

namespace Native

/-- The failure of a call with a wrong number of arguments. -/
def wrongCount {α : Type} (got want : Nat) : Except String α :=
  .error s!"wrong number of arguments: got {got}, want {want}"

/-- A function without arguments: what is found at the time of the request. -/
def observed (f : Nat → Value) : Native
  | asked, [] => .ok (f asked.length)
  | _, args => wrongCount args.length 0

/-- A function of one argument. -/
def unary (f : Value → Value) : Native
  | _, [a] => .ok (f a)
  | _, args => wrongCount args.length 1

/-- A function of two arguments. -/
def binary (f : Value → Value → Value) : Native
  | _, [a, b] => .ok (f a b)
  | _, args => wrongCount args.length 2

/-- A power of numbers. -/
def power : Native :=
  binary fun a b => .float (Number.power a.toFloat b.toFloat)

/-- A square root. -/
def squareRoot : Native :=
  unary fun a => .float a.toFloat.sqrt

/-- The number of characters of a text. -/
def length : Native :=
  unary fun a => .integer (Int64.ofNat a.toText.length)

/-- A text in capitals. -/
def upper : Native :=
  unary fun a => .text (Text.upper a.toText)

/-- A text in small letters. -/
def lower : Native :=
  unary fun a => .text (Text.lower a.toText)

end Native

/-- The functions that every program can call. -/
def Natives.standard (around : Surroundings) : Natives :=
  [("math_pow", Native.power),
   ("math_sqrt", Native.squareRoot),
   ("math_random", Native.observed fun n => .float (around.random n)),
   ("string_length", Native.length),
   ("string_upper", Native.upper),
   ("string_lower", Native.lower),
   ("world_time", Native.observed fun n => .integer (around.time n)),
   ("world_weather", Native.observed fun n => .text (around.weather n))]

end BlockScript
