/-!
# UTF-8

Source texts are bytes; `decode` reads them as characters. It never fails: a byte that starts no
well-formed sequence is read, by itself, as U+FFFD.

* `lead`: the character at the head of a byte sequence, and how many bytes follow its first one.
* `decode`: all characters.
-/

namespace BlockScript.Text.Utf8

/-- The character that stands for a byte outside every well-formed sequence. -/
def replacement : Char := '�'

/-- The payload of a continuation byte `10xxxxxx`. -/
def continuation? (b : UInt8) : Option Nat :=
  if 0x80 ≤ b && b < 0xc0 then some (b.toNat - 0x80) else none

/-- A sequence of two bytes, which holds 128 or more. -/
def two? (a b : UInt8) : Option Char := do
  let y ← continuation? b
  if 0xc2 ≤ a && a < 0xe0 then some (Char.ofNat ((a.toNat - 0xc0) * 64 + y)) else none

/-- A sequence of three bytes, which holds 2048 or more and no surrogate. -/
def three? (a b c : UInt8) : Option Char := do
  let y ← continuation? b
  let z ← continuation? c
  let n := (a.toNat - 0xe0) * 4096 + y * 64 + z
  if 0xe0 ≤ a && a < 0xf0 && 0x800 ≤ n && !(0xd800 ≤ n && n < 0xe000) then some (Char.ofNat n)
  else none

/-- A sequence of four bytes, which holds 65536 or more and at most the last code point. -/
def four? (a b c d : UInt8) : Option Char := do
  let y ← continuation? b
  let z ← continuation? c
  let w ← continuation? d
  let n := (a.toNat - 0xf0) * 262144 + y * 4096 + z * 64 + w
  if 0xf0 ≤ a && a < 0xf5 && 0x10000 ≤ n && n < 0x110000 then some (Char.ofNat n) else none

/-- The character that starts with byte `a`, and how many of the bytes after `a` belong to it. -/
def lead (a : UInt8) (rest : List UInt8) : Char × Nat :=
  if a < 0x80 then (Char.ofNat a.toNat, 0)
  else
    let two := rest[0]?.bind (two? a)
    let three := rest[0]?.bind fun b => rest[1]?.bind (three? a b)
    let four := rest[0]?.bind fun b => rest[1]?.bind fun c => rest[2]?.bind (four? a b c)
    match two, three, four with
    | some c, _, _ => (c, 1)
    | _, some c, _ => (c, 2)
    | _, _, some c => (c, 3)
    | none, none, none => (replacement, 0)

/-- The characters of a byte sequence of which the first `skip` bytes are already read. -/
def decodeFrom : Nat → List UInt8 → List Char
  | _, [] => []
  | skip + 1, _ :: rest => decodeFrom skip rest
  | 0, a :: rest => (lead a rest).1 :: decodeFrom (lead a rest).2 rest

/-- The characters of a byte sequence. -/
def decode (bytes : List UInt8) : String :=
  String.ofList (decodeFrom 0 bytes)

end BlockScript.Text.Utf8
