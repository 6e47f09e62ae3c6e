/-!
This module contains the reading of UTF-8 that goes on after a fault. Where the bytes of a character
break off or no character can start, the longest part that could still have become a character counts
as one fault, and reading goes on with the byte after it.
-/

namespace ScriptHost.Text.Utf8

/--
A character that has been started: the bits read so far, how many bytes are owed, and the bounds
on the next one.
-/
structure Pending where
  code : Nat
  owed : Nat
  low : UInt8
  high : UInt8
deriving DecidableEq

/-- What a byte between two characters means. -/
inductive Lead where
  | char (c : Char)
  | opens (p : Pending)
  | invalid

/-- The bounds after a lead byte leave out overlong forms, surrogates and codes past the last one. -/
def lead (b : UInt8) : Lead :=
  let n := b.toNat
  if n < 0x80 then .char (Char.ofNat n)
  else if n < 0xc2 then .invalid
  else if n < 0xe0 then .opens ⟨n - 0xc0, 1, 0x80, 0xbf⟩
  else if n = 0xe0 then .opens ⟨0, 2, 0xa0, 0xbf⟩
  else if n = 0xed then .opens ⟨0xd, 2, 0x80, 0x9f⟩
  else if n < 0xf0 then .opens ⟨n - 0xe0, 2, 0x80, 0xbf⟩
  else if n = 0xf0 then .opens ⟨0, 3, 0x90, 0xbf⟩
  else if n < 0xf4 then .opens ⟨n - 0xf0, 3, 0x80, 0xbf⟩
  else if n = 0xf4 then .opens ⟨4, 3, 0x80, 0x8f⟩
  else .invalid

def Pending.admits (p : Pending) (b : UInt8) : Bool :=
  p.low ≤ b && b ≤ p.high

/-- The characters of a byte sequence in order, with `none` for each fault. -/
def decode (bytes : List UInt8) : List (Option Char) :=
  go none bytes []
where
  /-- `acc` holds what has been read, last first. -/
  go (pending : Option Pending) : List UInt8 → List (Option Char) → List (Option Char)
    | [], acc => (if pending.isSome then none :: acc else acc).reverse
    | b :: bytes, acc =>
      match pending.filter (·.admits b) with
      | some p =>
        let code := p.code * 64 + b.toNat % 64
        if p.owed ≤ 1 then go none bytes (some (Char.ofNat code) :: acc)
        else go (some ⟨code, p.owed - 1, 0x80, 0xbf⟩) bytes acc
      | none =>
        let acc := if pending.isSome then none :: acc else acc
        match lead b with
        | .char c => go none bytes (some c :: acc)
        | .opens p => go (some p) bytes acc
        | .invalid => go none bytes (none :: acc)

/-- The text of a byte sequence, with a replacement character for each fault. -/
def decodeLossy (bytes : List UInt8) : String :=
  String.ofList ((decode bytes).map fun c => c.getD '\ufffd')

/-- The text of a byte sequence, if it has no fault. -/
def decode? (bytes : List UInt8) : Option String :=
  let chars := decode bytes
  if chars.all Option.isSome then some (String.ofList (chars.filterMap id)) else none

end ScriptHost.Text.Utf8
