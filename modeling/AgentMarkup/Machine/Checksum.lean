/-!
The cyclic redundancy check CRC-32C: bits enter at the low end, the register starts with
all ones, and the result is complemented.
-/

set_option autoImplicit false
set_option relaxedAutoImplicit false

namespace AgentMarkup.Checksum

/-- The Castagnoli polynomial with its bits reversed. -/
def polynomial : UInt32 := 0x82f63b78

/-- Shifts one bit out of the register. -/
def shiftBit (register : UInt32) : UInt32 :=
  if register &&& 1 = 1 then (register >>> 1) ^^^ polynomial else register >>> 1

/-- Shifts so many bits out of the register. -/
def shiftBits : Nat → UInt32 → UInt32
  | 0, register => register
  | count + 1, register => shiftBits count (shiftBit register)

def addByte (register : UInt32) (byte : UInt8) : UInt32 :=
  shiftBits 8 (register ^^^ byte.toUInt32)

def crc32c (bytes : List UInt8) : UInt32 :=
  bytes.foldl addByte 0xffffffff ^^^ 0xffffffff

/-- Eight lower-case hexadecimal digits. -/
def hexDigits (word : UInt32) : String :=
  let digits := Nat.toDigits 16 word.toNat
  String.ofList (List.replicate (8 - digits.length) '0' ++ digits)

end AgentMarkup.Checksum
