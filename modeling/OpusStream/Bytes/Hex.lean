import OpusStream.Bytes

/-!
# Octets in diagnostics

An octet is shown as two lower-case hexadecimal digits, and octets are separated by single spaces.
-/

namespace OpusStream
namespace Hex

def pair (octet : UInt8) : String :=
  String.ofList [Nat.digitChar (octet.toNat / 16), Nat.digitChar (octet.toNat % 16)]

def text (bytes : Bytes) : String :=
  " ".intercalate (bytes.map pair)

end Hex
end OpusStream
