import EventVm.Bytes.LittleEndian

/-!
# CRC-32

The reflected CRC-32 of IEEE 802.3: the remainder register starts with all bits set, takes the bytes
in order, least significant bit first, and is complemented at the end.
-/

namespace EventVm.Crc32

/-- The generator polynomial, bits reversed. -/
def polynomial : UInt32 := 0xEDB88320

/-- One division step. -/
def shiftBit (r : UInt32) : UInt32 :=
  if r &&& 1 = 1 then (r >>> 1) ^^^ polynomial else r >>> 1

/-- Eight division steps. -/
def shiftByte (r : UInt32) : UInt32 :=
  shiftBit (shiftBit (shiftBit (shiftBit (shiftBit (shiftBit (shiftBit (shiftBit r)))))))

/-- The register after one more byte. -/
def feed (r : UInt32) (b : UInt8) : UInt32 :=
  shiftByte (r ^^^ b.toUInt32)

/-- The checksum of a byte string. -/
def checksum (bytes : Bytes) : UInt32 :=
  bytes.foldl feed 0xFFFFFFFF ^^^ 0xFFFFFFFF

example : checksum (littleEndian 9 0x393837363534333231) = 0xCBF43926 := by decide +kernel

end EventVm.Crc32
