import DeviceHttp.Text.Utf8

/-!
# Checksums

A digest is fed a byte string in pieces. `Digest.update_append` says that the pieces do not matter,
so checking a file piece by piece is checking it at once.
-/

namespace DeviceHttp

/-- How the checksum of an image is computed. -/
inductive Checksum
  /-- The sum of the bytes, modulo 2¹⁶. -/
  | sum16
  /-- The cyclic redundancy check of IEEE 802.3. -/
  | crc32
  deriving DecidableEq, Repr

namespace Checksum

/-- One bit of the reflected polynomial division. -/
def crcBit (register : UInt32) : UInt32 :=
  if register &&& 1 = 1 then (register >>> 1) ^^^ 0xEDB88320 else register >>> 1

/-- One byte of the polynomial division. -/
def crcByte (register : UInt32) (b : UInt8) : UInt32 :=
  (crcBit ∘ crcBit ∘ crcBit ∘ crcBit ∘ crcBit ∘ crcBit ∘ crcBit ∘ crcBit) (register ^^^ b.toUInt32)

end Checksum

/-- A checksum on the way. -/
inductive Digest
  | sum16 (total : UInt16)
  | crc32 (register : UInt32)
  deriving DecidableEq, Repr

namespace Digest

/-- The digest of no bytes. -/
def start : Checksum → Digest
  | .sum16 => sum16 0
  | .crc32 => crc32 0xFFFFFFFF

/-- The digest after more bytes. -/
def update (bs : Bytes) : Digest → Digest
  | sum16 total => sum16 (bs.foldl (fun sum b => sum + b.toUInt16) total)
  | crc32 register => crc32 (bs.foldl Checksum.crcByte register)

/-- The checksum of the bytes seen. -/
def result : Digest → UInt32
  | sum16 total => total.toUInt32
  | crc32 register => register ^^^ 0xFFFFFFFF

@[simp] theorem update_nil (d : Digest) : d.update [] = d := by
  cases d <;> rfl

@[simp] theorem update_append (d : Digest) (xs ys : Bytes) :
    d.update (xs ++ ys) = (d.update xs).update ys := by
  cases d <;> simp [update]

end Digest

/-- The checksum of a byte string. -/
def Checksum.compute (kind : Checksum) (bs : Bytes) : UInt32 :=
  ((Digest.start kind).update bs).result

end DeviceHttp
