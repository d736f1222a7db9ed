/-
Image files.  A file is a signature and a row of chunks, each with a checksum.  The
pixels are stored as they are, in blocks of the compressed format that hold plain
bytes.
-/
import LineGrammar.Raster

namespace LineGrammar

namespace Png

/-- The lowest bytes of a number, the highest of them first. -/
def bigEndian : Nat → Nat → List UInt8
  | 0, _ => []
  | count + 1, value => bigEndian count (value / 256) ++ [UInt8.ofNat value]

def littleEndian : Nat → Nat → List UInt8
  | 0, _ => []
  | count + 1, value => UInt8.ofNat value :: littleEndian count (value / 256)

def bytes (values : List UInt8) : ByteArray :=
  ⟨values.toArray⟩

/-- Divide by the polynomial of the checksum, one bit at a time. -/
def checksumBit (sum : UInt32) : UInt32 :=
  if sum &&& 1 = 1 then (sum >>> 1) ^^^ 0xedb88320 else sum >>> 1

def checksumByte (sum : UInt32) (byte : UInt8) : UInt32 :=
  Nat.repeat checksumBit 8 (sum ^^^ byte.toUInt32)

/-- The cyclic checksum of a chunk. -/
def checksum (data : ByteArray) : UInt32 :=
  data.foldl checksumByte 0xffffffff ^^^ 0xffffffff

/-- A chunk: its length, its name, its data, and the checksum of name and data. -/
def chunk (name : String) (data : ByteArray) : ByteArray :=
  let body := name.toUTF8 ++ data
  bytes (bigEndian 4 data.size) ++ body ++ bytes (bigEndian 4 (checksum body).toNat)

/-- Two running sums, of the bytes and of the first sums. -/
structure Sums where
  low : UInt32
  high : UInt32

def Sums.add (sums : Sums) (byte : UInt8) : Sums :=
  let low := (sums.low + byte.toUInt32) % 65521
  ⟨low, (sums.high + low) % 65521⟩

/-- The sums of a stream as one number. -/
def Sums.total (sums : Sums) : Nat :=
  sums.high.toNat * 65536 + sums.low.toNat

def blockSize : Nat := 65535

/-- A block of plain bytes. -/
def block (last : Bool) (data : ByteArray) : ByteArray :=
  bytes ((if last then 1 else 0) :: littleEndian 2 data.size
    ++ littleEndian 2 (65535 - data.size)) ++ data

/-- The blocks of `more + 1` parts of the data, the first of which begins at an
index. -/
def blocks (data : ByteArray) : Nat → Nat → ByteArray → ByteArray
  | start, 0, out => out ++ block true (data.extract start data.size)
  | start, more + 1, out =>
      blocks data (start + blockSize) more
        (out ++ block false (data.extract start (start + blockSize)))

/-- A compressed stream whose data is plain. -/
def stored (data : ByteArray) : ByteArray :=
  let header := bytes [0x78, 0x01]
  let sums := data.foldl Sums.add ⟨1, 0⟩
  blocks data 0 ((data.size - 1) / blockSize) header ++ bytes (bigEndian 4 sums.total)

def addPixel (out : ByteArray) (color : Color) : ByteArray :=
  (((out.push color.red).push color.green).push color.blue).push color.alpha

/-- The rows of an image.  Each begins with a zero, which says that its pixels are
not predicted from others. -/
def rows (image : Image) : ByteArray :=
  (image.pixels.foldl (fun (index, out) color =>
    let out := if index % image.size = 0 then out.push 0 else out
    (index + 1, addPixel out color)) (0, ByteArray.empty)).2

def signature : ByteArray :=
  bytes [0x89, 0x50, 0x4e, 0x47, 0x0d, 0x0a, 0x1a, 0x0a]

/-- The size of an image and the form of its pixels: four channels of eight bits. -/
def header (image : Image) : ByteArray :=
  bytes (bigEndian 4 image.size ++ bigEndian 4 image.size ++ [8, 6, 0, 0, 0])

def encode (image : Image) : ByteArray :=
  signature ++ chunk "IHDR" (header image) ++ chunk "IDAT" (stored (rows image))
    ++ chunk "IEND" ByteArray.empty

example : bigEndian 4 0x01020304 = [1, 2, 3, 4] := by decide +kernel
example : littleEndian 2 0x0102 = [2, 1] := by decide +kernel

end Png

end LineGrammar
