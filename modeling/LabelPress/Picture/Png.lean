import LabelPress.Picture.Runs

/-!
# Pictures as PNG files

A file starts with a signature and goes on in chunks, the first of which holds the size of
the picture. A picture is encoded with eight bits of grey for each pixel. The pixel data is
stored as it is, in blocks, without compression.

Of a file that is already there only the size is of interest. `size?` tells it if the chunks
follow each other in order and their checksums are right.
-/

namespace LabelPress.Png

/-! ## Chunks -/

/-- The bytes that every file starts with. -/
def signature : ByteArray := ⟨#[0x89, 0x50, 0x4e, 0x47, 0x0d, 0x0a, 0x1a, 0x0a]⟩

/-- The name of the chunk that holds the size. -/
def headName : String := "IHDR"

/-- The name of the chunks that hold the pixels. -/
def dataName : String := "IDAT"

/-- The name of the last chunk. -/
def endName : String := "IEND"

/-- The bytes of a number with 32 bits, the highest one first. -/
def word (n : UInt32) : ByteArray :=
  ⟨#[(n >>> 24).toUInt8, (n >>> 16).toUInt8, (n >>> 8).toUInt8, n.toUInt8]⟩

/-- One bit of the cyclic checksum. -/
def crcBit (c : UInt32) : UInt32 := if c &&& 1 = 1 then (c >>> 1) ^^^ 0xedb88320 else c >>> 1

/-- One byte of the cyclic checksum. -/
def crcByte (c : UInt32) (b : UInt8) : UInt32 :=
  (List.range 8).foldl (fun c _ => crcBit c) (c ^^^ b.toUInt32)

/-- The cyclic checksum of a chunk. -/
def crc (bytes : ByteArray) : UInt32 := bytes.foldl crcByte 0xffffffff ^^^ 0xffffffff

/-- The two running sums that the pixel data is checked by. -/
def adler (bytes : ByteArray) : UInt32 :=
  let (a, b) := bytes.foldl
    (fun (a, b) byte =>
      let a := (a + byte.toUInt32) % 65521
      (a, (b + a) % 65521))
    ((1, 0) : UInt32 × UInt32)
  (b <<< 16) ||| a

/-- A chunk: its length, its name, its data and its checksum. -/
def chunk (name : String) (data : ByteArray) : ByteArray :=
  let body := name.toUTF8 ++ data
  word (UInt32.ofNat data.size) ++ body ++ word (crc body)

/-! ## Writing -/

/-- The most bytes of a stored block. -/
def blockSize : Nat := 65535

/-- The bytes from a position on, in stored blocks. -/
def storedBlocks (bytes : ByteArray) : Nat → Nat → ByteArray → ByteArray
  | 0, _, out => out
  | blocks + 1, start, out =>
    let stop := min (start + blockSize) bytes.size
    let n := UInt32.ofNat (stop - start)
    let header : ByteArray :=
      ⟨#[if blocks = 0 then 1 else 0, n.toUInt8, (n >>> 8).toUInt8, (n ^^^ 0xffff).toUInt8,
        ((n ^^^ 0xffff) >>> 8).toUInt8]⟩
    storedBlocks bytes blocks stop (out ++ header ++ bytes.extract start stop)

/-- Bytes in the container for compressed data, without compression. -/
def stored (bytes : ByteArray) : ByteArray :=
  storedBlocks bytes (bytes.size / blockSize + 1) 0 ⟨#[0x78, 0x01]⟩ ++ word (adler bytes)

/-- One row of pixels, with the mark of an unfiltered row in front. -/
def rowBytes (runs : List (Nat × UInt8)) : ByteArray :=
  runs.foldl (fun out run => run.1.fold (fun _ _ out => out.push run.2) out) ⟨#[0]⟩

/-- The byte that tells a grey. -/
def byte (grey : Rat) : UInt8 := UInt8.ofNat (level grey)

/-- The rows of a picture, from top to bottom. -/
def pixelBytes (p : Picture) : ByteArray :=
  (p.runs byte).foldl
    (fun out row =>
      let bytes := rowBytes row.2
      row.1.fold (fun _ _ out => out ++ bytes) out)
    .empty

/-- A picture as the bytes of a file. -/
def encode (p : Picture) : ByteArray :=
  signature
    ++ chunk headName
      (word (UInt32.ofNat p.width) ++ word (UInt32.ofNat p.height) ++ ⟨#[8, 0, 0, 0, 0]⟩)
    ++ chunk dataName (stored (pixelBytes p)) ++ chunk endName .empty

/-! ## Reading -/

/-- The number in the four bytes from a position on. -/
def wordAt? (bytes : ByteArray) (start : Nat) : Option Nat :=
  if start + 4 ≤ bytes.size then
    some ((bytes.extract start (start + 4)).foldl (fun n byte => 256 * n + byte.toNat) 0)
  else none

/-- Whether a chunk with a given name and length starts at a position. -/
def isChunkAt (bytes : ByteArray) (start : Nat) (name : String) (length : Nat) : Bool :=
  (bytes.extract start (start + length + 12)).data
    == (chunk name (bytes.extract (start + 8) (start + 8 + length))).data

/-- The names of the chunks from a position on up to the last one, if there are no more of
them than a given number. -/
def chunkNames? (bytes : ByteArray) : Nat → Nat → Option (List String)
  | 0, _ => none
  | fuel + 1, start => do
    let length ← wordAt? bytes start
    let name ← String.fromUTF8? (bytes.extract (start + 4) (start + 8))
    if isChunkAt bytes start name length then
      if name = endName then return [name]
      else return name :: (← chunkNames? bytes fuel (start + length + 12))
    else none

/-- The position of the first chunk. -/
def firstChunk : Nat := 8

/-- The length of the chunk that holds the size. -/
def headLength : Nat := 13

/-- The width and the height of the picture in a file, if there is one. -/
def size? (bytes : ByteArray) : Option (Nat × Nat) := do
  let names ← chunkNames? bytes bytes.size firstChunk
  let length ← wordAt? bytes firstChunk
  let width ← wordAt? bytes (firstChunk + 8)
  let height ← wordAt? bytes (firstChunk + 12)
  if (bytes.extract 0 firstChunk).data == signature.data && names.head? = some headName
      && length = headLength && names.contains dataName && 0 < width && 0 < height then
    return (width, height)
  else none

end LabelPress.Png
