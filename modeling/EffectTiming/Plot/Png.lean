import EffectTiming.Plot.Picture

/-!
# Pictures as files

The portable form of a picture: eight bits for each part of a colour, rows from top to bottom, and
the rows stored without being packed.
-/

namespace EffectTiming.Plot.Png

/-- A word, the highest byte first. -/
def word (n : UInt32) : ByteArray :=
  ⟨#[(n >>> 24).toUInt8, (n >>> 16).toUInt8, (n >>> 8).toUInt8, n.toUInt8]⟩

/-- One bit of a cyclic check. -/
def checkBit (c : UInt32) : UInt32 := if c &&& 1 = 1 then (c >>> 1) ^^^ 0xedb88320 else c >>> 1

/-- One byte of a cyclic check. -/
def checkByte (c : UInt32) (b : UInt8) : UInt32 :=
  (List.range 8).foldl (fun c _ => checkBit c) (c ^^^ b.toUInt32)

/-- The cyclic check of bytes. -/
def cyclicCheck (bytes : ByteArray) : UInt32 := bytes.foldl checkByte 0xffffffff ^^^ 0xffffffff

/-- The running sums of bytes, modulo the greatest prime below `2 ^ 16`. -/
def sumCheck (bytes : ByteArray) : UInt32 :=
  let (a, b) := bytes.foldl
    (fun ((a, b) : UInt32 × UInt32) byte =>
      let a := (a + byte.toUInt32) % 65521
      (a, (b + a) % 65521))
    (1, 0)
  (b <<< 16) ||| a

/-- A part of the file: its length, its name, its bytes and their check. -/
def chunk (name : String) (bytes : ByteArray) : ByteArray :=
  let body := name.toUTF8 ++ bytes
  word bytes.size.toUInt32 ++ body ++ word (cyclicCheck body)

/-- The most bytes that one block holds. -/
def blockSize : Nat := 65535

/-- A block of stored bytes. -/
def block (last : Bool) (bytes : ByteArray) : ByteArray :=
  let size := bytes.size.toUInt16
  let low (n : UInt16) : UInt8 := n.toUInt8
  let high (n : UInt16) : UInt8 := (n >>> 8).toUInt8
  ⟨#[if last then 1 else 0, low size, high size, low size.complement, high size.complement]⟩ ++
    bytes

/-- Bytes in the form of a packed stream. -/
def stream (bytes : ByteArray) : ByteArray :=
  let count := (bytes.size + blockSize - 1) / blockSize
  let blocks := (List.range count).foldl
    (fun done i =>
      done ++ block (i + 1 = count) (bytes.extract (i * blockSize) ((i + 1) * blockSize)))
    ByteArray.empty
  ⟨#[0x78, 0x01]⟩ ++ blocks ++ word (sumCheck bytes)

/-- The bytes of a row: no filter, then the colours from left to right. -/
def rowBytes (p : Picture) (bytes : ByteArray) (row : Nat) : ByteArray :=
  (List.range p.width).foldl
    (fun bytes column =>
      let c := p.color column row
      ((bytes.push c.red.toUInt8).push c.green.toUInt8).push c.blue.toUInt8)
    (bytes.push 0)

/-- The file of a picture. -/
def encode (p : Picture) : ByteArray :=
  let head := word p.width.toUInt32 ++ word p.height.toUInt32 ++ ⟨#[8, 2, 0, 0, 0]⟩
  let rows := (List.range p.height).foldl (rowBytes p) ByteArray.empty
  ⟨#[0x89, 0x50, 0x4e, 0x47, 0x0d, 0x0a, 0x1a, 0x0a]⟩ ++
    chunk "IHDR" head ++ chunk "IDAT" (stream rows) ++ chunk "IEND" ByteArray.empty

end EffectTiming.Plot.Png
