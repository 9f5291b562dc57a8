/-
# The archive of a deploy

The writer of zip archives, and a reader that takes nothing for granted: it follows the end record to
the central directory and from there to the local headers, has every entry begin where the one before
it ended, compares the two headers of an entry, and checks the length and the sum of what it decodes.

The compressor is a parameter.
-/

import Eveland.Core.TextEncoding
import Eveland.Foundations.ByteRecords
import Eveland.Foundations.Crc

namespace Eveland.ZipArchive

open Js ByteRecords

/-! ## The writer -/

structure Entry where
  name : Text
  data : List UInt8

/-- `buildCrcTable`. -/
def CRC_TABLE : List UInt32 :=
  (List.range 256).map fun n =>
    (List.range 8).foldl
      (fun c _ => if c &&& 1 ≠ 0 then (0xEDB88320 : UInt32) ^^^ (c >>> 1) else c >>> 1) (UInt32.ofNat n)

def crc32 (data : List UInt8) : UInt32 :=
  data.foldl
    (fun (crc : UInt32) byte => CRC_TABLE.getD ((crc ^^^ byte.toUInt32) &&& 0xFF).toNat 0 ^^^ (crc >>> 8))
    (0xFFFFFFFF : UInt32) ^^^ 0xFFFFFFFF

/-- `writeUInt16LE` throws for a number that has no room in 16 bits. -/
def writeUInt16LE (number position : ℕ) : Field := ⟨2, number, position⟩

/-- `writeUInt32LE` throws for a number that has no room in 32 bits. -/
def writeUInt32LE (number position : ℕ) : Field := ⟨4, number, position⟩

def localFields (method crc compressed size nameLength : ℕ) : List Field :=
  [writeUInt32LE 0x04034b50 0,
    writeUInt16LE 20 4,
    writeUInt16LE 0x0800 6,
    writeUInt16LE method 8,
    writeUInt16LE 0 10,
    writeUInt16LE 0x21 12,
    writeUInt32LE crc 14,
    writeUInt32LE compressed 18,
    writeUInt32LE size 22,
    writeUInt16LE nameLength 26,
    writeUInt16LE 0 28]

def centralFields (method crc compressed size nameLength offset : ℕ) : List Field :=
  [writeUInt32LE 0x02014b50 0,
    writeUInt16LE 20 4,
    writeUInt16LE 20 6,
    writeUInt16LE 0x0800 8,
    writeUInt16LE method 10,
    writeUInt16LE 0 12,
    writeUInt16LE 0x21 14,
    writeUInt32LE crc 16,
    writeUInt32LE compressed 20,
    writeUInt32LE size 24,
    writeUInt16LE nameLength 28,
    writeUInt32LE offset 42]

def endFields (count centralSize offset : ℕ) : List Field :=
  [writeUInt32LE 0x06054b50 0,
    writeUInt16LE count 8,
    writeUInt16LE count 10,
    writeUInt32LE centralSize 12,
    writeUInt32LE offset 16]

/-- `Buffer.alloc`. -/
def alloc (size : ℕ) : List UInt8 := List.replicate size 0

section

variable (deflateRawSync : List UInt8 → List UInt8)

/-- What is stored of an entry's data. -/
structure Stored where
  payload : List UInt8
  method : ℕ

/-- The data are compressed if that makes them shorter. -/
def store (data : List UInt8) : Stored :=
  let deflated := deflateRawSync data
  if deflated.length < data.length then ⟨deflated, 8⟩ else ⟨data, 0⟩

/-- The parts that were written so far, and where the next entry starts. -/
structure Writer where
  localParts : List (List UInt8)
  centralParts : List (List UInt8)
  offset : ℕ

/-- One turn of the loop: nothing where it throws. -/
def addEntry (writer : Writer) (entry : Entry) : Option Writer := do
  let nameBytes := encodeUtf8 entry.name
  let crc := (crc32 entry.data).toNat
  let stored := store deflateRawSync entry.data
  let localHeader ← writeAll (alloc 30)
    (localFields stored.method crc stored.payload.length entry.data.length nameBytes.length)
  let central ← writeAll (alloc 46)
    (centralFields stored.method crc stored.payload.length entry.data.length nameBytes.length
      writer.offset)
  some
    { localParts := writer.localParts ++ [localHeader, nameBytes, stored.payload]
      centralParts := writer.centralParts ++ [central, nameBytes]
      offset := writer.offset + localHeader.length + nameBytes.length + stored.payload.length }

/-- `createZipArchive`: nothing where it throws. -/
def createZipArchive (entries : List Entry) : Option (List UInt8) := do
  let writer ← entries.foldlM (addEntry deflateRawSync) ⟨[], [], 0⟩
  let centralSize := (writer.centralParts.map List.length).sum
  let last ← writeAll (alloc 22) (endFields entries.length centralSize writer.offset)
  some (writer.localParts ++ writer.centralParts ++ [last]).flatten

end

/-! ## A reader -/

/-- What both headers of an entry have of it. -/
structure Header where
  name : List UInt8
  method : ℕ
  crc : ℕ
  compressed : ℕ
  size : ℕ
  deriving DecidableEq

def uint16 (file : List UInt8) (position : ℕ) : ℕ := value (piece file position 2)

def uint32 (file : List UInt8) (position : ℕ) : ℕ := value (piece file position 4)

/-- A local entry: its header, the position of its payload, and where it ends. -/
structure LocalEntry where
  header : Header
  payload : List UInt8
  stop : ℕ

def readLocal (file : List UInt8) (start : ℕ) : Option LocalEntry :=
  let nameLength := uint16 file (start + 26)
  let extra := uint16 file (start + 28)
  let compressed := uint32 file (start + 18)
  let payload := start + 30 + nameLength + extra
  if uint32 file start = 0x04034b50 ∧ payload + compressed ≤ file.length then
    some
      { header :=
          { name := piece file (start + 30) nameLength
            method := uint16 file (start + 8)
            crc := uint32 file (start + 14)
            compressed
            size := uint32 file (start + 22) }
        payload := piece file payload compressed
        stop := payload + compressed }
  else none

/-- An entry of the central directory: its header, where its local entry starts, and where it
ends. -/
structure CentralEntry where
  header : Header
  offset : ℕ
  stop : ℕ

def readCentral (file : List UInt8) (start : ℕ) : Option CentralEntry :=
  let nameLength := uint16 file (start + 28)
  let extra := uint16 file (start + 30)
  let comment := uint16 file (start + 32)
  let stop := start + 46 + nameLength + extra + comment
  if uint32 file start = 0x02014b50 ∧ stop ≤ file.length then
    some
      { header :=
          { name := piece file (start + 46) nameLength
            method := uint16 file (start + 10)
            crc := uint32 file (start + 16)
            compressed := uint32 file (start + 20)
            size := uint32 file (start + 24) }
        offset := uint32 file (start + 42)
        stop }
  else none

/-- A name, from the octets of its scalar values. -/
def decodeName (bytes : List UInt8) : Option Text :=
  bytes.toByteArray.utf8Decode?.map fun chars => chars.toList.flatMap unitsOf

section

variable (inflateRaw : List UInt8 → Option (List UInt8))

/-- The data of a payload: stored, or compressed. -/
def decodePayload (method : ℕ) (payload : List UInt8) : Option (List UInt8) :=
  if method = 0 then some payload
  else if method = 8 then inflateRaw payload
  else none

/-- The entry at a position of the central directory, whose local entry has to start at the other
position. Its two headers agree, and its data have their length and their sum. -/
def readEntry (file : List UInt8) (central start : ℕ) : Option (Entry × ℕ × ℕ) := do
  let directory ← readCentral file central
  let here ← readLocal file directory.offset
  let name ← decodeName directory.header.name
  let data ← decodePayload inflateRaw directory.header.method here.payload
  if directory.offset = start ∧ here.header = directory.header ∧
      data.length = directory.header.size ∧
      (Crc.checksum 0xEDB88320 data).toNat = directory.header.crc then
    some ({ name, data }, directory.stop, here.stop)
  else none

/-- So many entries, each from where the one before it ended. -/
def readEntries (file : List UInt8) : ℕ → ℕ → ℕ → Option (List Entry × ℕ × ℕ)
  | 0, central, start => some ([], central, start)
  | count + 1, central, start => do
      let (entry, central, start) ← readEntry inflateRaw file central start
      let (entries, central, start) ← readEntries file count central start
      some (entry :: entries, central, start)

/-- The entries of an archive. The local entries start with the file, the central directory starts
where they end, and the end record where it ends; the file ends with the end record. -/
def readArchive (file : List UInt8) : Option (List Entry) := do
  let last := file.length - 22
  let count := uint16 file (last + 10)
  let centralSize := uint32 file (last + 12)
  let offset := uint32 file (last + 16)
  if 22 ≤ file.length ∧ uint32 file last = 0x06054b50 ∧ uint16 file (last + 8) = count ∧
      uint16 file (last + 20) = 0 ∧ offset + centralSize = last then do
    let (entries, central, start) ← readEntries inflateRaw file count offset 0
    if central = last ∧ start = offset then some entries else none
  else none

end

end Eveland.ZipArchive
