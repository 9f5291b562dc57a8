/-
# Archives decode to their entries

Every archive that the writer returns is read by the reader, which finds the entries in their order.
Numbers that have no room in their field make the writer throw, so that none of them wraps.

A name is held in UTF-8, in which a half of a surrogate pair on its own is the replacement character.
-/

import Eveland.Cli.ZipArchive

namespace Eveland.ZipArchive

open Js ByteRecords

/-! ## The sum of the data -/

/-- The table has what each octet adds. -/
theorem getD_CRC_TABLE {n : ℕ} (h : n < 256) :
    CRC_TABLE.getD n 0 = Crc.entry 0xEDB88320 (UInt32.ofNat n) := by
  rw [CRC_TABLE, List.getD_eq_getElem?_getD, List.getElem?_map, List.getElem?_range h,
    Option.map_some, Option.getD_some]
  rfl

theorem shiftRight_octet (byte : UInt8) : byte.toUInt32 >>> 8 = 0 := by
  rw [← UInt32.toNat_inj, UInt32.toNat_shiftRight, UInt8.toNat_toUInt32]
  have hlt := byte.toNat_lt
  exact Nat.shiftRight_eq_zero _ _ (by simpa using hlt)

/-- The sum is the cyclic redundancy check of the data. -/
theorem crc32_eq_checksum (data : List UInt8) : crc32 data = Crc.checksum 0xEDB88320 data := by
  have hstep : ∀ (crc : UInt32) (byte : UInt8),
      CRC_TABLE.getD ((crc ^^^ byte.toUInt32) &&& 0xFF).toNat 0 ^^^ (crc >>> 8) =
        Crc.absorb 0xEDB88320 crc byte := by
    intro crc byte
    have hlt : ((crc ^^^ byte.toUInt32) &&& 0xFF).toNat < 256 := by
      rw [UInt32.toNat_and]
      exact Nat.lt_of_le_of_lt Nat.and_le_right (by decide)
    rw [getD_CRC_TABLE hlt, UInt32.ofNat_toNat, Crc.absorb, Crc.iterate_shift_eq,
      UInt32.shiftRight_xor, shiftRight_octet, UInt32.xor_zero]
  rw [crc32, Crc.checksum]
  congr 2
  funext crc byte
  exact hstep crc byte

/-! ## Headers are read back -/

section

variable {file : List UInt8} {method crc compressed size offset : ℕ}

/-- A number of a record that a file holds. -/
theorem value_piece_holds {start position width : ℕ} {record : List UInt8}
    (h : Holds file start record) (hle : position + width ≤ record.length) :
    value (piece file (start + position) width) = value (piece record position width) := by
  rw [h.piece_add hle]

/-- The numbers of a record that a file holds, where none is written over another. -/
theorem value_holds {start : ℕ} {record written : List UInt8} {fields : List Field}
    (h : writeAll record fields = some written)
    (hapart : fields.Pairwise fun field later => Apart field.position field.width later)
    (hroom : ∀ field ∈ fields, field.position + field.width ≤ record.length)
    (hfile : Holds file start written) :
    ∀ field ∈ fields, value (piece file (start + field.position) field.width) = field.number := by
  intro field hfield
  have hlength := length_writeAll h
  have hle := hroom field hfield
  rw [value_piece_holds hfile (by omega), value_writeAll h hapart field hfield]

/-- A local entry is read back. -/
theorem readLocal_eq {start : ℕ} {header name payload : List UInt8}
    (h : writeAll (alloc 30) (localFields method crc payload.length size name.length) = some header)
    (hfile : Holds file start (header ++ (name ++ payload))) :
    readLocal file start =
      some ⟨⟨name, method, crc, payload.length, size⟩, payload,
        start + 30 + name.length + payload.length⟩ := by
  have hlength : header.length = 30 := length_writeAll h
  obtain ⟨hheader, hrest⟩ := holds_append_iff.mp hfile
  obtain ⟨hname, hpayload⟩ := holds_append_iff.mp hrest
  rw [hlength] at hname hpayload
  have hfield := value_holds h (by simp [localFields, Apart, writeUInt16LE, writeUInt32LE])
    (by simp [localFields, alloc, writeUInt16LE, writeUInt32LE]) hheader
  have hsignature : uint32 file start = 0x04034b50 :=
    hfield (writeUInt32LE 0x04034b50 0) (by simp [localFields])
  have hmethod : uint16 file (start + 8) = method :=
    hfield (writeUInt16LE method 8) (by simp [localFields])
  have hcrc : uint32 file (start + 14) = crc :=
    hfield (writeUInt32LE crc 14) (by simp [localFields])
  have hcompressed : uint32 file (start + 18) = payload.length :=
    hfield (writeUInt32LE payload.length 18) (by simp [localFields])
  have hsize : uint32 file (start + 22) = size :=
    hfield (writeUInt32LE size 22) (by simp [localFields])
  have hnameLength : uint16 file (start + 26) = name.length :=
    hfield (writeUInt16LE name.length 26) (by simp [localFields])
  have hextra : uint16 file (start + 28) = 0 :=
    hfield (writeUInt16LE 0 28) (by simp [localFields])
  have hend : start + 30 + name.length + payload.length ≤ file.length := by
    have hle := hfile.le_length (by
      rw [← List.length_pos_iff, List.length_append, hlength]
      omega)
    rw [List.length_append, List.length_append, hlength] at hle
    omega
  rw [readLocal]
  simp only [hsignature, hmethod, hcrc, hcompressed, hsize, hnameLength, hextra, Nat.add_zero,
    hname.piece_eq, hpayload.piece_eq, hend, and_self, if_true]

/-- An entry of the central directory is read back. Its lengths of further fields are the zeros of
the fresh record. -/
theorem readCentral_eq {start : ℕ} {header name : List UInt8} {compressed : ℕ}
    (h : writeAll (alloc 46) (centralFields method crc compressed size name.length offset) =
      some header) (hfile : Holds file start (header ++ name)) :
    readCentral file start =
      some ⟨⟨name, method, crc, compressed, size⟩, offset, start + 46 + name.length⟩ := by
  have hlength : header.length = 46 := length_writeAll h
  obtain ⟨hheader, hname⟩ := holds_append_iff.mp hfile
  rw [hlength] at hname
  have hfield := value_holds h (by simp [centralFields, Apart, writeUInt16LE, writeUInt32LE])
    (by simp [centralFields, alloc, writeUInt16LE, writeUInt32LE]) hheader
  have hzeros : ∀ position, position = 30 ∨ position = 32 → uint16 file (start + position) = 0 := by
    intro position hposition
    have hle : position + 2 ≤ header.length := by omega
    have hpiece : piece (alloc 46) position 2 = List.replicate 2 0 := by
      rcases hposition with rfl | rfl
      · rfl
      · rfl
    have hapart : ∀ field ∈ centralFields method crc compressed size name.length offset,
        Apart position 2 field := by
      rcases hposition with rfl | rfl
      · simp [centralFields, Apart, writeUInt16LE, writeUInt32LE]
      · simp [centralFields, Apart, writeUInt16LE, writeUInt32LE]
    rw [uint16, value_piece_holds hheader hle, piece_writeAll h hapart, hpiece,
      value_replicate_zero]
  have hsignature : uint32 file start = 0x02014b50 :=
    hfield (writeUInt32LE 0x02014b50 0) (by simp [centralFields])
  have hmethod : uint16 file (start + 10) = method :=
    hfield (writeUInt16LE method 10) (by simp [centralFields])
  have hcrc : uint32 file (start + 16) = crc :=
    hfield (writeUInt32LE crc 16) (by simp [centralFields])
  have hcompressed : uint32 file (start + 20) = compressed :=
    hfield (writeUInt32LE compressed 20) (by simp [centralFields])
  have hsize : uint32 file (start + 24) = size :=
    hfield (writeUInt32LE size 24) (by simp [centralFields])
  have hnameLength : uint16 file (start + 28) = name.length :=
    hfield (writeUInt16LE name.length 28) (by simp [centralFields])
  have hoffset : uint32 file (start + 42) = offset :=
    hfield (writeUInt32LE offset 42) (by simp [centralFields])
  have hend : start + 46 + name.length ≤ file.length := by
    have hle := hfile.le_length (by
      rw [← List.length_pos_iff, List.length_append, hlength]
      omega)
    rw [List.length_append, hlength] at hle
    omega
  rw [readCentral]
  simp only [hsignature, hmethod, hcrc, hcompressed, hsize, hnameLength, hzeros 30 (.inl rfl),
    hzeros 32 (.inr rfl), hoffset, Nat.add_zero, hname.piece_eq, hend, and_self, if_true]

end

/-! ## Entries are read back -/

/-- A name as UTF-8 holds it: a half of a surrogate pair on its own is the replacement character. -/
def toWellFormed (name : Text) : Text := (scalars name).flatMap unitsOf

/-- An entry with its name as UTF-8 holds it. -/
def Entry.held (entry : Entry) : Entry := { entry with name := toWellFormed entry.name }

theorem decodeName_encodeUtf8 (name : Text) :
    decodeName (encodeUtf8 name) = some (toWellFormed name) := by
  have hchars : (encodeUtf8 name).toByteArray.utf8Decode? = some (scalars name).toArray :=
    List.utf8Decode?_utf8Encode
  rw [decodeName, hchars]
  rfl

section

variable {deflateRawSync : List UInt8 → List UInt8}
    {inflateRaw : List UInt8 → Option (List UInt8)}

/-- What is stored of the data decodes to them. -/
theorem decodePayload_store (h : ∀ data, inflateRaw (deflateRawSync data) = some data)
    (data : List UInt8) :
    decodePayload inflateRaw (store deflateRawSync data).method
      (store deflateRawSync data).payload = some data := by
  rw [store]
  split_ifs
  · exact h data
  · rfl

/-- One turn of the loop adds a local entry and an entry of the central directory, and a file that
holds both has the entry. -/
theorem addEntry_spec (inflateRaw : List UInt8 → Option (List UInt8)) {writer next : Writer}
    {entry : Entry}
    (h : addEntry deflateRawSync writer entry = some next) :
    ∃ here directory,
      next.localParts.flatten = writer.localParts.flatten ++ here ∧
      next.centralParts.flatten = writer.centralParts.flatten ++ directory ∧
      next.offset = writer.offset + here.length ∧
      ((∀ data, inflateRaw (deflateRawSync data) = some data) → ∀ file central,
        Holds file central directory → Holds file writer.offset here →
          readEntry inflateRaw file central writer.offset =
            some (entry.held, central + directory.length, writer.offset + here.length)) := by
  rw [addEntry] at h
  obtain ⟨header, hheader, h⟩ := Option.bind_eq_some_iff.mp h
  obtain ⟨centralHeader, hcentral, h⟩ := Option.bind_eq_some_iff.mp h
  cases h
  have hlength : header.length = 30 := length_writeAll hheader
  have hcentralLength : centralHeader.length = 46 := length_writeAll hcentral
  refine ⟨header ++ (encodeUtf8 entry.name ++ (store deflateRawSync entry.data).payload),
    centralHeader ++ encodeUtf8 entry.name, ?_, ?_, ?_, ?_⟩
  · simp
  · simp
  · simp only [List.length_append]
    omega
  · intro hinflate file central hdirectory hhere
    rw [readEntry, readCentral_eq hcentral hdirectory]
    simp only [Option.bind_eq_bind, Option.bind_some, readLocal_eq hheader hhere,
      decodeName_encodeUtf8, decodePayload_store hinflate, ← crc32_eq_checksum, and_self,
      if_true, List.length_append, hlength, hcentralLength, ← Nat.add_assoc]
    rfl

/-- The loop adds local entries and a central directory, and a file that holds both has the entries.
-/
theorem entries_spec (inflateRaw : List UInt8 → Option (List UInt8)) {entries : List Entry}
    {writer last : Writer}
    (h : entries.foldlM (addEntry deflateRawSync) writer = some last) :
    ∃ here directory,
      last.localParts.flatten = writer.localParts.flatten ++ here ∧
      last.centralParts.flatten = writer.centralParts.flatten ++ directory ∧
      last.offset = writer.offset + here.length ∧
      ((∀ data, inflateRaw (deflateRawSync data) = some data) → ∀ file central,
        Holds file central directory → Holds file writer.offset here →
          readEntries inflateRaw file entries.length central writer.offset =
            some (entries.map Entry.held, central + directory.length,
              writer.offset + here.length)) := by
  induction entries generalizing writer with
  | nil =>
      cases h
      exact ⟨[], [], by simp, by simp, by simp, fun _ file central _ _ => rfl⟩
  | cons entry rest ih =>
      obtain ⟨next, hnext, hrest⟩ := Option.bind_eq_some_iff.mp h
      obtain ⟨here, directory, hlocal, hcentral, hoffset, hread⟩ :=
        addEntry_spec inflateRaw hnext
      obtain ⟨heres, directories, hlocals, hcentrals, hoffsets, hreads⟩ := ih hrest
      refine ⟨here ++ heres, directory ++ directories, ?_, ?_, ?_, ?_⟩
      · rw [hlocals, hlocal, List.append_assoc]
      · rw [hcentrals, hcentral, List.append_assoc]
      · rw [hoffsets, hoffset, List.length_append, Nat.add_assoc]
      · intro hinflate file central hdirectory hhere
        obtain ⟨hfirst, hlater⟩ := holds_append_iff.mp hdirectory
        obtain ⟨hstart, hafter⟩ := holds_append_iff.mp hhere
        rw [← hoffset] at hafter
        rw [List.length_cons, readEntries, hread hinflate file central hfirst hstart]
        simp only [Option.bind_eq_bind, Option.bind_some]
        rw [← hoffset, hreads hinflate file _ hlater hafter, List.length_append, List.length_append,
          hoffset, Nat.add_assoc, Nat.add_assoc, List.map_cons]
        rfl

/-- The end record is read back. -/
theorem endRecord_eq {file last : List UInt8} {start count centralSize offset : ℕ}
    (h : writeAll (alloc 22) (endFields count centralSize offset) = some last)
    (hfile : Holds file start last) :
    uint32 file start = 0x06054b50 ∧ uint16 file (start + 8) = count ∧
      uint16 file (start + 10) = count ∧ uint32 file (start + 12) = centralSize ∧
      uint32 file (start + 16) = offset ∧ uint16 file (start + 20) = 0 := by
  have hlength : last.length = 22 := length_writeAll h
  have hfield := value_holds h (by simp [endFields, Apart, writeUInt16LE, writeUInt32LE])
    (by simp [endFields, alloc, writeUInt16LE, writeUInt32LE]) hfile
  refine ⟨hfield (writeUInt32LE 0x06054b50 0) (by simp [endFields]),
    hfield (writeUInt16LE count 8) (by simp [endFields]),
    hfield (writeUInt16LE count 10) (by simp [endFields]),
    hfield (writeUInt32LE centralSize 12) (by simp [endFields]),
    hfield (writeUInt32LE offset 16) (by simp [endFields]), ?_⟩
  have hpiece : piece (alloc 22) 20 2 = List.replicate 2 0 := rfl
  have hapart : ∀ field ∈ endFields count centralSize offset, Apart 20 2 field := by
    simp [endFields, Apart, writeUInt16LE, writeUInt32LE]
  rw [uint16, value_piece_holds hfile (by omega), piece_writeAll h hapart, hpiece,
    value_replicate_zero]

/-- **Archives.** The reader finds the entries in an archive. -/
theorem readArchive_eq (hinflate : ∀ data, inflateRaw (deflateRawSync data) = some data)
    {entries : List Entry} {archive : List UInt8}
    (h : createZipArchive deflateRawSync entries = some archive) :
    readArchive inflateRaw archive = some (entries.map Entry.held) := by
  rw [createZipArchive] at h
  obtain ⟨writer, hwriter, h⟩ := Option.bind_eq_some_iff.mp h
  obtain ⟨last, hlast, h⟩ := Option.bind_eq_some_iff.mp h
  obtain ⟨here, directory, hlocal, hcentral, hoffset, hread⟩ :=
    entries_spec inflateRaw hwriter
  have harchive : archive = here ++ (directory ++ last) := by
    cases h
    simp only [List.flatten_append, hlocal, hcentral, List.append_assoc]
    simp
  have hlength : last.length = 22 := length_writeAll hlast
  have hsize : (writer.centralParts.map List.length).sum = directory.length := by
    rw [← List.length_flatten, hcentral]
    simp
  have hholds : Holds archive 0 (here ++ (directory ++ last)) := by
    rw [harchive]
    exact holds_self _
  obtain ⟨hhere, hrest⟩ := holds_append_iff.mp hholds
  obtain ⟨hdirectory, hend⟩ := holds_append_iff.mp hrest
  rw [Nat.zero_add] at hdirectory hend hoffset
  rw [hsize, hoffset] at hlast
  obtain ⟨hsignature, hcount, hentries, hcentralSize, hstart, hcomment⟩ :=
    endRecord_eq hlast hend
  have hposition : archive.length - 22 = here.length + directory.length := by
    rw [harchive, List.length_append, List.length_append, hlength]
    omega
  have hle : 22 ≤ archive.length := by
    rw [harchive, List.length_append, List.length_append, hlength]
    omega
  have hfound := hread hinflate archive here.length hdirectory hhere
  rw [readArchive]
  simp only [hposition, hsignature, hcount, hentries, hcentralSize, hstart, hcomment, hle, and_self,
    if_true, hfound, Option.bind_eq_bind, Option.bind_some, Nat.zero_add]

/-- A name without halves of surrogate pairs on their own is held as it is. -/
theorem held_eq_self {entry : Entry} (h : Paired entry.name) : entry.held = entry := by
  rw [Entry.held, toWellFormed, h.flatMap_scalars]

end

/-- A compressor that gives for no data what the real one gives. -/
def markedDeflate (data : List UInt8) : List UInt8 := if data = [] then [3, 0] else 1 :: data

/-- What undoes it. -/
def markedInflate (bytes : List UInt8) : Option (List UInt8) :=
  if bytes = [3, 0] then some [] else some bytes.tail

theorem markedInflate_markedDeflate (data : List UInt8) :
    markedInflate (markedDeflate data) = some data := by
  cases data with
  | nil => rfl
  | cons byte rest => simp [markedDeflate, markedInflate]

/-- An empty file of that name. -/
def emptyFile (name : Text) : Entry := ⟨name, []⟩

end Eveland.ZipArchive
