import Kumiko.Library.ByteBuffers
import Kumiko.Library.Crc
import Kumiko.Library.Utf8Text
import Mathlib.Data.List.Forall2

/-!
# Writing a ZIP archive

`files/zip-stream.ts`: each body is written behind its local header, then the central directory and the end
record. A number goes into its field modulo the width (`ByteBuffers.getNumber_putNumber`). Each header of the
directory names the place of its local part (`ZipWritten`), and the checksum by table is the one by shift
register (`crc32_eq`).
-/

namespace Kumiko

open ByteBuffers Utf8Text

abbrev Uint8Array := List UInt8

def setUint16 (view : Uint8Array) (byteOffset value : ℕ) : Uint8Array := putNumber view byteOffset 2 value

def setUint32 (view : Uint8Array) (byteOffset value : ℕ) : Uint8Array := putNumber view byteOffset 4 value

/-! ## The time of an entry -/

/-- What `toZonedDateTimeISO("UTC")` says of an instant. -/
structure UtcDateTime where
  year : ℤ
  month : ℕ
  day : ℕ
  hour : ℕ
  minute : ℕ
  second : ℕ

structure DosTime where
  date : ℕ
  time : ℕ

/-- Reference: `toDosTime`. -/
def toDosTime (dt : UtcDateTime) : DosTime where
  date := ((max (dt.year - 1980) 0).toNat &&& 0x7f) <<< 9 ||| (dt.month &&& 0x0f) <<< 5 ||| (dt.day &&& 0x1f)
  time := (dt.hour &&& 0x1f) <<< 11 ||| (dt.minute &&& 0x3f) <<< 5 ||| (dt.second >>> 1 &&& 0x1f)

/-! ## The body and its checksum -/

/-- Reference: `collectBody`. -/
def collectBody (source : List Uint8Array) : Uint8Array :=
  let total := source.foldl (fun total chunk => total + chunk.length) 0
  (source.foldl (fun (s : Uint8Array × ℕ) chunk => (put s.1 s.2 chunk, s.2 + chunk.length)) (List.replicate total 0, 0)).1

/-- The reflected polynomial of IEEE 802.3. -/
def crcPolynomial : BitVec 32 := 0xedb88320

/-- Reference: `buildCrcTable`. -/
def buildCrcTable : List (BitVec 32) := (List.range 256).map fun i => (Crc.step crcPolynomial)^[8] (BitVec.ofNat 32 i)

/-- One byte of the loop. Reference: `crc32`. -/
def crcByte (table : List (BitVec 32)) (crc : BitVec 32) (byte : UInt8) : BitVec 32 :=
  let idx := (crc ^^^ BitVec.ofNat 32 byte.toNat) &&& 0xff
  table[idx.toNat]?.getD 0 ^^^ crc >>> 8

/-- Reference: `crc32`. -/
def crc32 (data : Uint8Array) : ℕ := (data.foldl (crcByte buildCrcTable) 0xffffffff ^^^ 0xffffffff).toNat

/-- The bits of a byte, the lowest first. -/
def bitsOf (byte : UInt8) : List Bool := (List.range 8).map byte.toNat.testBit

/-- The CRC-32 of the ZIP format: the bits of the message enter a register of ones, which is inverted at the end. -/
def messageCrc32 (data : Uint8Array) : ℕ :=
  ((data.flatMap bitsOf).foldl (Crc.shiftIn crcPolynomial) (BitVec.allOnes 32) ^^^ BitVec.allOnes 32).toNat

/-! ## The headers -/

/-- Reference: `LOCAL_FILE_HEADER_SIG`. -/
def localFileHeaderSig : ℕ := 0x04034b50

/-- Reference: `CENTRAL_DIR_HEADER_SIG`, `CENTRAL_HEADER_SIGNATURE`. -/
def centralDirHeaderSig : ℕ := 0x02014b50

/-- Reference: `EOCD_SIG`, `EOCD_SIGNATURE`. -/
def eocdSig : ℕ := 0x06054b50

/-- Reference: `ZIP_VERSION_NEEDED`. -/
def zipVersionNeeded : ℕ := 20

/-- Reference: `ZIP_METHOD_STORE`. -/
def zipMethodStore : ℕ := 0

/-- Reference: `VERSION_MADE_BY`. -/
def versionMadeBy : ℕ := 0x031e

/-- Reference: `GENERAL_PURPOSE_FLAGS`. -/
def generalPurposeFlags : ℕ := 0x0800

/-- Reference: `UNIX_REGULAR_FILE_0644`, as the field holds it. -/
def unixRegularFile0644 : ℕ := 0o100644 <<< 16

/-- Reference: `ZIP_MAX_ENTRY_SIZE`. -/
def zipMaxEntrySize : ℕ := 0xffffffff

/-- Reference: `ZIP_MAX_ENTRIES`. -/
def zipMaxEntries : ℕ := 0xffff

/-- Reference: `lfh` in `createZipStream`. -/
def localFileHeader (filenameBytes : Uint8Array) (dosTime : DosTime) (crc size : ℕ) : Uint8Array :=
  let lfh := List.replicate (30 + filenameBytes.length) 0
  let lfh := setUint32 lfh 0 localFileHeaderSig
  let lfh := setUint16 lfh 4 zipVersionNeeded
  let lfh := setUint16 lfh 6 generalPurposeFlags
  let lfh := setUint16 lfh 8 zipMethodStore
  let lfh := setUint16 lfh 10 dosTime.time
  let lfh := setUint16 lfh 12 dosTime.date
  let lfh := setUint32 lfh 14 crc
  let lfh := setUint32 lfh 18 size
  let lfh := setUint32 lfh 22 size
  let lfh := setUint16 lfh 26 filenameBytes.length
  let lfh := setUint16 lfh 28 0
  put lfh 30 filenameBytes

/-- Reference: `cdh` in `createZipStream`. -/
def centralDirHeader (filenameBytes : Uint8Array) (dosTime : DosTime) (crc size offset : ℕ) : Uint8Array :=
  let cdh := List.replicate (46 + filenameBytes.length) 0
  let cdh := setUint32 cdh 0 centralDirHeaderSig
  let cdh := setUint16 cdh 4 versionMadeBy
  let cdh := setUint16 cdh 6 zipVersionNeeded
  let cdh := setUint16 cdh 8 generalPurposeFlags
  let cdh := setUint16 cdh 10 zipMethodStore
  let cdh := setUint16 cdh 12 dosTime.time
  let cdh := setUint16 cdh 14 dosTime.date
  let cdh := setUint32 cdh 16 crc
  let cdh := setUint32 cdh 20 size
  let cdh := setUint32 cdh 24 size
  let cdh := setUint16 cdh 28 filenameBytes.length
  let cdh := setUint16 cdh 30 0
  let cdh := setUint16 cdh 32 0
  let cdh := setUint16 cdh 34 0
  let cdh := setUint16 cdh 36 0
  let cdh := setUint32 cdh 38 unixRegularFile0644
  let cdh := setUint32 cdh 42 offset
  put cdh 46 filenameBytes

/-- Reference: `eocd` in `createZipStream`. -/
def endOfCentralDir (entries centralDirSize centralDirStart : ℕ) : Uint8Array :=
  let eocd := List.replicate 22 0
  let eocd := setUint32 eocd 0 eocdSig
  let eocd := setUint16 eocd 4 0
  let eocd := setUint16 eocd 6 0
  let eocd := setUint16 eocd 8 entries
  let eocd := setUint16 eocd 10 entries
  let eocd := setUint32 eocd 12 centralDirSize
  let eocd := setUint32 eocd 16 centralDirStart
  setUint16 eocd 20 0

/-! ## The stream -/

/-- An entry with the chunks of its body. Reference: `ZipEntry`. -/
structure ZipEntry where
  path : String
  data : List Uint8Array
  mtime : Option UtcDateTime := none

/-- What the loop over the entries has yielded and keeps. -/
structure ZipState where
  chunks : List Uint8Array
  centralDirRecords : List Uint8Array
  offset : ℕ

/-- One entry; `now` is what the clock says when the `n`-th entry is written. Reference: `createZipStream`. -/
def writeEntry (now : ℕ → UtcDateTime) (s : ZipState) (entry : ZipEntry) : Except String ZipState :=
  let body := collectBody entry.data
  if body.length > zipMaxEntrySize then
    .error ("ZIP-Entry \"" ++ entry.path ++ "\" exceeds 4 GB limit (" ++ toString body.length ++ " bytes). " ++
      "STORE-mode without ZIP64-extension caps at uint32. " ++
      "Add ZIP64-support before exporting >4 GB single-files.")
  else if s.centralDirRecords.length ≥ zipMaxEntries then
    .error ("ZIP archive exceeds " ++ toString zipMaxEntries ++ "-entry limit. " ++
      "Add ZIP64-support before exporting >" ++ toString zipMaxEntries ++ " entries.")
  else
    let crc := crc32 body
    let size := body.length
    let filenameBytes := encode entry.path.toList
    let dosTime := toDosTime (entry.mtime.getD (now s.centralDirRecords.length))
    let lfh := localFileHeader filenameBytes dosTime crc size
    .ok {
      chunks := s.chunks ++ [lfh, body]
      centralDirRecords := s.centralDirRecords ++ [centralDirHeader filenameBytes dosTime crc size s.offset]
      offset := s.offset + lfh.length + body.length }

/-- The chunks of the archive, or the error the stream ends with. Reference: `createZipStream`. -/
def createZipStream (now : ℕ → UtcDateTime) (entries : List ZipEntry) : Except String (List Uint8Array) := do
  let s ← entries.foldlM (writeEntry now) ⟨[], [], 0⟩
  let centralDirSize := s.centralDirRecords.foldl (fun size record => size + record.length) 0
  return s.chunks ++ s.centralDirRecords ++ [endOfCentralDir s.centralDirRecords.length centralDirSize s.offset]

/-! ## The body and its checksum, again -/

theorem foldl_length_add (source : List Uint8Array) (n : ℕ) :
    source.foldl (fun total chunk => total + chunk.length) n = n + source.flatten.length := by
  induction source generalizing n with
  | nil => rfl
  | cons chunk source ih =>
    rw [List.foldl_cons, ih, List.flatten_cons, List.length_append]
    omega

/-- The chunks that are copied stand at the start of the buffer. -/
theorem take_foldl_put (source : List Uint8Array) {buf : Uint8Array} {off : ℕ} (h : off + source.flatten.length ≤ buf.length) :
    ((source.foldl (fun (s : Uint8Array × ℕ) chunk => (put s.1 s.2 chunk, s.2 + chunk.length)) (buf, off)).1).take
      (off + source.flatten.length) = buf.take off ++ source.flatten ∧
    ((source.foldl (fun (s : Uint8Array × ℕ) chunk => (put s.1 s.2 chunk, s.2 + chunk.length)) (buf, off)).1).length =
      buf.length := by
  induction source generalizing buf off with
  | nil => simp
  | cons chunk source ih =>
    rw [List.flatten_cons, List.length_append] at h ⊢
    rw [List.foldl_cons, ← Nat.add_assoc]
    obtain ⟨htake, hlen⟩ := ih (by rw [length_put]; omega : off + chunk.length + source.flatten.length ≤
      (put buf off chunk).length)
    refine ⟨htake.trans ?_, hlen.trans length_put⟩
    rw [take_put (by omega), List.append_assoc]

/-- A body is its chunks, however it is cut. -/
theorem collectBody_eq (source : List Uint8Array) : collectBody source = source.flatten := by
  have htotal := foldl_length_add source 0
  rw [Nat.zero_add] at htotal
  obtain ⟨htake, hlen⟩ := take_foldl_put source
    (show 0 + source.flatten.length ≤ (List.replicate source.flatten.length (0 : UInt8)).length by simp)
  rw [List.length_replicate] at hlen
  rw [List.take_zero, List.nil_append, Nat.zero_add, List.take_of_length_le hlen.le] at htake
  dsimp only [collectBody]
  rw [htotal]
  exact htake

theorem ofBits_bitsOf (byte : UInt8) : Crc.ofBits 32 (bitsOf byte) = BitVec.ofNat 32 byte.toNat := by
  refine BitVec.eq_of_getLsbD_eq fun i hi => ?_
  rw [Crc.getLsbD_ofBits, BitVec.getLsbD_ofNat, bitsOf, List.getElem?_map]
  by_cases h8 : i < 8
  · simp [h8]
  · have hbyte : byte.toNat < 2 ^ i := by
      calc byte.toNat < 2 ^ 8 := byte.toNat_lt
        _ ≤ 2 ^ i := Nat.pow_le_pow_right (by decide) (by omega)
    rw [List.getElem?_eq_none (by simpa using h8), Nat.testBit_lt_two_pow hbyte]
    rfl

/-- A table's entry and the register moved down are the eight steps of a byte. -/
theorem crcByte_eq (crc : BitVec 32) (byte : UInt8) :
    crcByte buildCrcTable crc byte = (bitsOf byte).foldl (Crc.shiftIn crcPolynomial) crc := by
  rw [Crc.foldl_shiftIn (show (bitsOf byte).length ≤ 32 by simp [bitsOf]), ofBits_bitsOf]
  generalize hx : crc ^^^ BitVec.ofNat 32 byte.toNat = x
  have hidx : (x &&& 0xff).toNat < 256 := by
    rw [BitVec.toNat_and]
    exact Nat.lt_of_le_of_lt Nat.and_le_right (by decide)
  have hentry : buildCrcTable[(x &&& 0xff).toNat]? = some ((Crc.step crcPolynomial)^[8] (x &&& 0xff)) := by
    rw [buildCrcTable, List.getElem?_map, List.getElem?_range hidx, Option.map_some, BitVec.ofNat_toNat,
      BitVec.setWidth_eq]
  have hbyte : BitVec.ofNat 32 byte.toNat >>> 8 = 0#32 := by
    refine BitVec.eq_of_toNat_eq ?_
    have := byte.toNat_lt
    simp only [BitVec.toNat_ushiftRight, BitVec.toNat_ofNat, Nat.shiftRight_eq_div_pow]
    omega
  have hshift : x >>> 8 = crc >>> 8 := by
    rw [← hx, BitVec.ushiftRight_xor_distrib, hbyte, BitVec.xor_zero]
  have hstep : (Crc.step crcPolynomial)^[8] x = (Crc.step crcPolynomial)^[8] (x &&& 0xff) ^^^ x >>> 8 :=
    Crc.iterate_step
  dsimp only [crcByte]
  rw [hx, hentry, Option.getD_some, show (bitsOf byte).length = 8 by simp [bitsOf], hstep, hshift]

theorem crc32_eq (data : Uint8Array) : crc32 data = messageCrc32 data := by
  have hfold : ∀ crc : BitVec 32, data.foldl (crcByte buildCrcTable) crc =
      (data.flatMap bitsOf).foldl (Crc.shiftIn crcPolynomial) crc := by
    intro crc
    induction data generalizing crc with
    | nil => rfl
    | cons byte data ih => rw [List.foldl_cons, List.flatMap_cons, List.foldl_append, crcByte_eq, ih]
  rw [crc32, hfold]
  rfl

theorem messageCrc32_lt (data : Uint8Array) : messageCrc32 data < 2 ^ 32 := BitVec.isLt _

/-! ## What the headers hold -/

section
variable {filenameBytes : Uint8Array} {dosTime : DosTime} {crc size offset entries centralDirSize centralDirStart : ℕ}

@[simp] theorem length_localFileHeader :
    (localFileHeader filenameBytes dosTime crc size).length = 30 + filenameBytes.length := by
  simp [localFileHeader, setUint16, setUint32]

@[simp] theorem length_centralDirHeader :
    (centralDirHeader filenameBytes dosTime crc size offset).length = 46 + filenameBytes.length := by
  simp [centralDirHeader, setUint16, setUint32]

@[simp] theorem length_endOfCentralDir :
    (endOfCentralDir entries centralDirSize centralDirStart).length = 22 := by
  simp [endOfCentralDir, setUint16, setUint32]

/-- The fields of a local header, each modulo its width. -/
theorem localFileHeader_fields {lfh : Uint8Array} (h : lfh = localFileHeader filenameBytes dosTime crc size) :
    getNumber lfh 0 4 = some localFileHeaderSig ∧ getNumber lfh 14 4 = some (crc % 2 ^ 32) ∧
    getNumber lfh 18 4 = some (size % 2 ^ 32) ∧ getNumber lfh 22 4 = some (size % 2 ^ 32) ∧
    getNumber lfh 26 2 = some (filenameBytes.length % 2 ^ 16) ∧ getNumber lfh 28 2 = some 0 ∧
    slice? lfh 30 filenameBytes.length = some filenameBytes := by
  simp only [h, localFileHeader, setUint16, setUint32]
  refine ⟨?_, ?_, ?_, ?_, ?_, ?_, slice?_put (by simp)⟩
  all_goals
    simp (disch := first | omega | (simp only [length_putNumber, List.length_replicate]; omega)) only
      [getNumber_put_of_le, getNumber_putNumber_of_le, getNumber_putNumber]
    rfl

/-- The fields of a header of the directory. -/
theorem centralDirHeader_fields {cdh : Uint8Array} (h : cdh = centralDirHeader filenameBytes dosTime crc size offset) :
    getNumber cdh 0 4 = some centralDirHeaderSig ∧ getNumber cdh 16 4 = some (crc % 2 ^ 32) ∧
    getNumber cdh 20 4 = some (size % 2 ^ 32) ∧ getNumber cdh 24 4 = some (size % 2 ^ 32) ∧
    getNumber cdh 28 2 = some (filenameBytes.length % 2 ^ 16) ∧ getNumber cdh 30 2 = some 0 ∧
    getNumber cdh 32 2 = some 0 ∧ getNumber cdh 42 4 = some (offset % 2 ^ 32) ∧
    slice? cdh 46 filenameBytes.length = some filenameBytes := by
  simp only [h, centralDirHeader, setUint16, setUint32]
  refine ⟨?_, ?_, ?_, ?_, ?_, ?_, ?_, ?_, slice?_put (by simp)⟩
  all_goals
    simp (disch := first | omega | (simp only [length_putNumber, List.length_replicate]; omega)) only
      [getNumber_put_of_le, getNumber_putNumber_of_le, getNumber_putNumber]
    rfl

/-- The fields of the end record that a reader needs. -/
theorem endOfCentralDir_fields {eocd : Uint8Array} (h : eocd = endOfCentralDir entries centralDirSize centralDirStart) :
    getNumber eocd 0 4 = some eocdSig ∧ getNumber eocd 8 2 = some (entries % 2 ^ 16) ∧
    getNumber eocd 10 2 = some (entries % 2 ^ 16) ∧ getNumber eocd 12 4 = some (centralDirSize % 2 ^ 32) ∧
    getNumber eocd 16 4 = some (centralDirStart % 2 ^ 32) ∧ getNumber eocd 20 2 = some 0 := by
  simp only [h, endOfCentralDir, setUint16, setUint32]
  refine ⟨?_, ?_, ?_, ?_, ?_, ?_⟩
  all_goals
    simp (disch := first | omega | (simp only [length_putNumber, List.length_replicate]; omega)) only
      [getNumber_putNumber_of_le, getNumber_putNumber]
    rfl

end

/-! ## What a run has written -/

namespace ZipEntry

/-- The name as the headers hold it. -/
def filenameBytes (entry : ZipEntry) : Uint8Array := encode entry.path.toList

/-- The body, however it is cut into chunks. -/
def body (entry : ZipEntry) : Uint8Array := entry.data.flatten

/-- The bytes that an entry takes before the directory. -/
def localLength (entry : ZipEntry) : ℕ := 30 + entry.filenameBytes.length + entry.body.length

/-- The local header and the body. -/
def localPart (entry : ZipEntry) (dosTime : DosTime) : Uint8Array :=
  localFileHeader entry.filenameBytes dosTime (messageCrc32 entry.body) entry.body.length ++ entry.body

end ZipEntry

/-- The bytes before the directory. -/
def localLength (entries : List ZipEntry) : ℕ := (entries.map ZipEntry.localLength).sum

/-- The record names the place of the entry's local part in what is written. -/
def ZipRecorded (written : Uint8Array) (entry : ZipEntry) (record : Uint8Array) : Prop :=
  ∃ dosTime front back, written = front ++ entry.localPart dosTime ++ back ∧
    record = centralDirHeader entry.filenameBytes dosTime (messageCrc32 entry.body) entry.body.length front.length

/-- What the loop has done with the entries. -/
structure ZipWritten (entries : List ZipEntry) (s : ZipState) : Prop where
  offset : s.offset = s.chunks.flatten.length
  length : s.chunks.flatten.length = localLength entries
  records : List.Forall₂ (ZipRecorded s.chunks.flatten) entries s.centralDirRecords
  count : entries.length ≤ zipMaxEntries
  sizes : ∀ entry ∈ entries, entry.body.length ≤ zipMaxEntrySize

variable {now : ℕ → UtcDateTime} {entries : List ZipEntry} {entry : ZipEntry} {s s' : ZipState}
  {written more record : Uint8Array} {dosTime : DosTime}

@[simp] theorem ZipEntry.length_localPart : (entry.localPart dosTime).length = entry.localLength := by
  simp [localPart, ZipEntry.localLength]

theorem ZipRecorded.append (h : ZipRecorded written entry record) : ZipRecorded (written ++ more) entry record := by
  obtain ⟨dosTime, front, back, rfl, hrecord⟩ := h
  exact ⟨dosTime, front, back ++ more, by rw [List.append_assoc], hrecord⟩

theorem ZipWritten.writeEntry (h : ZipWritten entries s) (hwrite : writeEntry now s entry = .ok s') :
    ZipWritten (entries ++ [entry]) s' := by
  unfold Kumiko.writeEntry at hwrite
  simp only [collectBody_eq, crc32_eq] at hwrite
  split at hwrite
  · cases hwrite
  split at hwrite
  · cases hwrite
  rename_i hsize hcount
  cases hwrite
  -- what is yielded for the entry
  have hwritten : (s.chunks ++ [localFileHeader entry.filenameBytes
      (toDosTime (entry.mtime.getD (now s.centralDirRecords.length))) (messageCrc32 entry.body) entry.body.length,
      entry.body]).flatten = s.chunks.flatten ++
        entry.localPart (toDosTime (entry.mtime.getD (now s.centralDirRecords.length))) := by
    rw [List.flatten_append, List.flatten_cons, List.flatten_singleton]
    rfl
  have hrecords := h.records.length_eq
  refine ⟨?_, ?_, ?_, ?_, ?_⟩
  · refine Eq.trans ?_ (congrArg List.length hwritten).symm
    rw [List.length_append, ZipEntry.length_localPart, length_localFileHeader, h.offset]
    exact Nat.add_assoc _ _ _
  · refine (congrArg List.length hwritten).trans ?_
    rw [List.length_append, ZipEntry.length_localPart, h.length, localLength, localLength, List.map_append,
      List.sum_append]
    simp
  · refine (congrArg (fun w => List.Forall₂ (ZipRecorded w) _ _) hwritten).mpr ?_
    refine List.rel_append (h.records.imp fun _ _ hr => hr.append) (.cons ?_ .nil)
    exact ⟨_, s.chunks.flatten, [], (List.append_nil _).symm, by rw [h.offset]; rfl⟩
  · rw [List.length_append, List.length_singleton]
    omega
  · intro e he
    rcases List.mem_append.1 he with he | he
    · exact h.sizes e he
    · obtain rfl := List.mem_singleton.1 he
      exact not_lt.1 hsize

theorem ZipWritten.foldlM (done : List ZipEntry) (h : ZipWritten done s) (entries : List ZipEntry)
    (hrun : entries.foldlM (Kumiko.writeEntry now) s = .ok s') : ZipWritten (done ++ entries) s' := by
  induction entries generalizing done s with
  | nil =>
    cases hrun
    rwa [List.append_nil]
  | cons entry entries ih =>
    rw [List.foldlM_cons] at hrun
    cases hwrite : Kumiko.writeEntry now s entry with
    | error e =>
      rw [hwrite] at hrun
      cases hrun
    | ok s₁ =>
      rw [hwrite] at hrun
      have := ih (done ++ [entry]) (h.writeEntry hwrite) hrun
      rwa [List.append_assoc] at this

/-- The archive is what is written of the entries, the directory and the end record. -/
theorem written_of_createZipStream {chunks : List Uint8Array} (h : createZipStream now entries = .ok chunks) :
    ∃ s, ZipWritten entries s ∧ chunks.flatten = s.chunks.flatten ++ s.centralDirRecords.flatten ++
      endOfCentralDir entries.length s.centralDirRecords.flatten.length s.chunks.flatten.length := by
  unfold createZipStream at h
  cases hrun : entries.foldlM (writeEntry now) ⟨[], [], 0⟩ with
  | error e =>
    rw [hrun] at h
    cases h
  | ok s =>
    rw [hrun] at h
    have hwritten := ZipWritten.foldlM [] ⟨rfl, rfl, .nil, Nat.zero_le _, fun e he => by cases he⟩ entries hrun
    rw [List.nil_append] at hwritten
    obtain rfl := Except.ok.inj h
    refine ⟨s, hwritten, ?_⟩
    rw [List.flatten_append, List.flatten_append, List.flatten_singleton, foldl_length_add, Nat.zero_add,
      hwritten.offset, hwritten.records.length_eq]

end Kumiko
