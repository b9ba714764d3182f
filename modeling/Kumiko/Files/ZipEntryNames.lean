import Kumiko.Files.ZipStream

/-!
# Reading a ZIP archive

`files/zip-entry-names.ts`: the end record is looked for from the back, and the names are read from the
directory it points at; every field that is read lies in the buffer (`exists_readZipEntryNames`). A reader of
the whole format follows each header to its local part too. Both read an archive back exactly while no field is
too small for its number and no path starts with a byte order mark (`zip_roundTrips_iff`).
-/

namespace Kumiko

open ByteBuffers Utf8Text

/-! ## The names of an archive -/

/-- What a `DataView` throws where a field leaves the buffer. -/
inductive RangeError where
  | outOfBounds

def getUint16 (view : Uint8Array) (byteOffset : ℕ) : Except RangeError ℕ :=
  match getNumber view byteOffset 2 with
  | some value => .ok value
  | none => .error .outOfBounds

def getUint32 (view : Uint8Array) (byteOffset : ℕ) : Except RangeError ℕ :=
  match getNumber view byteOffset 4 with
  | some value => .ok value
  | none => .error .outOfBounds

/-- Whether an end record stands here. Reference: `findEndOfCentralDirectory`. -/
def isEndOfCentralDirectory (view : Uint8Array) (offset : ℕ) : Except RangeError Bool := do
  let signature ← getUint32 view offset
  if signature = eocdSig then
    let commentLength ← getUint16 view (offset + 20)
    return offset + 22 + commentLength = view.length
  else return false

/-- The loop down to `lowest`, from `n` offsets above it. Reference: `findEndOfCentralDirectory`. -/
def findFrom (view : Uint8Array) (lowest : ℕ) : ℕ → Except RangeError (Option ℕ)
  | 0 => do
    let found ← isEndOfCentralDirectory view lowest
    return if found then some lowest else none
  | n + 1 => do
    let found ← isEndOfCentralDirectory view (lowest + (n + 1))
    if found then return some (lowest + (n + 1)) else findFrom view lowest n

/-- Reference: `findEndOfCentralDirectory`. -/
def findEndOfCentralDirectory (view : Uint8Array) : Except RangeError (Option ℕ) :=
  let lowest := view.length - 22 - 0xffff
  if view.length < 22 then .ok none else findFrom view lowest (view.length - 22 - lowest)

/-- The loop over the headers of the directory. Reference: `readZipEntryNames`. -/
def readNames (bytes : Uint8Array) : ℕ → ℕ → Except RangeError (Option (List String))
  | 0, _ => .ok (some [])
  | entryCount + 1, offset =>
    if offset + 46 > bytes.length then .ok none
    else do
      let signature ← getUint32 bytes offset
      if signature ≠ centralDirHeaderSig then return none
      else
        let nameLength ← getUint16 bytes (offset + 28)
        let extraLength ← getUint16 bytes (offset + 30)
        let commentLength ← getUint16 bytes (offset + 32)
        let nameStart := offset + 46
        if nameStart + nameLength > bytes.length then return none
        else
          let name := String.ofList (decode ((bytes.drop nameStart).take nameLength))
          let names ← readNames bytes entryCount (nameStart + nameLength + extraLength + commentLength)
          return names.map (name :: ·)

/-- Reference: `readZipEntryNames`. -/
def readZipEntryNames (bytes : Uint8Array) : Except RangeError (Option (List String)) := do
  match ← findEndOfCentralDirectory bytes with
  | none => return none
  | some eocdOffset =>
    let entryCount ← getUint16 bytes (eocdOffset + 10)
    let offset ← getUint32 bytes (eocdOffset + 16)
    readNames bytes entryCount offset

/-! ## The format -/

/-- A header of the directory. -/
structure CentralRecord where
  name : Uint8Array
  extra : Uint8Array
  comment : Uint8Array
  crc : ℕ
  compressedSize : ℕ
  size : ℕ
  localOffset : ℕ

/-- Where the next header stands. -/
def CentralRecord.length (r : CentralRecord) : ℕ := 46 + r.name.length + r.extra.length + r.comment.length

/-- The header at an offset. -/
def centralRecord (zip : Uint8Array) (offset : ℕ) : Option CentralRecord := do
  let signature ← getNumber zip offset 4
  guard (signature = centralDirHeaderSig)
  let nameLength ← getNumber zip (offset + 28) 2
  let extraLength ← getNumber zip (offset + 30) 2
  let commentLength ← getNumber zip (offset + 32) 2
  return {
    name := ← slice? zip (offset + 46) nameLength
    extra := ← slice? zip (offset + 46 + nameLength) extraLength
    comment := ← slice? zip (offset + 46 + nameLength + extraLength) commentLength
    crc := ← getNumber zip (offset + 16) 4
    compressedSize := ← getNumber zip (offset + 20) 4
    size := ← getNumber zip (offset + 24) 4
    localOffset := ← getNumber zip (offset + 42) 4 }

/-- So many headers from an offset on, and where they end. -/
def centralRecords (zip : Uint8Array) : ℕ → ℕ → Option (List CentralRecord × ℕ)
  | 0, offset => some ([], offset)
  | count + 1, offset => do
    let r ← centralRecord zip offset
    let (records, directoryEnd) ← centralRecords zip count (offset + r.length)
    return (r :: records, directoryEnd)

/-- A local header. -/
structure LocalHeader where
  name : Uint8Array
  extra : Uint8Array
  crc : ℕ
  compressedSize : ℕ
  size : ℕ

def LocalHeader.length (h : LocalHeader) : ℕ := 30 + h.name.length + h.extra.length

/-- The local header at an offset. -/
def localHeader (zip : Uint8Array) (offset : ℕ) : Option LocalHeader := do
  let signature ← getNumber zip offset 4
  guard (signature = localFileHeaderSig)
  let nameLength ← getNumber zip (offset + 26) 2
  let extraLength ← getNumber zip (offset + 28) 2
  return {
    name := ← slice? zip (offset + 30) nameLength
    extra := ← slice? zip (offset + 30 + nameLength) extraLength
    crc := ← getNumber zip (offset + 14) 4
    compressedSize := ← getNumber zip (offset + 18) 4
    size := ← getNumber zip (offset + 22) 4 }

/-- The header is the entry's, and points at a local header of the same name, behind which the body stands with its
true size and checksum. -/
structure CentralRecord.Of (zip : Uint8Array) (entry : ZipEntry) (r : CentralRecord) : Prop where
  name : r.name = entry.filenameBytes
  plain : r.extra = [] ∧ r.comment = []
  crc : r.crc = messageCrc32 entry.body
  size : r.size = entry.body.length ∧ r.compressedSize = entry.body.length
  localPart : ∃ header, localHeader zip r.localOffset = some header ∧ header.name = entry.filenameBytes ∧
    header.crc = messageCrc32 entry.body ∧ header.size = entry.body.length ∧
    header.compressedSize = entry.body.length ∧
    slice? zip (r.localOffset + header.length) entry.body.length = some entry.body

/-- The archive gives back the entries: the names are read, and the directory, which fills the bytes from the place that
the end record names up to that record, has the size and the number of headers that the end record gives, one for each
entry. -/
structure RoundTrips (entries : List ZipEntry) (zip : Uint8Array) : Prop where
  names : readZipEntryNames zip = .ok (some (entries.map (·.path)))
  directory : ∃ eocdOffset count size start records, findEndOfCentralDirectory zip = .ok (some eocdOffset) ∧
    getNumber zip (eocdOffset + 8) 2 = some count ∧ getNumber zip (eocdOffset + 10) 2 = some count ∧
    getNumber zip (eocdOffset + 12) 4 = some size ∧ getNumber zip (eocdOffset + 16) 4 = some start ∧
    start + size = eocdOffset ∧ centralRecords zip count start = some (records, eocdOffset) ∧
    List.Forall₂ (CentralRecord.Of zip) entries records

/-! ## No field leaves the buffer -/

section
variable {view bytes : Uint8Array} {offset lowest n : ℕ}

theorem exists_getUint16 (h : offset + 2 ≤ view.length) : ∃ value, getUint16 view offset = .ok value := by
  cases hv : getNumber view offset 2 with
  | some value => exact ⟨value, by simp only [getUint16, hv]⟩
  | none =>
    have := getNumber_eq_none.1 hv
    omega

theorem exists_getUint32 (h : offset + 4 ≤ view.length) : ∃ value, getUint32 view offset = .ok value := by
  cases hv : getNumber view offset 4 with
  | some value => exact ⟨value, by simp only [getUint32, hv]⟩
  | none =>
    have := getNumber_eq_none.1 hv
    omega

theorem exists_isEndOfCentralDirectory (h : offset + 22 ≤ view.length) :
    ∃ found, isEndOfCentralDirectory view offset = .ok found := by
  obtain ⟨signature, hsig⟩ := exists_getUint32 (show offset + 4 ≤ view.length by omega)
  obtain ⟨commentLength, hcomment⟩ := exists_getUint16 (show offset + 20 + 2 ≤ view.length by omega)
  rw [isEndOfCentralDirectory, hsig]
  by_cases hs : signature = eocdSig
  · exact ⟨_, by simp [bind, Except.bind, hs, hcomment, pure, Except.pure]; rfl⟩
  · exact ⟨false, by simp [bind, Except.bind, hs, pure, Except.pure]⟩

theorem exists_findFrom (h : lowest + n + 22 ≤ view.length) : ∃ found, findFrom view lowest n = .ok found ∧
    ∀ eocdOffset, found = some eocdOffset → eocdOffset + 22 ≤ view.length := by
  induction n with
  | zero =>
    obtain ⟨found, hfound⟩ := exists_isEndOfCentralDirectory (show lowest + 22 ≤ view.length by omega)
    refine ⟨if found then some lowest else none, by rw [findFrom, hfound]; rfl, fun eocdOffset he => ?_⟩
    cases found with
    | true => cases he; omega
    | false => cases he
  | succ n ih =>
    obtain ⟨found, hfound⟩ := exists_isEndOfCentralDirectory h
    cases found with
    | true =>
      refine ⟨some (lowest + (n + 1)), by rw [findFrom, hfound]; rfl, fun eocdOffset he => ?_⟩
      cases he
      omega
    | false =>
      obtain ⟨later, hlater, hle⟩ := ih (by omega)
      exact ⟨later, by rw [findFrom, hfound]; exact hlater, hle⟩

theorem exists_findEndOfCentralDirectory (view : Uint8Array) : ∃ found, findEndOfCentralDirectory view = .ok found ∧
    ∀ eocdOffset, found = some eocdOffset → eocdOffset + 22 ≤ view.length := by
  unfold findEndOfCentralDirectory
  dsimp only
  split
  · exact ⟨none, rfl, fun _ he => by cases he⟩
  · exact exists_findFrom (by omega)

theorem exists_readNames (bytes : Uint8Array) (entryCount offset : ℕ) :
    ∃ names, readNames bytes entryCount offset = .ok names := by
  induction entryCount generalizing offset with
  | zero => exact ⟨_, rfl⟩
  | succ entryCount ih =>
    rw [readNames]
    split
    · exact ⟨none, rfl⟩
    obtain ⟨signature, hsig⟩ := exists_getUint32 (show offset + 4 ≤ bytes.length by omega)
    obtain ⟨nameLength, hname⟩ := exists_getUint16 (show offset + 28 + 2 ≤ bytes.length by omega)
    obtain ⟨extraLength, hextra⟩ := exists_getUint16 (show offset + 30 + 2 ≤ bytes.length by omega)
    obtain ⟨commentLength, hcomment⟩ := exists_getUint16 (show offset + 32 + 2 ≤ bytes.length by omega)
    obtain ⟨names, hnames⟩ := ih (offset + 46 + nameLength + extraLength + commentLength)
    simp only [bind, Except.bind, hsig, hname, hextra, hcomment, hnames, pure, Except.pure]
    split
    · exact ⟨none, rfl⟩
    split
    · exact ⟨none, rfl⟩
    · exact ⟨_, rfl⟩

/-- The reader throws on no bytes at all. -/
theorem exists_readZipEntryNames (bytes : Uint8Array) : ∃ names, readZipEntryNames bytes = .ok names := by
  obtain ⟨found, hfound, hle⟩ := exists_findEndOfCentralDirectory bytes
  rw [readZipEntryNames, hfound]
  cases found with
  | none => exact ⟨none, rfl⟩
  | some eocdOffset =>
    have hend := hle eocdOffset rfl
    obtain ⟨entryCount, hcount⟩ := exists_getUint16 (show eocdOffset + 10 + 2 ≤ bytes.length by omega)
    obtain ⟨offset, hoffset⟩ := exists_getUint32 (show eocdOffset + 16 + 4 ≤ bytes.length by omega)
    obtain ⟨names, hnames⟩ := exists_readNames bytes entryCount offset
    exact ⟨names, by simp only [bind, Except.bind, hcount, hoffset, hnames]⟩

end

/-! ## What is read of an archive that was written -/

section
variable {zip front back name : Uint8Array} {dosTime : DosTime} {crc size offset count start directoryEnd n : ℕ}
  {records : List CentralRecord} {r : CentralRecord}

/-- The field of the middle part that stands at its start. -/
theorem getNumber_append_start {a b c : Uint8Array} {w : ℕ} (h : w ≤ b.length) :
    getNumber (a ++ b ++ c) a.length w = getNumber b 0 w := by
  have hfield : getNumber (a ++ b ++ c) (a.length + 0) w = getNumber b 0 w := getNumber_append_append (by omega)
  rwa [Nat.add_zero] at hfield

theorem centralRecord_append {cdh : Uint8Array} (h : cdh = centralDirHeader name dosTime crc size offset)
    (hname : name.length < 2 ^ 16) (hcrc : crc < 2 ^ 32) (hsize : size < 2 ^ 32) :
    centralRecord (front ++ cdh ++ back) front.length = some ⟨name, [], [], crc, size, size, offset % 2 ^ 32⟩ := by
  have hlen : cdh.length = 46 + name.length := by rw [h, length_centralDirHeader]
  obtain ⟨hsig, hc, hcs, hs, hn, he, hm, ho, hbytes⟩ := centralDirHeader_fields h
  have hempty : slice? (front ++ cdh ++ back) (front.length + 46 + name.length) 0 = some [] :=
    slice?_zero (by simp only [List.length_append]; omega)
  have hslice : slice? (front ++ cdh ++ back) (front.length + 46) name.length = some name := by
    rw [slice?_append_append (by omega), hbytes]
  rw [Nat.mod_eq_of_lt hcrc] at hc
  rw [Nat.mod_eq_of_lt hsize] at hcs hs
  rw [Nat.mod_eq_of_lt hname] at hn
  unfold centralRecord
  rw [getNumber_append_start (by omega), hsig]
  simp only [getNumber_append_append (show 28 + 2 ≤ cdh.length by omega),
    getNumber_append_append (show 30 + 2 ≤ cdh.length by omega),
    getNumber_append_append (show 32 + 2 ≤ cdh.length by omega),
    getNumber_append_append (show 16 + 4 ≤ cdh.length by omega),
    getNumber_append_append (show 20 + 4 ≤ cdh.length by omega),
    getNumber_append_append (show 24 + 4 ≤ cdh.length by omega),
    getNumber_append_append (show 42 + 4 ≤ cdh.length by omega),
    hc, hcs, hs, hn, he, hm, ho, hslice, hempty, Nat.add_zero, guard_true, bind, Option.bind]
  rfl

theorem localHeader_append {lfh : Uint8Array} (h : lfh = localFileHeader name dosTime crc size)
    (hname : name.length < 2 ^ 16) (hcrc : crc < 2 ^ 32) (hsize : size < 2 ^ 32) :
    localHeader (front ++ lfh ++ back) front.length = some ⟨name, [], crc, size, size⟩ := by
  have hlen : lfh.length = 30 + name.length := by rw [h, length_localFileHeader]
  obtain ⟨hsig, hc, hcs, hs, hn, he, hbytes⟩ := localFileHeader_fields h
  have hempty : slice? (front ++ lfh ++ back) (front.length + 30 + name.length) 0 = some [] :=
    slice?_zero (by simp only [List.length_append]; omega)
  have hslice : slice? (front ++ lfh ++ back) (front.length + 30) name.length = some name := by
    rw [slice?_append_append (by omega), hbytes]
  rw [Nat.mod_eq_of_lt hcrc] at hc
  rw [Nat.mod_eq_of_lt hsize] at hcs hs
  rw [Nat.mod_eq_of_lt hname] at hn
  unfold localHeader
  rw [getNumber_append_start (by omega), hsig]
  simp only [getNumber_append_append (show 26 + 2 ≤ lfh.length by omega),
    getNumber_append_append (show 28 + 2 ≤ lfh.length by omega),
    getNumber_append_append (show 14 + 4 ≤ lfh.length by omega),
    getNumber_append_append (show 18 + 4 ≤ lfh.length by omega),
    getNumber_append_append (show 22 + 4 ≤ lfh.length by omega),
    hc, hcs, hs, hn, he, hslice, hempty, guard_true, bind, Option.bind]
  rfl

/-- A header of the directory is read and passed. -/
theorem readNames_append {cdh : Uint8Array} (h : cdh = centralDirHeader name dosTime crc size offset)
    (hname : name.length < 2 ^ 16) {names : List String}
    (hrest : readNames (front ++ cdh ++ back) n (front.length + cdh.length) = .ok (some names)) :
    readNames (front ++ cdh ++ back) (n + 1) front.length = .ok (some (String.ofList (decode name) :: names)) := by
  have hlen : cdh.length = 46 + name.length := by rw [h, length_centralDirHeader]
  obtain ⟨hsig, -, -, -, hn, he, hm, -, hbytes⟩ := centralDirHeader_fields h
  have hslice : slice? (front ++ cdh ++ back) (front.length + 46) name.length = some name := by
    rw [slice?_append_append (by omega), hbytes]
  have hle : front.length + 46 + name.length ≤ (front ++ cdh ++ back).length := by
    simp only [List.length_append]
    omega
  rw [slice?_eq_some hle] at hslice
  rw [Nat.mod_eq_of_lt hname] at hn
  rw [readNames, if_neg (by omega)]
  simp only [getUint32, getUint16, getNumber_append_start (show 4 ≤ cdh.length by omega),
    getNumber_append_append (show 28 + 2 ≤ cdh.length by omega),
    getNumber_append_append (show 30 + 2 ≤ cdh.length by omega),
    getNumber_append_append (show 32 + 2 ≤ cdh.length by omega), hsig, hn, he, hm, bind, Except.bind]
  rw [if_neg (by simp), if_neg (by omega), Option.some.inj hslice]
  rw [hlen, ← Nat.add_assoc] at hrest
  simp only [Nat.add_zero, hrest]
  rfl

theorem centralRecord_name_lt (h : centralRecord zip offset = some r) : r.name.length < 2 ^ 16 := by
  unfold centralRecord at h
  simp only [bind, Option.bind_eq_some_iff] at h
  obtain ⟨signature, -, -, -, nameLength, hn, extraLength, -, commentLength, -, bytes, hbytes, h⟩ := h
  obtain ⟨extra, -, comment, -, crc, -, compressedSize, -, size, -, localOffset, -, h⟩ := h
  cases h
  rw [length_of_slice? hbytes]
  exact getNumber_lt hn

/-- The headers are as many as counted, fill the bytes between the offsets, and hold names of their field's width. -/
theorem centralRecords_spec (h : centralRecords zip count start = some (records, directoryEnd)) :
    records.length = count ∧ directoryEnd = start + (records.map CentralRecord.length).sum ∧
      ∀ r ∈ records, r.name.length < 2 ^ 16 := by
  induction count generalizing start records with
  | zero =>
    cases h
    simp
  | succ count ih =>
    simp only [centralRecords, bind, Option.bind_eq_some_iff] at h
    obtain ⟨r, hr, ⟨rest, restEnd⟩, hrest, h⟩ := h
    cases h
    obtain ⟨hlen, hend, hnames⟩ := ih hrest
    refine ⟨by rw [List.length_cons, hlen], ?_, ?_⟩
    · rw [List.map_cons, List.sum_cons, hend, Nat.add_assoc]
    · intro r' hr'
      rcases List.mem_cons.1 hr' with rfl | hr'
      · exact centralRecord_name_lt hr
      · exact hnames r' hr'

end

/-! ## The round trip -/

section
variable {entries : List ZipEntry} {entry : ZipEntry} {s : ZipState} {dir : List Uint8Array}
  {zip written front back record : Uint8Array} {records : List CentralRecord}

/-- No name is too long for its field. -/
def NamesFit (entries : List ZipEntry) : Prop := ∀ entry ∈ entries, entry.filenameBytes.length < 2 ^ 16

theorem slice?_body {dosTime : DosTime} : slice? (front ++ entry.localPart dosTime ++ back)
    (front.length + (30 + entry.filenameBytes.length)) entry.body.length = some entry.body := by
  have hlen : (front ++ localFileHeader entry.filenameBytes dosTime (messageCrc32 entry.body)
      entry.body.length).length = front.length + (30 + entry.filenameBytes.length) := by
    rw [List.length_append, length_localFileHeader]
  rw [← hlen, ZipEntry.localPart, ← List.append_assoc front]
  exact slice?_append_self

/-- A record of an entry whose name and place fit their fields is the entry's. -/
theorem ZipRecorded.of (h : ZipRecorded written entry record) (hname : entry.filenameBytes.length < 2 ^ 16)
    (hsize : entry.body.length < 2 ^ 32) (hplace : written.length < 2 ^ 32) (more : Uint8Array)
    (hzip : written ++ more = front ++ record ++ back) :
    ∃ r, centralRecord (front ++ record ++ back) front.length = some r ∧ r.length = record.length ∧
      CentralRecord.Of (front ++ record ++ back) entry r := by
  obtain ⟨dosTime, before, behind, hwritten, hrecord⟩ := h
  have hplace' : before.length < 2 ^ 32 := by
    have := congrArg List.length hwritten
    simp only [List.length_append] at this
    omega
  have hread : centralRecord (front ++ record ++ back) front.length = some _ :=
    centralRecord_append hrecord hname (messageCrc32_lt _) hsize
  refine ⟨_, hread, ?_, rfl, ⟨rfl, rfl⟩, rfl, ⟨rfl, rfl⟩, ?_⟩
  · rw [hrecord, length_centralDirHeader]
    simp [CentralRecord.length]
  · dsimp only
    rw [Nat.mod_eq_of_lt hplace', ← hzip, hwritten]
    refine ⟨⟨entry.filenameBytes, [], messageCrc32 entry.body, entry.body.length, entry.body.length⟩, ?_, rfl, rfl,
      rfl, rfl, ?_⟩
    · have hlocal : localHeader (before ++ localFileHeader entry.filenameBytes dosTime (messageCrc32 entry.body)
          entry.body.length ++ (entry.body ++ (behind ++ more))) before.length = some _ :=
        localHeader_append rfl hname (messageCrc32_lt entry.body) hsize
      simpa only [ZipEntry.localPart, List.append_assoc] using hlocal
    · rw [List.append_assoc _ behind more]
      exact slice?_body

/-- The directory is read as it was written. -/
theorem centralRecords_of (more : Uint8Array) (hplace : written.length < 2 ^ 32)
    (h : List.Forall₂ (ZipRecorded written) entries dir) (hnames : NamesFit entries)
    (hsizes : ∀ entry ∈ entries, entry.body.length ≤ zipMaxEntrySize)
    (hzip : written ++ more = front ++ dir.flatten ++ back) :
    ∃ records, centralRecords (front ++ dir.flatten ++ back) dir.length front.length =
      some (records, front.length + dir.flatten.length) ∧
      List.Forall₂ (CentralRecord.Of (front ++ dir.flatten ++ back)) entries records := by
  induction h generalizing front with
  | nil => exact ⟨[], by simp [centralRecords], .nil⟩
  | @cons entry record entries dir hrecord _ ih =>
    have hsplit : front ++ (record :: dir).flatten ++ back = front ++ record ++ (dir.flatten ++ back) := by
      simp only [List.flatten_cons, List.append_assoc]
    have hnext : front ++ (record :: dir).flatten ++ back = front ++ record ++ dir.flatten ++ back := by
      simp only [List.flatten_cons, List.append_assoc]
    have hsize := hsizes entry List.mem_cons_self
    obtain ⟨r, hr, hlen, hof⟩ := hrecord.of (hnames entry List.mem_cons_self)
      (Nat.lt_succ_of_le hsize) hplace more (hzip.trans hsplit)
    obtain ⟨records, hrecords, hall⟩ := ih (fun e he => hnames e (List.mem_cons_of_mem _ he))
      (fun e he => hsizes e (List.mem_cons_of_mem _ he)) (hzip.trans hnext)
    rw [← hsplit] at hr hof
    rw [← hnext] at hrecords hall
    refine ⟨r :: records, ?_, .cons hof hall⟩
    rw [List.length_append] at hrecords
    simp only [List.length_cons, centralRecords, bind, Option.bind, hr, hlen, hrecords]
    rw [List.flatten_cons, List.length_append, Nat.add_assoc]
    rfl

/-- The names are read as they were written, without byte order marks. -/
theorem readNames_of (h : List.Forall₂ (ZipRecorded written) entries dir) (hnames : NamesFit entries) :
    readNames (front ++ dir.flatten ++ back) dir.length front.length =
      .ok (some (entries.map fun entry => String.ofList (dropMark entry.path.toList))) := by
  induction h generalizing front with
  | nil => rfl
  | @cons entry record entries dir hrecord _ ih =>
    obtain ⟨dosTime, before, behind, -, hrecord⟩ := hrecord
    have hrest : readNames (front ++ record ++ dir.flatten ++ back) dir.length (front ++ record).length = _ :=
      ih fun e he => hnames e (List.mem_cons_of_mem _ he)
    rw [List.length_append, List.append_assoc (front ++ record)] at hrest
    rw [List.flatten_cons, ← List.append_assoc front, List.append_assoc (front ++ record), List.length_cons,
      List.map_cons, readNames_append hrecord (hnames entry List.mem_cons_self) hrest]
    rw [ZipEntry.filenameBytes, decode_encode]

/-- The end record is found where it was written. -/
theorem findEndOfCentralDirectory_append {eocd : Uint8Array} {n size start : ℕ} (h : eocd = endOfCentralDir n size start) :
    findEndOfCentralDirectory (front ++ eocd) = .ok (some front.length) := by
  have hlen : eocd.length = 22 := by rw [h, length_endOfCentralDir]
  obtain ⟨hsig, -, -, -, -, hcomment⟩ := endOfCentralDir_fields h
  have htotal : (front ++ eocd).length = front.length + 22 := by rw [List.length_append, hlen]
  have hfound : isEndOfCentralDirectory (front ++ eocd) front.length = .ok true := by
    have hsig' : getNumber (front ++ eocd ++ []) front.length 4 = some eocdSig := by
      rw [getNumber_append_start (by omega), hsig]
    have hcomment' : getNumber (front ++ eocd ++ []) (front.length + 20) 2 = some 0 := by
      rw [getNumber_append_append (by omega), hcomment]
    rw [List.append_nil] at hsig' hcomment'
    simp only [isEndOfCentralDirectory, getUint32, getUint16, hsig', hcomment', bind, Except.bind, pure, Except.pure,
      htotal]
    simp
  rw [findEndOfCentralDirectory, if_neg (by omega), htotal, Nat.add_sub_cancel]
  -- the first offset that is tried
  have hfirst : front.length - 0xffff + (front.length - (front.length - 0xffff)) = front.length := by omega
  generalize front.length - (front.length - 0xffff) = n at hfirst
  cases n with
  | zero =>
    rw [Nat.add_zero] at hfirst
    rw [findFrom, hfirst, hfound]
    rfl
  | succ n =>
    rw [findFrom, hfirst, hfound]
    rfl

/-- No path starts with a byte order mark. -/
def NoMarks (entries : List ZipEntry) : Prop := ∀ entry ∈ entries, entry.path.toList.head? ≠ some '\uFEFF'

theorem map_dropMark_eq_iff : (entries.map fun entry => String.ofList (dropMark entry.path.toList)) =
    entries.map (·.path) ↔ NoMarks entries := by
  rw [List.map_inj_left]
  refine forall₂_congr fun entry _ => ?_
  rw [← dropMark_eq_self]
  constructor
  · intro h
    have := congrArg String.toList h
    rwa [String.toList_ofList] at this
  · intro h
    rw [h, String.ofList_toList]

/-- The bytes that the directory takes. -/
def directoryLength (entries : List ZipEntry) : ℕ := (entries.map fun entry => 46 + entry.filenameBytes.length).sum

theorem flatten_length_of_recorded (h : List.Forall₂ (ZipRecorded written) entries dir) :
    dir.flatten.length = directoryLength entries := by
  induction h with
  | nil => rfl
  | cons hrecord _ ih =>
    obtain ⟨dosTime, before, behind, -, hrecord⟩ := hrecord
    rw [List.flatten_cons, List.length_append, hrecord, length_centralDirHeader, ih, directoryLength, directoryLength,
      List.map_cons, List.sum_cons]

theorem sum_length_of_of (h : List.Forall₂ (CentralRecord.Of zip) entries records) :
    (records.map CentralRecord.length).sum = directoryLength entries := by
  induction h with
  | nil => rfl
  | cons hof _ ih =>
    rw [List.map_cons, List.sum_cons, ih, directoryLength, directoryLength, List.map_cons, List.sum_cons,
      CentralRecord.length, hof.name, hof.plain.1, hof.plain.2]
    rfl

theorem namesFit_of_of (h : List.Forall₂ (CentralRecord.Of zip) entries records)
    (hnames : ∀ r ∈ records, r.name.length < 2 ^ 16) : NamesFit entries := by
  induction h with
  | nil =>
    intro entry he
    cases he
  | cons hof _ ih =>
    intro entry he
    rcases List.mem_cons.1 he with rfl | he
    · rw [← hof.name]
      exact hnames _ List.mem_cons_self
    · exact ih (fun r hr => hnames r (List.mem_cons_of_mem _ hr)) entry he

/-- What the reader finds of an archive that was written: the end record, with the count, and the size and the place of
the directory modulo their fields. -/
theorem ZipWritten.eocd (h : ZipWritten entries s)
    (hzip : zip = s.chunks.flatten ++ s.centralDirRecords.flatten ++
      endOfCentralDir entries.length s.centralDirRecords.flatten.length s.chunks.flatten.length) :
    ∃ eocdOffset, eocdOffset = (s.chunks.flatten ++ s.centralDirRecords.flatten).length ∧
      findEndOfCentralDirectory zip = .ok (some eocdOffset) ∧
      getNumber zip (eocdOffset + 8) 2 = some s.centralDirRecords.length ∧
      getNumber zip (eocdOffset + 10) 2 = some s.centralDirRecords.length ∧
      getNumber zip (eocdOffset + 12) 4 = some (directoryLength entries % 2 ^ 32) ∧
      getNumber zip (eocdOffset + 16) 4 = some (s.chunks.flatten.length % 2 ^ 32) := by
  obtain ⟨-, hdisk, hcount, hsize, hstart, -⟩ := endOfCentralDir_fields (rfl : endOfCentralDir entries.length
    s.centralDirRecords.flatten.length s.chunks.flatten.length = _)
  have hle := h.count
  rw [zipMaxEntries] at hle
  have hrecords : entries.length % 2 ^ 16 = s.centralDirRecords.length :=
    (Nat.mod_eq_of_lt (by omega)).trans h.records.length_eq
  -- a field of the end record stands behind what comes before it
  have field {k w value : ℕ} (hk : k + w ≤ 22) (hfield : getNumber (endOfCentralDir entries.length
      s.centralDirRecords.flatten.length s.chunks.flatten.length) k w = some value) :
      getNumber zip ((s.chunks.flatten ++ s.centralDirRecords.flatten).length + k) w = some value := by
    rw [hzip, ← List.append_nil (_ ++ endOfCentralDir _ _ _), getNumber_append_append (by simpa using hk), hfield]
  refine ⟨_, rfl, hzip ▸ findEndOfCentralDirectory_append rfl, field (by omega) (hrecords ▸ hdisk),
    field (by omega) (hrecords ▸ hcount), field (by omega) ?_, field (by omega) hstart⟩
  rw [hsize, flatten_length_of_recorded h.records]

theorem RoundTrips.namesFit (h : RoundTrips entries zip) : NamesFit entries := by
  obtain ⟨_, _, _, _, records, -, -, -, -, -, -, hrecords, hall⟩ := h.directory
  exact namesFit_of_of hall (centralRecords_spec hrecords).2.2

/-- Of an archive whose names fit, the names are read without their marks, if the directory is where its field says. -/
theorem ZipWritten.readZipEntryNames (h : ZipWritten entries s) (hnames : NamesFit entries)
    (hplace : s.chunks.flatten.length < 2 ^ 32)
    (hzip : zip = s.chunks.flatten ++ s.centralDirRecords.flatten ++
      endOfCentralDir entries.length s.centralDirRecords.flatten.length s.chunks.flatten.length) :
    Kumiko.readZipEntryNames zip =
      .ok (some (entries.map fun entry => String.ofList (dropMark entry.path.toList))) := by
  obtain ⟨eocdOffset, -, hfound, -, hcount, -, hstart⟩ := h.eocd hzip
  rw [Nat.mod_eq_of_lt hplace] at hstart
  rw [Kumiko.readZipEntryNames, hfound]
  simp only [getUint16, getUint32, hcount, hstart, bind, Except.bind]
  rw [hzip]
  exact readNames_of h.records hnames

theorem ZipWritten.roundTrips_iff (h : ZipWritten entries s)
    (hzip : zip = s.chunks.flatten ++ s.centralDirRecords.flatten ++
      endOfCentralDir entries.length s.centralDirRecords.flatten.length s.chunks.flatten.length) :
    RoundTrips entries zip ↔ NamesFit entries ∧ NoMarks entries ∧ localLength entries < 2 ^ 32 ∧
      directoryLength entries < 2 ^ 32 := by
  obtain ⟨eocdOffset, heocd, hfound, hdisk, hcount, hsize, hstart⟩ := h.eocd hzip
  rw [List.length_append, flatten_length_of_recorded h.records] at heocd
  rw [← h.length]
  constructor
  · intro hround
    have hnames := hround.namesFit
    obtain ⟨eocdOffset', count, size, start, records, hfound', -, -, hsize', hstart', hsum, hrecords, hall⟩ :=
      hround.directory
    obtain rfl : eocdOffset = eocdOffset' := by
      rw [hfound] at hfound'
      exact Option.some.inj (Except.ok.inj hfound')
    obtain rfl : s.chunks.flatten.length % 2 ^ 32 = start := Option.some.inj (hstart.symm.trans hstart')
    -- the headers read fill the bytes up to the end record, as those written do
    have hend := (centralRecords_spec hrecords).2.1
    rw [sum_length_of_of hall] at hend
    obtain rfl : directoryLength entries % 2 ^ 32 = size := Option.some.inj (hsize.symm.trans hsize')
    have hplace : s.chunks.flatten.length < 2 ^ 32 := by omega
    have hread := hround.names
    rw [h.readZipEntryNames hnames hplace hzip] at hread
    exact ⟨hnames, map_dropMark_eq_iff.1 (Option.some.inj (Except.ok.inj hread)), hplace, by omega⟩
  · rintro ⟨hnames, hmarks, hplace, hdirectory⟩
    have hnames' := h.readZipEntryNames hnames hplace hzip
    rw [map_dropMark_eq_iff.2 hmarks] at hnames'
    rw [Nat.mod_eq_of_lt hplace] at hstart
    rw [Nat.mod_eq_of_lt hdirectory] at hsize
    obtain ⟨records, hrecords, hall⟩ := centralRecords_of _ hplace h.records hnames h.sizes
      (List.append_assoc _ _ _).symm
    rw [← hzip, flatten_length_of_recorded h.records, ← heocd] at hrecords
    rw [← hzip] at hall
    exact ⟨hnames', eocdOffset, _, _, _, records, hfound, hdisk, hcount, hsize, hstart, heocd.symm, hrecords, hall⟩

end

/-- An archive that was written without an error gives back its entries exactly if every name fits its field, no path
starts with a byte order mark, and the directory starts below 4 GB and is smaller than that; and the reader of the
names throws on no bytes. -/
theorem zip_roundTrips_iff (bytes : Uint8Array) (now : ℕ → UtcDateTime) (entries : List ZipEntry)
    (chunks : List Uint8Array) (h : createZipStream now entries = .ok chunks) :
    (∃ names, readZipEntryNames bytes = .ok names) ∧
      (RoundTrips entries chunks.flatten ↔
        NamesFit entries ∧ NoMarks entries ∧ localLength entries < 2 ^ 32 ∧ directoryLength entries < 2 ^ 32) := by
  refine ⟨exists_readZipEntryNames bytes, ?_⟩
  obtain ⟨s, hwritten, hzip⟩ := written_of_createZipStream h
  exact hwritten.roundTrips_iff hzip

/-- A body of two chunks. -/
def greeting : ZipEntry where
  path := "greet.txt"
  data := [[104, 101], [108, 108, 111]]

def newYear : UtcDateTime := ⟨2026, 1, 1, 0, 0, 0⟩

theorem zip_roundTrips_greeting : ∃ chunks, createZipStream (fun _ => newYear) [greeting] = .ok chunks ∧
    RoundTrips [greeting] chunks.flatten := by
  refine ⟨_, rfl, ((zip_roundTrips_iff [] (fun _ => newYear) [greeting] _ rfl).2).2 ⟨?_, ?_, ?_, ?_⟩⟩
  · intro entry he
    obtain rfl := List.mem_singleton.1 he
    decide
  · intro entry he
    obtain rfl := List.mem_singleton.1 he
    decide
  · decide
  · decide

/-- An empty file with a name one byte longer than its field can say. -/
def longNamed : ZipEntry where
  path := String.ofList (List.replicate 65536 'a')
  data := []

theorem exists_createZipStream_empty (now : ℕ → UtcDateTime) (path : String) :
    ∃ chunks, createZipStream now [{ path, data := [] }] = .ok chunks := ⟨_, rfl⟩

theorem length_encode_replicate (n : ℕ) : (encode (List.replicate n 'a')).length = n := by
  induction n with
  | zero => rfl
  | succ n ih =>
    rw [encode] at ih
    rw [encode, List.replicate_succ, List.flatMap_cons, List.length_append, ih, Nat.add_comm]
    rfl

theorem not_namesFit_longNamed : ¬ NamesFit [longNamed] := by
  intro hfits
  have hlt := hfits longNamed (List.mem_singleton_self _)
  have hlen : longNamed.filenameBytes.length = (encode (List.replicate 65536 'a')).length :=
    congrArg (fun path => (encode path).length) (String.toList_ofList (l := List.replicate 65536 'a'))
  rw [hlen, length_encode_replicate] at hlt
  exact absurd hlt (by decide)

/-- The stream writes the file with the long name without an error, and its name is not read back. -/
theorem not_zip_roundTrips : ¬ ∀ now entries chunks, createZipStream now entries = .ok chunks →
    RoundTrips entries chunks.flatten := by
  intro hall
  obtain ⟨chunks, hchunks⟩ := exists_createZipStream_empty (fun _ => newYear) longNamed.path
  have hround := hall _ [longNamed] chunks hchunks
  exact not_namesFit_longNamed hround.namesFit

end Kumiko
