import ExchangeCore.Journal.WrittenJournal

/-!
# A single damaged byte

A segment of written records in which one byte has been changed.  The checksum
covers a record from its sequence number on and tells any two contents apart
that differ in one byte; the checksum itself and the version, type and reserved
bytes are compared.  That leaves the length in front.  A changed length makes the
reader look at other bytes, which may pass the checksum by accident, but then
they are not a payload: no payload is a proper part of another.

So the altered record is never visited.  What the report says is another matter.
It does not depend on where in the journal the damage is: a changed length that
reaches past the end of the segment is taken for a torn tail, and anything else
is reported as damage.
-/

namespace ExchangeCore

open ByteWriter StickyParser List LittleEndian

/-! ## Decoding a record with a changed byte -/

/-- The bytes are all there and not a record. -/
def Refused (bytes : List UInt8) : Prop :=
  (decode bytes).status = .corrupt ∨ (decode bytes).status = .unreadable

/-- A record whose contents do not match its checksum is refused. -/
theorem decode_mismatched {header : HeaderFields} (hFits : header.Fits) {body : List UInt8}
    (hLong : header.payloadLength ≤ body.length)
    (hChecksum : (crc32c (header.coveredBytes ++ body.take header.payloadLength) 0#32).toNat ≠
      header.checksum) :
    Refused (header.bytes ++ body) := by
  unfold Refused
  rw [decode_bytes hFits]
  split
  · exact Or.inr rfl
  · next type hType =>
    split
    · exact Or.inr rfl
    · rw [if_neg (Nat.not_lt.mpr hLong)]
      exact Or.inl rfl

/-- The checksum tells a list from the same list with one byte changed. -/
theorem crc32c_set_ne {bytes : List UInt8} {i : Nat} {byte : UInt8} (hLt : i < bytes.length)
    (hNe : bytes[i]? ≠ some byte) (seed : BitVec 32) :
    crc32c (bytes.set i byte) seed ≠ crc32c bytes seed := by
  have hNear : ∀ j, (bytes.set i byte)[j]? ≠ bytes[j]? → i ≤ j ∧ j < i + 4 := by
    intro j hDiffer
    by_contra hOther
    exact hDiffer (List.getElem?_set_ne (by omega))
  refine crc32c_ne_of_near length_set (fun hEq => hNe ?_) hNear seed
  rw [← hEq, List.getElem?_set_self hLt]

section Changed

variable {record : Record} {byte : UInt8} {i length : Nat}

/-- Damage behind the checksum. -/
theorem decode_covered_changed (hFits : record.Fits) (hLt : i < (covered record).length)
    (hNe : (covered record)[i]? ≠ some byte) (rest : List UInt8) :
    Refused (u32 (encodePayload record).length ++ (u32 (crc32c (covered record) 0#32).toNat ++
      ((covered record).set i byte ++ rest))) := by
  have hHeader := encodedHeader_fits hFits
  obtain ⟨changed, hChanged⟩ : ∃ changed, (covered record).set i byte = changed := ⟨_, rfl⟩
  have hLength : changed.length = 12 + (encodePayload record).length := by
    rw [← hChanged, length_set, covered_eq, length_append,
      HeaderFields.length_coveredBytes]
  obtain ⟨header, hPayload, hChecksum, hSequence, hReserved, hCovered⟩ :=
    exists_coveredBytes (encodePayload record).length (crc32c (covered record) 0#32).toNat
      (show (changed.take 12).length = 12 by rw [length_take]; omega)
  have hBytes : header.bytes ++ (changed.drop 12 ++ rest) =
      u32 (encodePayload record).length ++ (u32 (crc32c (covered record) 0#32).toNat ++
        (changed ++ rest)) := by
    rw [HeaderFields.bytes, hPayload, hChecksum, hCovered, append_assoc, append_assoc,
      ← append_assoc (changed.take 12), take_append_drop]
  have hDrop : (changed.drop 12).length = (encodePayload record).length := by
    rw [length_drop]
    omega
  rw [hChanged, ← hBytes]
  refine decode_mismatched ⟨?_, ?_, hSequence, hReserved⟩ ?_ ?_
  · rw [hPayload]
    exact hHeader.1
  · rw [hChecksum]
    exact hHeader.2.1
  · rw [hPayload, length_append]
    omega
  · rw [hPayload, ← hDrop, take_left, hCovered, take_append_drop, hChecksum, ← hChanged]
    intro hSame
    exact crc32c_set_ne hLt hNe 0#32 (BitVec.eq_of_toNat_eq hSame)

/-- An encoded record with other numbers for its length and its checksum. -/
theorem exists_renumbered (hFits : record.Fits) {checksum : Nat} (hLength : length < 2 ^ 32)
    (hChecksum : checksum < 2 ^ 32) (rest : List UInt8) :
    ∃ header : HeaderFields, header.Fits ∧ header.payloadLength = length ∧
      header.checksum = checksum ∧ header.sequence = record.sequence ∧
      header.type = record.type.code ∧ header.version = kRecordVersion ∧ header.reserved = 0 ∧
      header.coveredBytes ++ encodePayload record = covered record ∧
      u32 length ++ (u32 checksum ++ (covered record ++ rest)) =
        header.bytes ++ (encodePayload record ++ rest) := by
  obtain ⟨-, -, hSequence, hReserved⟩ := encodedHeader_fits hFits
  refine ⟨{ encodedHeader record with payloadLength := length, checksum := checksum },
    ⟨hLength, hChecksum, hSequence, hReserved⟩, rfl, rfl, rfl, rfl, rfl, rfl,
    (covered_eq record).symm, ?_⟩
  rw [covered_eq, HeaderFields.bytes, append_assoc, append_assoc, append_assoc]
  rfl

/-- Damage to the checksum. -/
theorem decode_checksum_changed (hFits : record.Fits) {checksum : Nat} (hLt : checksum < 2 ^ 32)
    (hNe : checksum ≠ (crc32c (covered record) 0#32).toNat) (rest : List UInt8) :
    Refused (u32 (encodePayload record).length ++ (u32 checksum ++ (covered record ++ rest))) := by
  have hLength : (encodePayload record).length < 2 ^ 32 := (encodedHeader_fits hFits).1
  obtain ⟨header, hHeaderFits, hPayload, hChecksum, -, -, -, -, hCovered, hBytes⟩ :=
    exists_renumbered hFits hLength hLt rest
  rw [hBytes]
  refine decode_mismatched hHeaderFits ?_ ?_
  · rw [hPayload, length_append]
    exact Nat.le_add_right _ _
  · rw [hPayload, take_left, hCovered, hChecksum]
    exact Ne.symm hNe

/-- The bytes that a wrong length frames are no payload of the record's type. -/
theorem decodePayload_cut (hFits : record.PayloadFits) {rest : List UInt8}
    (hNe : length ≠ (encodePayload record).length)
    (hLong : length ≤ (encodePayload record ++ rest).length) :
    (decodePayload record.type ((encodePayload record ++ rest).take length)
      { type := record.type, sequence := record.sequence }).2 = false := by
  have hParses := parses_payload record.type record.sequence
  have hWhole := readAs_written hFits
  rw [Bool.eq_false_iff]
  intro hUnderstood
  have hCut := (hParses.fullyConsumed_iff _).mp hUnderstood
  rw [length_append] at hLong
  rcases Nat.lt_or_gt_of_ne hNe with hShort | hLonger
  · rw [take_append_of_le_length hShort.le] at hCut
    rw [← take_append_drop length (encodePayload record)] at hWhole
    have hRest := hParses.eq_of_prefix hCut hWhole
    have hLength := congrArg List.length hRest
    rw [length_drop, length_nil] at hLength
    omega
  · rw [take_append, take_of_length_le hLonger.le] at hCut
    have hRest := hParses.eq_of_prefix hWhole hCut
    have hLength := congrArg List.length hRest
    rw [length_take, length_nil] at hLength
    omega

/-- Damage to the length. -/
theorem decode_length_changed (hFits : record.Fits) (hLt : length < 2 ^ 32)
    (hNe : length ≠ (encodePayload record).length) (rest : List UInt8) :
    (decode (u32 length ++ (u32 (crc32c (covered record) 0#32).toNat ++
        (covered record ++ rest)))).status ≠ .ok ∧
      ((decode (u32 length ++ (u32 (crc32c (covered record) 0#32).toNat ++
        (covered record ++ rest)))).status = .incomplete ↔
        length ≤ RecordHeader.kMaxPayload ∧
          (encodePayload record).length + rest.length < length) := by
  obtain ⟨header, hHeaderFits, hPayload, -, hSequence, hType, hVersion, hReserved, -, hBytes⟩ :=
    exists_renumbered hFits hLt (encodedHeader_fits hFits).2.1 rest
  simp only [encodedHeader] at hBytes
  rw [hBytes, decode_bytes hHeaderFits, hType, RecordType.ofCode_code, hPayload, hSequence,
    hVersion, hReserved, length_append]
  by_cases hMax : length ≤ RecordHeader.kMaxPayload
  · simp only [ne_eq, not_true_eq_false, decide_false, Bool.false_or,
      decide_eq_false (Nat.not_lt.mpr hMax), Bool.false_eq_true, if_false, gt_iff_lt, hMax,
      true_and]
    by_cases hShort : (encodePayload record).length + rest.length < length
    · simp [hShort]
    have hUnderstood := decodePayload_cut hFits.2 hNe
      (show length ≤ (encodePayload record ++ rest).length by rw [length_append]; omega)
    simp only [hShort, if_false, iff_false, hUnderstood, Bool.not_false, if_true]
    split <;> simp
  · simp [hMax, Nat.lt_of_not_le hMax]

/-- A number with one of its bytes changed is another number. -/
theorem set_put {value width : Nat} (hLt : i < width) (hNe : (put value width)[i]? ≠ some byte) :
    ofBytes ((put value width).set i byte) < 256 ^ width ∧
      ofBytes ((put value width).set i byte) ≠ value ∧
      (put value width).set i byte =
        put (ofBytes ((put value width).set i byte)) width := by
  have hLength : ((put value width).set i byte).length = width := by
    rw [length_set, length_put]
  have hLt' := ofBytes_lt ((put value width).set i byte)
  have hPut := toBytes_ofBytes ((put value width).set i byte)
  rw [hLength] at hLt' hPut
  rw [← put_eq] at hPut
  refine ⟨hLt', fun hSame => hNe ?_, hPut.symm⟩
  rw [hSame] at hPut
  rw [hPut, List.getElem?_set_self (by rw [length_put]; exact hLt)]

/-- The length that the front of some bytes announces. -/
def lengthField (bytes : List UInt8) : Nat := ofBytes (bytes.take 4)

/-- The change is in the length, and the record now seems to reach past the end of
the segment, of which `following` bytes come after it. -/
def LooksTorn (record : Record) (i : Nat) (byte : UInt8) (following : Nat) : Prop :=
  i < 4 ∧ lengthField ((encode record).set i byte) ≤ RecordHeader.kMaxPayload ∧
    (encode record).length + following <
      RecordHeader.kSize + lengthField ((encode record).set i byte)

theorem encode_eq_fields (record : Record) :
    encode record = u32 (encodePayload record).length ++
      (u32 (crc32c (covered record) 0#32).toNat ++ covered record) := by
  rw [encode, append_assoc]
  rfl

/-- A record with one byte changed never decodes, and it is taken for incomplete
exactly when it looks torn. -/
theorem decode_changed (hFits : record.Fits) (hLt : i < (encode record).length)
    (hNe : (encode record)[i]? ≠ some byte) (rest : List UInt8) :
    (decode ((encode record).set i byte ++ rest)).status ≠ .ok ∧
      ((decode ((encode record).set i byte ++ rest)).status = .incomplete ↔
        LooksTorn record i byte rest.length) := by
  have hLengthLt : (encodePayload record).length < 256 ^ 4 := (encodedHeader_fits hFits).1
  have hCovered : (covered record).length = 12 + (encodePayload record).length := by
    rw [covered_eq, length_append, HeaderFields.length_coveredBytes]
  have hFour : ∀ value, (u32 value).length = 4 := fun value => length_put value 4
  have hSize : (encode record).length = 20 + (encodePayload record).length :=
    length_encode record
  have hHeaderSize : RecordHeader.kSize = 20 := rfl
  -- Outside the length nothing looks torn.
  have hOutside : ¬ i < 4 → Refused ((encode record).set i byte ++ rest) →
      (decode ((encode record).set i byte ++ rest)).status ≠ .ok ∧
        ((decode ((encode record).set i byte ++ rest)).status = .incomplete ↔
          LooksTorn record i byte rest.length) := by
    intro hPlace hStatus
    refine ⟨?_, iff_of_false ?_ fun hTorn => hPlace hTorn.1⟩
    · rcases hStatus with h | h <;> rw [h] <;> decide
    · rcases hStatus with h | h <;> rw [h] <;> decide
  rw [encode_eq_fields] at hNe
  by_cases hFirst : i < 4
  · rw [List.getElem?_append_left (by rw [hFour]; exact hFirst)] at hNe
    obtain ⟨hNewLt, hNewNe, hNew⟩ := set_put hFirst hNe
    generalize hLength : ofBytes ((put (encodePayload record).length 4).set i byte) =
      length
    rw [hLength] at hNewLt hNewNe hNew
    have hSet : (encode record).set i byte = u32 length ++
        (u32 (crc32c (covered record) 0#32).toNat ++ covered record) := by
      rw [encode_eq_fields, set_append_left _ _ (by rw [hFour]; exact hFirst)]
      exact congrArg (· ++ _) hNew
    have hField : lengthField ((encode record).set i byte) = length := by
      rw [hSet, lengthField, take_left' (hFour length), u32, put_eq,
        ofBytes_toBytes hNewLt]
    obtain ⟨hNotOk, hIncomplete⟩ := decode_length_changed hFits hNewLt hNewNe rest
    rw [LooksTorn, hField, hSet, hSize, hHeaderSize, append_assoc, append_assoc]
    refine ⟨hNotOk, hIncomplete.trans ?_⟩
    simp only [hFirst, true_and]
    refine and_congr_right fun _ => ?_
    omega
  · refine hOutside hFirst ?_
    rw [List.getElem?_append_right (by rw [hFour]; omega), hFour] at hNe
    rw [encode_eq_fields, set_append_right _ _ (by rw [hFour]; omega), hFour,
      append_assoc]
    by_cases hSecond : i - 4 < 4
    · rw [List.getElem?_append_left (by rw [hFour]; exact hSecond)] at hNe
      obtain ⟨hNewLt, hNewNe, hNew⟩ := set_put hSecond hNe
      rw [set_append_left _ _ (by rw [hFour]; exact hSecond), append_assoc]
      have hChanged := decode_checksum_changed hFits hNewLt hNewNe rest
      rw [u32, u32, ← hNew] at hChanged
      exact hChanged
    · rw [List.getElem?_append_right (by rw [hFour]; omega), hFour] at hNe
      rw [set_append_right _ _ (by rw [hFour]; omega), hFour, append_assoc]
      exact decode_covered_changed hFits (by omega) hNe rest

end Changed

/-! ## Reading a segment with a changed byte -/

/-- Every byte of a segment lies in one of its records. -/
theorem exists_record_at {records : List Record} {i : Nat} (hLt : i < (encodeAll records).length) :
    ∃ before record after j, records = before ++ record :: after ∧
      i = (encodeAll before).length + j ∧ j < (encode record).length := by
  induction records generalizing i with
  | nil => exact absurd hLt (Nat.not_lt_zero i)
  | cons record records ih =>
    rw [encodeAll_cons, length_append] at hLt
    by_cases hHere : i < (encode record).length
    · exact ⟨[], record, records, i, rfl, (Nat.zero_add i).symm, hHere⟩
    obtain ⟨before, found, after, j, hRecords, hPlace, hInside⟩ :=
      ih (show i - (encode record).length < _ by omega)
    refine ⟨record :: before, found, after, j, by rw [hRecords]; rfl, ?_, hInside⟩
    rw [encodeAll_cons, length_append]
    omega

/-- Reading a directory with a single segment. -/
theorem read_single {directory : JournalDirectory} (hDirectory : directory.isDirectory = true)
    {file : File} (hReadable : file.readable = true) (hOnly : directory.segments = [file])
    (first : Nat) :
    read directory first =
      match readRecords (directory.pathOf file.name) file.contents.length file.contents 0
        { report := { segmentsRead := 1 }, expected := first } with
      | .ok state => state
      | .error state => state := by
  unfold read
  rw [if_neg (by simp [hDirectory]), hOnly, foldlM_cons]
  unfold readSegment
  rw [if_neg (by simp [hReadable])]
  cases readRecords (directory.pathOf file.name) file.contents.length file.contents 0 _ <;> rfl

/-- For every segment of written records with consecutive numbers, and every byte of
it changed: exactly the records before the altered one are visited, and the
recovery is called usable exactly when the altered record looks torn.  So it is
called usable exactly when the altered record is the last, if looking torn is the
same as being the last. -/
theorem read_changed {directory : JournalDirectory} (hDirectory : directory.isDirectory = true)
    {file : File} (hReadable : file.readable = true) (hOnly : directory.segments = [file])
    {records : List Record} {first : Nat} (hFits : ∀ record ∈ records, record.Fits)
    (hConsecutive : Consecutive first records) {i : Nat} (hLt : i < (encodeAll records).length)
    {byte : UInt8} (hNe : (encodeAll records)[i]? ≠ some byte)
    (hContents : file.contents = (encodeAll records).set i byte) :
    ∃ before record after j, records = before ++ record :: after ∧
      i = (encodeAll before).length + j ∧ j < (encode record).length ∧
      (read directory first).visited = before.map Record.written ∧
      ((read directory first).report.usable = true ↔
        LooksTorn record j byte (encodeAll after).length) ∧
      (((read directory first).report.usable = true ↔ after = []) ↔
        (LooksTorn record j byte (encodeAll after).length ↔ after = [])) := by
  obtain ⟨before, record, after, j, rfl, rfl, hInside⟩ := exists_record_at hLt
  refine ⟨before, record, after, j, rfl, rfl, hInside, ?_⟩
  rw [encodeAll_append, encodeAll_cons, List.getElem?_append_right (Nat.le_add_right _ _),
    Nat.add_sub_cancel_left, List.getElem?_append_left hInside] at hNe
  rw [encodeAll_append, encodeAll_cons, List.set_append_right _ _ (Nat.le_add_right _ _),
    Nat.add_sub_cancel_left, List.set_append_left _ _ hInside] at hContents
  obtain ⟨hNotOk, hTorn⟩ := decode_changed (hFits record (by simp)) hInside hNe (encodeAll after)
  generalize hBytes : (encode record).set j byte ++ encodeAll after = bytes
  rw [hBytes] at hContents hNotOk hTorn
  have hSome : bytes ≠ [] := by
    rw [← hBytes]
    intro hNil
    have hLength := congrArg List.length hNil
    rw [List.length_append, List.length_set, List.length_nil] at hLength
    omega
  -- The records in front are visited, and then the reading ends.
  obtain ⟨left, hLeft, hRead⟩ := readRecords_encoded (directory.pathOf file.name) 0
    { report := { segmentsRead := 1 }, expected := first }
    (fun other hOther => hFits other (by simp [hOther])) (consecutive_append.mp hConsecutive).1
    (Nat.le_of_eq (congrArg List.length hContents.symm))
  rw [readRecords_stopped hSome hLeft hNotOk, ← hContents] at hRead
  rw [read_single hDirectory hReadable hOnly, hRead]
  rw [← hTorn]
  refine ⟨Recovery.visited_visitAll _ before, ?_⟩
  simp only [Recovery.stop, RecoveryReport.usable]
  by_cases hStatus : (decode bytes).status = .incomplete
  · simp [hStatus]
  · simp [hStatus]

def sampleCancel (sequence : Nat) : Record :=
  { type := .cancelOrder
    sequence := sequence
    cancelOrder := { id := ⟨1⟩, account := ⟨1⟩, instrument := ⟨1⟩ } }

/-- A journal of two records with one byte changed. -/
def changedJournal (i : Nat) (byte : UInt8) : JournalDirectory where
  path := "journal".toList
  files :=
    [{ name := segmentName 1
       contents := (encodeAll [sampleCancel 1, sampleCancel 2]).set i byte }]

/-- With a byte of the first length changed, both records are lost and the recovery
is called usable; with a byte of the last payload changed, it is not. -/
theorem usable_despite_damage :
    (2 < (encode (sampleCancel 1)).length ∧
      (encodeAll [sampleCancel 1, sampleCancel 2])[2]? ≠ some 1 ∧
      (read (changedJournal 2 1) 1).visited = [] ∧
      (read (changedJournal 2 1) 1).report.usable = true) ∧
    ((encode (sampleCancel 1)).length ≤ 100 ∧
      (encodeAll [sampleCancel 1, sampleCancel 2])[100]? = some 0 ∧
      (read (changedJournal 100 1) 1).visited = [sampleCancel 1] ∧
      (read (changedJournal 100 1) 1).report.usable = false) := by
  decide +kernel

theorem read_changed_sample :
    ∃ before record after j, [sampleCancel 1, sampleCancel 2] = before ++ record :: after ∧
      100 = (encodeAll before).length + j ∧ j < (encode record).length ∧
      (read (changedJournal 100 1) 1).visited = before.map Record.written ∧
      ((read (changedJournal 100 1) 1).report.usable = true ↔
        LooksTorn record j 1 (encodeAll after).length) ∧
      (((read (changedJournal 100 1) 1).report.usable = true ↔ after = []) ↔
        (LooksTorn record j 1 (encodeAll after).length ↔ after = [])) := by
  have hOnly : (changedJournal 100 1).segments =
      [⟨segmentName 1, (encodeAll [sampleCancel 1, sampleCancel 2]).set 100 1, true⟩] := by
    decide +kernel
  have hFits : ∀ record ∈ [sampleCancel 1, sampleCancel 2], record.Fits := by
    intro record hRecord
    simp only [List.mem_cons, List.not_mem_nil, or_false] at hRecord
    rcases hRecord with rfl | rfl
    · exact ⟨by decide, by decide, by decide, by decide, by decide⟩
    · exact ⟨by decide, by decide, by decide, by decide, by decide⟩
  have hConsecutive : Consecutive 1 [sampleCancel 1, sampleCancel 2] := ⟨rfl, rfl, trivial⟩
  exact read_changed rfl rfl hOnly hFits hConsecutive (by decide +kernel) (by decide +kernel) rfl

end ExchangeCore
