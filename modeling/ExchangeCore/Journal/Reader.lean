import ExchangeCore.Journal.Canonical
import ExchangeCore.Journal.Segment

/-!
# Recovery

`src/journal/reader.cpp`: the segments are read in order and each record is handed
to the visitor, until something other than the next record comes.  A loop that
returns early is an `Except`, with the report as it stands at that point.

The lemmas say what a segment does to a recovery that has come this far: records
that were written, numbered on from the expected one, are all visited
(`readRecords_encoded`), and a tail that does not decode ends it there
(`readRecords_stopped`).
-/

namespace ExchangeCore

open List

/-- How a journal ended. -/
inductive RecoveryOutcome
  | clean
  | tornTail
  | damaged
  | sequenceGap
  | unreadable
  deriving DecidableEq

structure RecoveryReport where
  outcome : RecoveryOutcome := .clean
  recordsRecovered : Nat := 0
  bytesRecovered : Nat := 0
  segmentsRead : Nat := 0
  lastSequence : Nat := 0
  /-- Path of the segment where the good data ends. -/
  damagedSegment : List Char := []
  goodBytesInDamagedSegment : Nat := 0
  expectedSequence : Nat := 0
  message : String := ""
  deriving DecidableEq

def RecoveryReport.usable (report : RecoveryReport) : Bool :=
  report.outcome == .clean || report.outcome == .tornTail

/-- The number after a sequence number, which is a 64-bit word. -/
def nextSequence (sequence : Nat) : Nat := Word64.add sequence 1

/-- A recovery under way: the report, what has been visited, and the sequence
number the next record should carry. -/
structure Recovery where
  report : RecoveryReport := {}
  visited : List Record := []
  expected : Nat
  deriving DecidableEq

variable (state : Recovery)

namespace Recovery

/-- The next record is what it should be. -/
def visit (decoded : DecodeResult) : Recovery :=
  { report := { state.report with
      recordsRecovered := state.report.recordsRecovered + 1
      lastSequence := decoded.record.sequence
      bytesRecovered := state.report.bytesRecovered + decoded.consumed }
    visited := state.visited ++ [decoded.record]
    expected := nextSequence state.expected }

/-- The next record has another number. -/
def gap (path : List Char) (offset : Nat) (found : Nat) : Recovery :=
  { state with report := { state.report with
      outcome := .sequenceGap
      expectedSequence := state.expected
      damagedSegment := path
      goodBytesInDamagedSegment := offset
      message := "expected sequence " ++ toString state.expected ++ " but found " ++
        toString found ++ " in " ++ String.ofList path ++ "; records are missing" } }

/-- The next bytes are not a record. -/
def stop (path : List Char) (offset : Nat) (status : DecodeStatus) : Recovery :=
  let place := " at offset " ++ toString offset ++ " of " ++ String.ofList path
  { state with report := { state.report with
      damagedSegment := path
      goodBytesInDamagedSegment := offset
      outcome := if status = .incomplete then .tornTail else .damaged
      message :=
        if status = .incomplete then "journal ends part-way through a record" ++ place
        else (if status = .corrupt then "checksum failure" else "unreadable record") ++ place } }

end Recovery

/-- The loop over one segment.  Every record takes up bytes, so the number of bytes
is enough fuel. -/
def readRecords (path : List Char) :
    Nat → List UInt8 → Nat → Recovery → Except Recovery Recovery
  | 0, _, _, state => .ok state
  | fuel + 1, bytes, offset, state =>
    if bytes.isEmpty then .ok state
    else
      let decoded := decode bytes
      if decoded.status = .ok then
        if decoded.record.sequence ≠ state.expected then
          .error (state.gap path offset decoded.record.sequence)
        else
          readRecords path fuel (bytes.drop decoded.consumed) (offset + decoded.consumed)
            (state.visit decoded)
      else .error (state.stop path offset decoded.status)

def readSegment (directory : JournalDirectory) (state : Recovery) (file : File) :
    Except Recovery Recovery :=
  let path := directory.pathOf file.name
  if !file.readable then
    .error { state with report := { state.report with
      outcome := .unreadable
      message := "cannot open segment " ++ String.ofList path } }
  else
    readRecords path file.contents.length file.contents 0
      { state with report := { state.report with
        segmentsRead := state.report.segmentsRead + 1 } }

/-- Read a journal directory back in write order. -/
def read (directory : JournalDirectory) (expectedFirstSequence : Nat) : Recovery :=
  if !directory.isDirectory then
    { report :=
        { outcome := .unreadable
          message := "journal directory does not exist: " ++ String.ofList directory.path }
      expected := expectedFirstSequence }
  else
    match directory.segments.foldlM (readSegment directory)
      { expected := expectedFirstSequence } with
    | .ok state => state
    | .error state => state

/-! ## Segments of written records -/

def encodeAll (records : List Record) : List UInt8 := records.flatMap encode

/-- Numbered one after the other, from a given number on. -/
def Consecutive (first : Nat) : List Record → Prop
  | [] => True
  | record :: records => record.sequence = first ∧ Consecutive (nextSequence first) records

/-- The recovery after it has visited what was written of a record. -/
def Recovery.visitWritten (record : Record) : Recovery :=
  state.visit { status := .ok, consumed := (encode record).length, record := record.written }

def Recovery.visitAll (records : List Record) : Recovery :=
  records.foldl Recovery.visitWritten state

section Segment

variable {path : List Char} {fuel offset : Nat} {bytes : List UInt8} {state}

@[simp] theorem encodeAll_cons (record : Record) (records : List Record) :
    encodeAll (record :: records) = encode record ++ encodeAll records := flatMap_cons

theorem encodeAll_append (records records' : List Record) :
    encodeAll (records ++ records') = encodeAll records ++ encodeAll records' :=
  flatMap_append

theorem length_encode_pos (record : Record) : 0 < (encode record).length := by
  rw [length_encode]
  exact Nat.add_pos_left (by decide) _

/-- Records that were written are visited one after the other. -/
theorem readRecords_encoded (path : List Char) (offset : Nat) (state : Recovery)
    {records : List Record} (hFits : ∀ record ∈ records, record.Fits)
    (hConsecutive : Consecutive state.expected records) {rest : List UInt8}
    (hFuel : (encodeAll records ++ rest).length ≤ fuel) :
    ∃ left, rest.length ≤ left ∧
      readRecords path fuel (encodeAll records ++ rest) offset state =
        readRecords path left rest (offset + (encodeAll records).length)
          (state.visitAll records) := by
  induction records generalizing fuel offset state with
  | nil => exact ⟨fuel, hFuel, rfl⟩
  | cons record records ih =>
    obtain ⟨hSequence, hNext⟩ := hConsecutive
    have hPos := length_encode_pos record
    rw [encodeAll_cons, append_assoc, length_append] at hFuel
    obtain ⟨left, rfl⟩ : ∃ left, fuel = left + 1 := ⟨fuel - 1, by omega⟩
    have hDecode := decode_encode (hFits record (by simp)) (encodeAll records ++ rest)
    obtain ⟨left', hLeft, hRead⟩ : ∃ left', rest.length ≤ left' ∧
        readRecords path left (encodeAll records ++ rest) (offset + (encode record).length)
            (state.visitWritten record) =
          readRecords path left' rest (offset + (encode record).length + (encodeAll records).length)
            ((state.visitWritten record).visitAll records) :=
      ih _ _ (fun other hOther => hFits other (mem_cons_of_mem record hOther)) hNext (by omega)
    refine ⟨left', hLeft, ?_⟩
    rw [encodeAll_cons, append_assoc, readRecords, if_neg, hDecode]
    · dsimp only
      rw [if_pos rfl, if_neg (by simp [hSequence]), drop_left, length_append,
        ← Nat.add_assoc]
      exact hRead
    · intro hEmpty
      have hLength := congrArg List.length (isEmpty_iff.mp hEmpty)
      rw [length_append, length_nil] at hLength
      omega

/-- Bytes that are not a record end the reading. -/
theorem readRecords_stopped (hSome : bytes ≠ []) (hFuel : bytes.length ≤ fuel)
    (hStatus : (decode bytes).status ≠ .ok) :
    readRecords path fuel bytes offset state =
      .error (state.stop path offset (decode bytes).status) := by
  have hPos := length_pos_iff.mpr hSome
  obtain ⟨left, rfl⟩ : ∃ left, fuel = left + 1 := ⟨fuel - 1, by omega⟩
  rw [readRecords, if_neg (fun h => hSome (isEmpty_iff.mp h))]
  dsimp only
  rw [if_neg hStatus]

theorem Recovery.visited_visitAll (state : Recovery) (records : List Record) :
    (state.visitAll records).visited = state.visited ++ records.map Record.written := by
  induction records generalizing state with
  | nil => exact (append_nil _).symm
  | cons record records ih =>
    show ((state.visitWritten record).visitAll records).visited = _
    rw [ih, Recovery.visitWritten, Recovery.visit, append_assoc]
    rfl

end Segment

end ExchangeCore
