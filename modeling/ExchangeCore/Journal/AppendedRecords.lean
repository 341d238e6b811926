import ExchangeCore.Journal.RefusedRecords

/-!
# Records that were appended

On a disk where nothing fails the writer never breaks, whatever the sizes of its
buffer and its segments and whenever it persists.  It goes through the segments as
the sizes of the records demand (`segmentsUsed`), and once it is closed a reader
finds all of them (`appended_is_recovered`).
-/

namespace ExchangeCore

open JournalWriter

def WriteResult.succeeds : WriteResult → Bool
  | .transferred _ => true
  | .interrupted => true
  | .failed _ => false

/-- No call fails.  Writes may still be short or interrupted. -/
structure Disk.Flawless (disk : Disk) : Prop where
  creation : disk.creation = .done
  opens : disk.opens.Sure
  persists : disk.persists.Sure
  writes : ∀ result ∈ disk.writes.coming, result.succeeds = true
  writesAfter : disk.writes.after = .done

theorem lasting_of_succeeds (after : CallResult) {coming : List WriteResult}
    (hSucceeds : ∀ result ∈ coming, result.succeeds = true) : Lasting after coming := by
  induction coming with
  | nil => trivial
  | cons result coming ih =>
    obtain ⟨hFirst, hRest⟩ := List.forall_mem_cons.mp hSucceeds
    cases result with
    | transferred count => exact ih hRest
    | interrupted => exact ih hRest
    | failed error => cases hFirst

theorem Disk.Flawless.onlyWritesFail {disk : Disk} (hDisk : disk.Flawless) : disk.OnlyWritesFail :=
  ⟨hDisk.opens, hDisk.persists, lasting_of_succeeds _ hDisk.writes⟩

/-- The number of segments that records go through, when the current one holds so
many bytes. -/
def segmentsUsed (segmentBytes : Nat) : Nat → List Record → Nat
  | _, [] => 1
  | size, record :: records =>
    if segmentBytes ≤ size + (encode record).length then 1 + segmentsUsed segmentBytes 0 records
    else segmentsUsed segmentBytes (size + (encode record).length) records

theorem segmentsUsed_pos (segmentBytes size : Nat) (records : List Record) :
    0 < segmentsUsed segmentBytes size records := by
  induction records generalizing size with
  | nil => exact Nat.one_pos
  | cons record records ih =>
    rw [segmentsUsed]
    split
    · omega
    · exact ih _

/-- A writer that has not lost anything and will not. -/
structure Carrying (others : List (List Char × List UInt8)) (config : WriterConfig)
    (writer : JournalWriter) (finished : List (List Record)) (current : List Record) : Prop where
  writing : Writing others writer finished current
  config : writer.config = config
  size : writer.segmentSize = (encodeAll current).length
  writesAfter : writer.disk.writes.after = .done

section Calls

variable {others : List (List Char × List UInt8)} {config : WriterConfig}
  {writer : JournalWriter} {finished : List (List Record)} {current : List Record}

/-- A writer only breaks on a disk that fails for good. -/
theorem Broken.writesAfter (hBroken : Broken others writer finished current) :
    writer.disk.writes.after ≠ .done := hBroken.dead.1

variable (hCarrying : Carrying others config writer finished current)
include hCarrying

/-- An operation within a segment succeeds. -/
theorem Carrying.continue
    {result : JournalWriter × Bool} (hContinues : Continues others finished current result)
    (hSame : JournalWriter.SameSegment writer result.1) :
    result.2 = true ∧ Carrying others config result.1 finished current := by
  have hAfter := hSame.writesAfter.trans hCarrying.writesAfter
  rcases hContinues with ⟨hTrue, hWriting⟩ | ⟨-, hBroken⟩
  · exact ⟨hTrue, hWriting, hSame.config.trans hCarrying.config,
      hSame.segmentSize.trans hCarrying.size, hAfter⟩
  · exact absurd hAfter hBroken.writesAfter

theorem Carrying.flush :
    writer.flush.2 = true ∧ Carrying others config writer.flush.1 finished current :=
  hCarrying.continue hCarrying.writing.flush writer.sameSegment_flush

theorem Carrying.sync :
    writer.sync.2 = true ∧ Carrying others config writer.sync.1 finished current :=
  hCarrying.continue hCarrying.writing.sync writer.sameSegment_sync

/-- An appended record goes to the current segment, and the next one starts if this
one is full. -/
theorem Carrying.append (record : Record) (now : Int)
    (hRoom : config.segmentBytes ≤ (encodeAll current).length + (encode record).length →
      finished.length + 1 < kMaxSegmentIndex) :
    (writer.append record now).2 = true ∧
      if config.segmentBytes ≤ (encodeAll current).length + (encode record).length then
        Carrying others config (writer.append record now).1
          (finished ++ [current ++ [record]]) []
      else Carrying others config (writer.append record now).1 finished (current ++ [record]) := by
  obtain ⟨hWriting, rfl, hSize, hAfter⟩ := hCarrying
  have hAppend := hWriting.append_split record now (by rw [hSize]; exact hRoom)
  have hAdvances := writer.append_advances record now
  rw [hSize] at hAppend
  rcases hAppend with ⟨hTrue, hAppended⟩ | ⟨-, hBroken⟩
  · refine ⟨hTrue, ?_⟩
    have hSizeNow := writer.segmentSize_append hTrue
    rw [hSize] at hSizeNow
    unfold splitAfter at hAppended
    split
    · next hFull =>
        rw [if_pos hFull] at hAppended hSizeNow
        exact ⟨hAppended, hAdvances.config, hSizeNow, hAdvances.writesAfter.trans hAfter⟩
    next hSpace =>
    rw [if_neg hSpace] at hAppended hSizeNow
    refine ⟨hAppended, hAdvances.config, ?_, hAdvances.writesAfter.trans hAfter⟩
    rw [hSizeNow, encodeAll_append, List.length_append]
    simp [encodeAll]
  · exact absurd (hAdvances.writesAfter.trans hAfter) hBroken.writesAfter

/-- All records of a number of calls reach the segments they are meant for. -/
theorem Carrying.run {calls : List WriterCall} (hOpen : ∀ call ∈ calls, call ≠ .close)
    (hRoom : finished.length +
      segmentsUsed config.segmentBytes (encodeAll current).length (recordsOf calls) ≤
        kMaxSegmentIndex) :
    ∃ finished' current', Carrying others config (writer.run calls) finished' current' ∧
      finished'.flatten ++ current' = finished.flatten ++ current ++ recordsOf calls := by
  induction calls generalizing writer finished current with
  | nil => exact ⟨finished, current, hCarrying, (List.append_nil _).symm⟩
  | cons call calls ih =>
    obtain ⟨hFirst, hRest⟩ := List.forall_mem_cons.mp hOpen
    cases call with
    | flush => exact ih hCarrying.flush.2 hRest hRoom
    | sync => exact ih hCarrying.sync.2 hRest hRoom
    | close => exact absurd rfl hFirst
    | append record now =>
      have hRecords : recordsOf (.append record now :: calls) = record :: recordsOf calls := rfl
      rw [hRecords, segmentsUsed] at hRoom
      have hSome := segmentsUsed_pos config.segmentBytes 0 (recordsOf calls)
      obtain ⟨-, hAppended⟩ := hCarrying.append record now fun hFull => by
        rw [if_pos hFull] at hRoom
        omega
      rw [hRecords]
      split at hAppended
      · next hFull =>
          rw [if_pos hFull, ← Nat.add_assoc] at hRoom
          obtain ⟨finished', current', hRun, hAll⟩ := ih hAppended hRest (by
            rw [List.length_append, List.length_singleton]
            exact hRoom)
          exact ⟨finished', current', hRun, by rw [hAll]; simp⟩
      · next hSpace =>
          rw [if_neg hSpace] at hRoom
          obtain ⟨finished', current', hRun, hAll⟩ := ih hAppended hRest (by
            rw [encodeAll_append, List.length_append]
            simpa [encodeAll] using hRoom)
          exact ⟨finished', current', hRun, by rw [hAll]; simp⟩

/-- Closing the writer brings everything into the files. -/
theorem Carrying.close : Closed others writer.close finished current [] := by
  obtain ⟨hTrue, hFlushed⟩ := hCarrying.flush
  obtain ⟨-, -, written, hFiled, hWritten⟩ := hFlushed.writing
  rw [(flush_done hTrue).1] at hWritten
  exact hFiled.close hCarrying.writing.fd hWritten

end Calls

variable {others : List (List Char × List UInt8)}

/-- A writer starts with an empty segment behind those that are there. -/
theorem carrying_opened (finished : List (List Record))
    (config : WriterConfig) {disk : Disk} (hDisk : disk.Flawless) (hOthers : NoSegments others)
    (hListing : disk.listing = others ++ segmentFiles (finished.map encodeAll))
    (hBound : finished.length + 1 ≤ kMaxSegmentIndex) :
    ({ config := config, disk := disk } : JournalWriter).openJournal.2 = true ∧
      Carrying others config (opened config disk) finished [] := by
  obtain ⟨hOpened, hWriting⟩ :=
    writing_reopened config hDisk.onlyWritesFail hDisk.creation hOthers hListing hBound
  suffices hSpec : (opened config disk).config = config ∧
      (opened config disk).segmentSize = 0 ∧
      (opened config disk).disk.writes.after = .done by
    exact ⟨hOpened, hWriting, hSpec.1, hSpec.2.1, hSpec.2.2⟩
  have hCreated : disk.createDirectory = ({ disk with isDirectory := true }, .done) := by
    rw [Disk.createDirectory, hDisk.creation]
  unfold opened
  unfold openJournal at hOpened ⊢
  dsimp only at hOpened ⊢
  rw [hCreated] at hOpened ⊢
  dsimp only at hOpened ⊢
  unfold startAfterHighest at hOpened ⊢
  obtain ⟨hAdvances, hSize⟩ := rollSegment_spec _
  exact ⟨hAdvances.config, hSize hOpened, hAdvances.writesAfter.trans hDisk.writesAfter⟩

/-- A journal that was closed with nothing missing is read back as it was written. -/
theorem read_of_closed {writer : JournalWriter}
    {finished : List (List Record)} {current : List Record}
    (hClosed : Closed others writer finished current []) {first : Nat}
    (hFits : ∀ record ∈ finished.flatten ++ current, record.Fits)
    (hConsecutive : Consecutive first (finished.flatten ++ current)) :
    writer.directory.segments.map File.contents = (finished ++ [current]).map encodeAll ∧
      (read writer.directory first).visited = (finished.flatten ++ current).map Record.written ∧
      (read writer.directory first).report.outcome = .clean := by
  obtain ⟨hOthers, hDirectory, hBound, written, hListing, hWritten⟩ := hClosed
  rw [List.append_nil] at hWritten
  obtain ⟨hContents, hReadable⟩ := contents_segments hOthers
    (by rw [List.length_append, List.length_map]; exact hBound) hListing
  have hChunks : writer.directory.segments.map File.contents =
      (finished ++ [current]).map encodeAll := by
    rw [hContents, List.map_append, ← hWritten]
    rfl
  have hAll : (finished ++ [current]).flatten = finished.flatten ++ current := by simp
  rw [← hAll] at hFits hConsecutive ⊢
  exact ⟨hChunks, read_encoded hDirectory hReadable hChunks hFits hConsecutive⟩

/-- What was appended to a journal in a fresh directory, with flushes and syncs in
between, is what a reader visits once the journal has been closed; and every segment
holds whole records. -/
theorem appended_is_recovered (config : WriterConfig) (disk : Disk) (hDisk : disk.Flawless)
    (hEmpty : NoSegments disk.listing) (calls : List WriterCall)
    (hOpen : ∀ call ∈ calls, call ≠ .close) (hFits : ∀ record ∈ recordsOf calls, record.Fits)
    (hNumbers : (recordsOf calls).map Record.sequence =
      List.range' 1 (recordsOf calls).length)
    (hSegments : segmentsUsed config.segmentBytes 0 (recordsOf calls) < 10 ^ 8) :
    let writer := ((JournalWriter.opened config disk).run calls).close
    (read writer.directory 1).visited = (recordsOf calls).map Record.written ∧
      (read writer.directory 1).report.outcome = .clean ∧
      ∃ chunks : List (List Record), chunks.flatten = recordsOf calls ∧
        writer.directory.segments.map File.contents = chunks.map encodeAll := by
  have hMax : kMaxSegmentIndex = 99999999 := rfl
  obtain ⟨-, hOpened⟩ := carrying_opened [] config hDisk hEmpty (List.append_nil _).symm (by decide)
  obtain ⟨finished, current, hCarrying, hAll⟩ := hOpened.run hOpen (by
    rw [List.length_nil, Nat.zero_add]
    show segmentsUsed _ 0 _ ≤ _
    omega)
  have hRecords : finished.flatten ++ current = recordsOf calls := hAll
  rw [← hRecords] at hFits hNumbers ⊢
  obtain ⟨hContents, hVisited, hClean⟩ := read_of_closed hCarrying.close hFits
    (consecutive_of_sequences hFits hNumbers)
  exact ⟨hVisited, hClean, finished ++ [current], by simp, hContents⟩

/-- A disk that takes the first bytes in small portions. -/
def haltingDisk : Disk where
  writes := { coming := [.transferred 7, .interrupted, .transferred 1] }

/-- Two cancels, with the second in the buffer until the journal is closed. -/
def sampleCalls : List WriterCall :=
  [.append (sampleCancel 1) 5, .flush, .sync, .append (sampleCancel 2) 6]

/-- Segments that hold one of the cancels. -/
def sampleConfig : WriterConfig where
  directory := []
  segmentBytes := 60
  syncInterval := 10

theorem appended_is_recovered_sample :
    segmentsUsed sampleConfig.segmentBytes 0 (recordsOf sampleCalls) < 10 ^ 8 ∧
      (read ((JournalWriter.opened sampleConfig haltingDisk).run sampleCalls).close.directory
        1).visited = [sampleCancel 1, sampleCancel 2] ∧
      (read ((JournalWriter.opened sampleConfig haltingDisk).run sampleCalls).close.directory
        1).report.outcome = .clean := by
  have hDisk : haltingDisk.Flawless := ⟨rfl, by decide, by decide, by decide, rfl⟩
  have hSegments : segmentsUsed sampleConfig.segmentBytes 0 (recordsOf sampleCalls) < 10 ^ 8 := by
    decide +kernel
  have hRecords : (recordsOf sampleCalls).map Record.written = [sampleCancel 1, sampleCancel 2] :=
    rfl
  have hSample := appended_is_recovered sampleConfig haltingDisk hDisk (by decide) sampleCalls
    (by decide) (by decide) rfl hSegments
  dsimp only at hSample
  generalize read ((JournalWriter.opened sampleConfig haltingDisk).run
    sampleCalls).close.directory 1 = recovery at hSample ⊢
  rw [hRecords] at hSample
  exact ⟨hSegments, hSample.1, hSample.2.1⟩

end ExchangeCore
