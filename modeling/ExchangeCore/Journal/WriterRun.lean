import ExchangeCore.Journal.SegmentFiles
import ExchangeCore.Journal.WriterSteps

/-!
# A writer on a disk that fills up

When nothing but writes can fail, and no write transfers anything once one has
failed, a writer is in one of two states.  It is `Writing`: the finished segments
hold whole records, and the last one together with the buffer does.  Or it is
`Broken`: the last segment has lost its end for good, and with it at least part of
the record that was being appended.

Each operation of the writer keeps it writing or breaks it; a broken writer takes
no more records, and closing it adds nothing to the file.
-/

namespace ExchangeCore

open List JournalWriter

/-- Files can be opened and persisted, and a write that fails is followed by no
other that transfers anything. -/
structure Disk.OnlyWritesFail (disk : Disk) : Prop where
  opens : disk.opens.Sure
  persists : disk.persists.Sure
  writes : Lasting disk.writes.after disk.writes.coming

/-- The open segment comes after the finished ones, next to files that are no
segments. -/
structure Filed (others : List (List Char × List UInt8)) (writer : JournalWriter)
    (finished : List (List UInt8)) (current : List UInt8) : Prop where
  noSegments : NoSegments others
  isDirectory : writer.disk.isDirectory = true
  listing : writer.disk.listing = others ++ segmentFiles (finished ++ [current])
  index : writer.segmentIndex = finished.length + 1
  bound : finished.length + 1 ≤ kMaxSegmentIndex
  fd : writer.fd = some (segmentName (finished.length + 1))

structure Writing (others : List (List Char × List UInt8)) (writer : JournalWriter)
    (finished : List (List Record)) (current : List Record) : Prop where
  healthy : writer.healthy = true
  disk : writer.disk.OnlyWritesFail
  filed : ∃ written, Filed others writer (finished.map encodeAll) written ∧
    encodeAll current = written ++ writer.buffer

structure Broken (others : List (List Char × List UInt8)) (writer : JournalWriter)
    (finished : List (List Record)) (current : List Record) : Prop where
  unhealthy : writer.healthy = false
  dead : Dead writer.disk.writes.after writer.disk.writes.coming
  buffer : writer.buffer ≠ []
  filed : ∃ written missing, Filed others writer (finished.map encodeAll) written ∧
    missing ≠ [] ∧ encodeAll current = written ++ missing

/-- An operation leaves the writer writing, or reports that it broke. -/
def Continues (others : List (List Char × List UInt8)) (finished : List (List Record))
    (current : List Record) (result : JournalWriter × Bool) : Prop :=
  result.2 = true ∧ Writing others result.1 finished current ∨
    result.2 = false ∧ Broken others result.1 finished current

section Continues

variable {others : List (List Char × List UInt8)} {finished : List (List Record)}
  {current : List Record} {result : JournalWriter × Bool}

theorem Continues.of_true (hContinues : Continues others finished current result)
    (hTrue : result.2 = true) : Writing others result.1 finished current := by
  rcases hContinues with ⟨-, hWriting⟩ | ⟨hFalse, -⟩
  · exact hWriting
  · rw [hTrue] at hFalse
    cases hFalse

theorem Continues.of_false (hContinues : Continues others finished current result)
    (hFalse : result.2 = false) : Broken others result.1 finished current := by
  rcases hContinues with ⟨hTrue, -⟩ | ⟨-, hBroken⟩
  · rw [hTrue] at hFalse
    cases hFalse
  · exact hBroken

end Continues

section Operations

variable {others : List (List Char × List UInt8)} {writer : JournalWriter}

/-! ## The disk under the writer -/

variable {finished : List (List UInt8)} {current : List UInt8}

section

variable (hFiled : Filed others writer finished current)
include hFiled

theorem Filed.of_same {writer' : JournalWriter}
    (hDisk : writer'.disk = writer.disk) (hIndex : writer'.segmentIndex = writer.segmentIndex)
    (hFd : writer'.fd = writer.fd) : Filed others writer' finished current :=
  ⟨hFiled.noSegments, hDisk ▸ hFiled.isDirectory, hDisk ▸ hFiled.listing,
    hIndex.trans hFiled.index, hFiled.bound, hFd.trans hFiled.fd⟩

theorem Filed.writeAll (data : List UInt8) :
    Filed others
      { writer with disk := (writer.disk.writeAll (segmentName (finished.length + 1)) data).1 }
      finished (current ++ (writer.disk.attempt data).sent) := by
  refine ⟨hFiled.noSegments, hFiled.isDirectory, ?_, hFiled.index, hFiled.bound, hFiled.fd⟩
  show (writer.disk.writeAll _ data).1.listing = _
  rw [Disk.listing_writeAll, hFiled.listing]
  exact map_current hFiled.noSegments hFiled.bound current (· ++ (writer.disk.attempt data).sent)

theorem Filed.persist (file : List Char) :
    Filed others (writer.persist file).1 finished current := by
  have hDirectory : (writer.disk.persist file).1.isDirectory = writer.disk.isDirectory := by
    unfold Disk.persist
    dsimp only
    split <;> rfl
  exact ⟨hFiled.noSegments, hDirectory.trans hFiled.isDirectory,
    (writer.disk.listing_persist file).trans hFiled.listing, hFiled.index, hFiled.bound, hFiled.fd⟩

end

theorem Disk.OnlyWritesFail.persist {disk : Disk} (hDisk : disk.OnlyWritesFail) (file : List Char) :
    (disk.persist file).2 = true ∧ (disk.persist file).1.OnlyWritesFail := by
  obtain ⟨hDone, hSure⟩ := hDisk.persists.next
  unfold Disk.persist
  dsimp only
  rw [hDone]
  exact ⟨rfl, hDisk.opens, hSure, hDisk.writes⟩

/-! ## Operations -/

section Records

variable {finished : List (List Record)} {current : List Record}

section

variable (hWriting : Writing others writer finished current)
include hWriting

theorem Writing.flush : Continues others finished current writer.flush := by
  obtain ⟨hHealthy, hDisk, written, hFiled, hWritten⟩ := hWriting
  have hAfter := hFiled.writeAll writer.buffer
  have hLasting := transfer_lasting hDisk.writes writer.disk.errno writer.buffer
  have hFlushes := writer.flushes
  generalize writer.flush = result at hFlushes ⊢
  cases hFlushes with
  | empty => exact Or.inl ⟨hHealthy, hHealthy, hDisk, written, hFiled, hWritten⟩
  | closed hFd => cases hFiled.fd.symm.trans hFd
  | written file hFd hComplete =>
    cases hFiled.fd.symm.trans hFd
    rw [Disk.sent_of_complete hComplete] at hAfter
    exact Or.inl ⟨rfl, hHealthy, ⟨hDisk.opens, hDisk.persists, (if_pos hComplete).mp hLasting⟩, _,
      hAfter.of_same rfl rfl rfl, hWritten.trans (append_nil _).symm⟩
  | failed file message hBuffer hFd hGivenUp =>
    cases hFiled.fd.symm.trans hFd
    obtain ⟨missing, hMissing, hData⟩ := Disk.exists_missing hGivenUp
    refine Or.inr ⟨rfl, rfl, (if_neg (ne_true_of_eq_false hGivenUp)).mp hLasting, hBuffer, _,
      missing, hAfter.of_same rfl rfl rfl, hMissing, ?_⟩
    rw [hWritten, append_assoc]
    exact congrArg (written ++ ·) hData

/-- Only the disk knows that a file has been persisted. -/
theorem Writing.persist (file : List Char) :
    (writer.persist file).2 = true ∧ Writing others (writer.persist file).1 finished current := by
  obtain ⟨hHealthy, hDisk, written, hFiled, hWritten⟩ := hWriting
  obtain ⟨hDone, hDisk'⟩ := hDisk.persist file
  exact ⟨hDone, hHealthy, hDisk', written, hFiled.persist file, hWritten⟩

theorem Writing.fd : writer.fd = some (segmentName (finished.length + 1)) := by
  obtain ⟨-, -, written, hFiled, -⟩ := hWriting
  rw [hFiled.fd, length_map]

theorem Writing.index : writer.segmentIndex = finished.length + 1 := by
  obtain ⟨-, -, written, hFiled, -⟩ := hWriting
  rw [hFiled.index, length_map]

theorem Writing.of_same {writer' : JournalWriter} (hDisk : writer'.disk = writer.disk)
    (hIndex : writer'.segmentIndex = writer.segmentIndex) (hFd : writer'.fd = writer.fd)
    (hHealthy : writer'.healthy = writer.healthy) (hBuffer : writer'.buffer = writer.buffer) :
    Writing others writer' finished current := by
  obtain ⟨hHealthy', hDisk', written, hFiled, hWritten⟩ := hWriting
  exact ⟨hHealthy.trans hHealthy', hDisk ▸ hDisk', written, hFiled.of_same hDisk hIndex hFd,
    hBuffer ▸ hWritten⟩

theorem Writing.sync : Continues others finished current writer.sync := by
  have hFlush := hWriting.flush
  unfold JournalWriter.sync
  rw [hWriting.fd]
  dsimp only
  rcases hFlush with ⟨hTrue, hWriting'⟩ | ⟨hFalse, hBroken⟩
  · rw [hTrue, if_neg (by decide)]
    obtain ⟨hDone, hPersisted⟩ := hWriting'.persist (segmentName (finished.length + 1))
    rw [hDone, if_neg (by decide)]
    exact Or.inl ⟨rfl, hPersisted.of_same rfl rfl rfl rfl rfl⟩
  · rw [hFalse, if_pos (by decide)]
    exact Or.inr ⟨rfl, hBroken⟩

theorem Writing.encodeRecord (record : Record) :
    Writing others (writer.encodeRecord record) finished (current ++ [record]) := by
  obtain ⟨hHealthy, hDisk, written, hFiled, hWritten⟩ := hWriting
  refine ⟨hHealthy, hDisk, written, hFiled.of_same rfl rfl rfl, ?_⟩
  rw [encodeAll_append, hWritten, append_assoc]
  exact congrArg (fun bytes => written ++ (writer.buffer ++ bytes)) (by simp [encodeAll])

end

/-! ## Changing segments -/

/-- Between two segments: nothing is open and nothing is left over. -/
structure Ready (others : List (List Char × List UInt8)) (writer : JournalWriter)
    (finished : List (List Record)) : Prop where
  noSegments : NoSegments others
  isDirectory : writer.disk.isDirectory = true
  listing : writer.disk.listing = others ++ segmentFiles (finished.map encodeAll)
  index : writer.segmentIndex = finished.length
  healthy : writer.healthy = true
  disk : writer.disk.OnlyWritesFail
  buffer : writer.buffer = []

theorem Ready.openExclusive (hReady : Ready others writer finished)
    (hBound : finished.length + 1 ≤ kMaxSegmentIndex) :
    writer.disk.openExclusive (segmentName (finished.length + 1)) =
      ({ writer.disk with
          opens := writer.disk.opens.next.2
          files := writer.disk.files ++ [{ name := segmentName (finished.length + 1) }] },
        true) := by
  obtain ⟨hDone, -⟩ := hReady.disk.opens.next
  have hNew : ¬ (writer.disk.files.any fun file =>
      file.name == segmentName (finished.length + 1)) = true := by
    intro hAny
    obtain ⟨file, hFile, hName⟩ := any_eq_true.mp hAny
    have hMem : (file.name, file.contents) ∈ others ++ segmentFiles (finished.map encodeAll) :=
      hReady.listing ▸ mem_map_of_mem hFile
    have hLength : (finished.map encodeAll).length = finished.length := length_map _
    refine name_ne_current hReady.noSegments (by rw [hLength]; exact hBound) hMem ?_
    rw [hLength]
    exact beq_iff_eq.mp hName
  unfold Disk.openExclusive
  dsimp only
  rw [hDone]
  dsimp only
  rw [if_neg hNew]

theorem Ready.startSegment (hReady : Ready others writer finished)
    (hBound : finished.length + 1 ≤ kMaxSegmentIndex) :
    writer.startSegment.2 = true ∧ Writing others writer.startSegment.1 finished [] := by
  obtain ⟨-, hSure⟩ := hReady.disk.opens.next
  have hOpen := hReady.openExclusive hBound
  unfold JournalWriter.startSegment
  rw [if_neg (by rw [hReady.index]; omega)]
  dsimp only
  rw [hReady.index, hOpen]
  dsimp only
  rw [if_neg (by decide)]
  refine ⟨rfl, hReady.healthy, ⟨hSure, hReady.disk.persists, hReady.disk.writes⟩, [], ?_, ?_⟩
  · refine ⟨hReady.noSegments, hReady.isDirectory, ?_, ?_, ?_, ?_⟩
    · rw [segmentFiles_concat, ← List.append_assoc, ← hReady.listing, List.length_map]
      exact List.map_append
    · rw [List.length_map]
    · rw [List.length_map]
      exact hBound
    · rw [List.length_map]
  · exact hReady.buffer.symm

theorem Broken.fail (hBroken : Broken others writer finished current) (message : String) :
    Broken others (writer.fail message) finished current := by
  obtain ⟨-, hDead, hBuffer, written, missing, hFiled, hMissing, hWritten⟩ := hBroken
  exact ⟨rfl, hDead, hBuffer, written, missing, hFiled.of_same rfl rfl rfl, hMissing, hWritten⟩

/-- A segment is finished once all of it has been written, and then the next one starts. -/
theorem Writing.rollSegment (hWriting : Writing others writer finished current)
    (hRoom : finished.length + 1 < kMaxSegmentIndex) :
    writer.rollSegment.2 = true ∧ Writing others writer.rollSegment.1 (finished ++ [current]) [] ∨
      writer.rollSegment.2 = false ∧ Broken others writer.rollSegment.1 finished current := by
  have hFlush := hWriting.flush
  have hRolled := rolled hWriting.fd
  generalize writer.rollSegment = result at hRolled ⊢
  cases hRolled with
  | unwritten message hUnwritten => exact Or.inr ⟨rfl, (hFlush.of_false hUnwritten).fail message⟩
  | unpersisted message hTrue hPersist =>
    rw [((hFlush.of_true hTrue).persist _).1] at hPersist
    cases hPersist
  | finished closed hTrue _ hDisk _ hBuffer hHealthy _ hIndex =>
    obtain ⟨-, hPersisted⟩ := (hFlush.of_true hTrue).persist (segmentName (finished.length + 1))
    obtain ⟨-, hSure, written, hFiled, hWritten⟩ := hPersisted
    have hEmpty : (writer.flush.1.persist (segmentName (finished.length + 1))).1.buffer = [] :=
      (flush_done hTrue).1
    rw [hEmpty, append_nil] at hWritten
    have hReady : Ready others closed (finished ++ [current]) := by
      refine ⟨hFiled.noSegments, hDisk ▸ hFiled.isDirectory, ?_, ?_,
        hHealthy.trans hWriting.healthy, hDisk ▸ hSure, hBuffer⟩
      · rw [map_append, map_singleton, hWritten, hDisk]
        exact hFiled.listing
      · rw [length_append, length_singleton, hIndex, hWriting.index]
    exact Or.inl (hReady.startSegment (by rw [length_append, length_singleton]; omega))

/-! ## Appending -/

/-- The records so far, one more added. -/
def Extends (others : List (List Char × List UInt8)) (records : List Record)
    (writer : JournalWriter) : Prop :=
  ∃ finished current, Writing others writer finished current ∧ finished.flatten ++ current = records

/-- The record is stored, or the writer breaks over it. -/
theorem Writing.store (hWriting : Writing others writer finished current) (record : Record)
    (now : Int) :
    Continues others finished (current ++ [record]) (writer.store record now) := by
  have hEncoded := hWriting.encodeRecord record
  have hStored := writer.stored record now
  generalize writer.encodeRecord record = encoded at *
  generalize writer.store record now = result at *
  cases hStored with
  | buffered => exact Or.inl ⟨rfl, hEncoded⟩
  | unwritten hFlush => exact Or.inr ⟨rfl, hEncoded.flush.of_false hFlush⟩
  | written _ hFlush => exact Or.inl ⟨rfl, hEncoded.flush.of_true hFlush⟩
  | unpersisted hFlush hSync =>
    have hFlushed := hEncoded.flush.of_true hFlush
    exact Or.inr ⟨rfl, hFlushed.sync.of_false hSync⟩
  | persisted hFlush hSync =>
    have hSynced := (hEncoded.flush.of_true hFlush).sync.of_true hSync
    exact Or.inl ⟨rfl, hSynced.of_same rfl rfl rfl rfl rfl⟩

section

variable (segmentBytes size : Nat) (finished : List (List Record)) (current : List Record)

/-- The segments after another record has been stored in one of a certain size. -/
def splitAfter : List (List Record) × List Record :=
  if segmentBytes ≤ size then (finished ++ [current], []) else (finished, current)

theorem flatten_splitAfter :
    (splitAfter segmentBytes size finished current).1.flatten ++
      (splitAfter segmentBytes size finished current).2 = finished.flatten ++ current := by
  unfold splitAfter
  split <;> simp

end

/-- A record goes to the current segment, and the next one starts if this one is
full. -/
theorem Writing.append_split (hWriting : Writing others writer finished current)
    (record : Record) (now : Int)
    (hRoom : writer.config.segmentBytes ≤ writer.segmentSize + (encode record).length →
      finished.length + 1 < kMaxSegmentIndex) :
    let split := splitAfter writer.config.segmentBytes
      (writer.segmentSize + (encode record).length) finished (current ++ [record])
    (writer.append record now).2 = true ∧
        Writing others (writer.append record now).1 split.1 split.2 ∨
      (writer.append record now).2 = false ∧
        Broken others (writer.append record now).1 finished (current ++ [record]) := by
  have hSame := writer.sameSegment_store record now
  have hConfig : (writer.store record now).1.config = writer.config := hSame.config
  have hSize : (writer.store record now).1.segmentSize =
      writer.segmentSize + (encode record).length := hSame.segmentSize
  dsimp only
  rw [JournalWriter.append_eq, if_neg (by simp [hWriting.healthy, hWriting.fd]), hConfig, hSize,
    splitAfter]
  rcases hWriting.store record now with ⟨hTrue, hStored⟩ | ⟨hFalse, hBroken⟩
  · rw [hTrue, if_neg (by decide)]
    by_cases hFull : writer.config.segmentBytes ≤ writer.segmentSize + (encode record).length
    · rw [if_pos hFull, if_pos hFull]
      exact hStored.rollSegment (hRoom hFull)
    · rw [if_neg hFull, if_neg hFull]
      exact Or.inl ⟨rfl, hStored⟩
  · rw [hFalse, if_pos (by decide)]
    exact Or.inr ⟨rfl, hBroken⟩

theorem Writing.append (hWriting : Writing others writer finished current) (record : Record)
    (now : Int) (hRoom : finished.length + 1 < kMaxSegmentIndex) :
    (writer.append record now).2 = true ∧
        Extends others (finished.flatten ++ current ++ [record]) (writer.append record now).1 ∨
      (writer.append record now).2 = false ∧
        Broken others (writer.append record now).1 finished (current ++ [record]) := by
  rcases hWriting.append_split record now (fun _ => hRoom) with ⟨hTrue, hAppended⟩ | hBroken
  · refine Or.inl ⟨hTrue, _, _, hAppended, ?_⟩
    rw [flatten_splitAfter, append_assoc]
  · exact Or.inr hBroken

theorem Broken.append (hBroken : Broken others writer finished current) (record : Record)
    (now : Int) : writer.append record now = (writer, false) := by
  unfold JournalWriter.append
  rw [if_pos (by simp [hBroken.unhealthy])]

/-! ## Opening and closing -/

/-- The highest number among segments numbered from one on is their count. -/
theorem highest_segmentFiles {contents : List (List UInt8)}
    (hBound : contents.length ≤ kMaxSegmentIndex) :
    ((segmentFiles contents).filterMap fun entry => parseSegmentName entry.1).foldl max 0 =
      contents.length := by
  induction contents using List.reverseRecOn with
  | nil => rfl
  | append_singleton contents bytes ih =>
    rw [length_append, length_singleton] at hBound
    have hLast : ([(segmentName (contents.length + 1), bytes)].filterMap
        fun entry => parseSegmentName entry.1) = [contents.length + 1] := by
      simp [parseSegmentName_segmentName hBound]
    rw [segmentFiles_concat, filterMap_append, foldl_append, ih (by omega), hLast,
      length_append, length_singleton]
    exact Nat.max_eq_right (Nat.le_succ _)

variable {config : WriterConfig} {disk : Disk}

/-- A writer starts after the segments that are there. -/
theorem writing_startAfterHighest
    (hDisk : disk.OnlyWritesFail) (hDirectory : disk.isDirectory = true)
    (hOthers : NoSegments others)
    (hListing : disk.listing = others ++ segmentFiles (finished.map encodeAll))
    (hBound : finished.length + 1 ≤ kMaxSegmentIndex) :
    ({ config := config, disk := disk } : JournalWriter).startAfterHighest.2 = true ∧
      Writing others ({ config := config, disk := disk } : JournalWriter).startAfterHighest.1
        finished [] := by
  have hHighest : (disk.files.filterMap fun file => parseSegmentName file.name).foldl max 0 =
      finished.length := by
    have hNames : (disk.files.filterMap fun file => parseSegmentName file.name) =
        disk.listing.filterMap fun entry => parseSegmentName entry.1 := by
      rw [Disk.listing, filterMap_map]
      rfl
    have hNone : (others.filterMap fun entry => parseSegmentName entry.1) = [] :=
      filterMap_eq_nil_iff.mpr hOthers
    rw [hNames, hListing, filterMap_append, hNone, nil_append,
      highest_segmentFiles (by rw [length_map]; omega), length_map]
  have hReady : Ready others
      { config := config, disk := disk, segmentIndex := finished.length } finished :=
    ⟨hOthers, hDirectory, hListing, rfl, rfl, hDisk, rfl⟩
  unfold startAfterHighest
  dsimp only
  rw [hHighest]
  exact hReady.startSegment hBound

/-- Opening an empty journal starts its first segment. -/
theorem writing_openJournal (hDisk : disk.OnlyWritesFail) (hEmpty : NoSegments disk.listing)
    (hOpened : ({ config := config, disk := disk } : JournalWriter).openJournal.2 = true) :
    Writing disk.listing ({ config := config, disk := disk } : JournalWriter).openJournal.1
      [] [] := by
  have hStart : ∀ disk' : Disk, disk'.files = disk.files → disk'.isDirectory = true →
      disk'.OnlyWritesFail →
      Writing disk.listing
        ({ config := config, disk := disk' } : JournalWriter).startAfterHighest.1 [] [] := by
    intro disk' hFiles hDirectory hDisk'
    refine (writing_startAfterHighest hDisk' hDirectory hEmpty ?_ (by decide)).2
    rw [Disk.listing, hFiles]
    exact (append_nil _).symm
  unfold openJournal Disk.createDirectory at hOpened ⊢
  dsimp only at hOpened ⊢
  cases hCreation : disk.creation with
  | done => exact hStart _ rfl rfl ⟨hDisk.opens, hDisk.persists, hDisk.writes⟩
  | failed error =>
    rw [hCreation] at hOpened
    dsimp only at hOpened ⊢
    split at hOpened
    · next hDirectory =>
        rw [if_pos hDirectory]
        exact hStart disk rfl hDirectory hDisk
    · cases hOpened

/-- A journal is opened behind the segments that are there, if its directory can be
created. -/
theorem writing_reopened (config : WriterConfig) (hDisk : disk.OnlyWritesFail)
    (hCreation : disk.creation = .done) (hOthers : NoSegments others)
    (hListing : disk.listing = others ++ segmentFiles (finished.map encodeAll))
    (hBound : finished.length + 1 ≤ kMaxSegmentIndex) :
    ({ config := config, disk := disk } : JournalWriter).openJournal.2 = true ∧
      Writing others ({ config := config, disk := disk } : JournalWriter).openJournal.1
        finished [] := by
  have hCreated : disk.createDirectory = ({ disk with isDirectory := true }, .done) := by
    rw [Disk.createDirectory, hCreation]
  unfold openJournal
  dsimp only
  rw [hCreated]
  have hDisk' : ({ disk with isDirectory := true } : Disk).OnlyWritesFail :=
    ⟨hDisk.opens, hDisk.persists, hDisk.writes⟩
  exact writing_startAfterHighest hDisk' rfl hOthers hListing hBound

/-- What a closed writer leaves: all of some records, but for a number of bytes at
the end. -/
structure Closed (others : List (List Char × List UInt8)) (writer : JournalWriter)
    (finished : List (List Record)) (current : List Record) (missing : List UInt8) : Prop where
  noSegments : NoSegments others
  isDirectory : writer.disk.isDirectory = true
  bound : finished.length + 1 ≤ kMaxSegmentIndex
  listing : ∃ written,
    writer.disk.listing = others ++ segmentFiles (finished.map encodeAll ++ [written]) ∧
      encodeAll current = written ++ missing

theorem Filed.close {written missing : List UInt8}
    (hFiled : Filed others writer.flush.1 (finished.map encodeAll) written)
    (hFd : writer.fd = some (segmentName (finished.length + 1)))
    (hWritten : encodeAll current = written ++ missing) :
    Closed others writer.close finished current missing := by
  have hPersisted := hFiled.persist (segmentName (finished.length + 1))
  unfold JournalWriter.close
  rw [hFd]
  refine ⟨hFiled.noSegments, hPersisted.isDirectory, ?_, written, hPersisted.listing, hWritten⟩
  have hBound := hFiled.bound
  rw [List.length_map] at hBound
  exact hBound

theorem Writing.close (hWriting : Writing others writer finished current) :
    ∃ missing, Closed others writer.close finished current missing := by
  rcases hWriting.flush with ⟨-, -, -, written, hFiled, hWritten⟩ |
    ⟨-, -, -, -, written, missing, hFiled, -, hWritten⟩
  · exact ⟨_, hFiled.close hWriting.fd hWritten⟩
  · exact ⟨missing, hFiled.close hWriting.fd hWritten⟩

/-- A broken writer has nothing more to give. -/
theorem Broken.close (hBroken : Broken others writer finished current) :
    ∃ missing, missing ≠ [] ∧ Closed others writer.close finished current missing := by
  obtain ⟨-, hDead, hBuffer, written, missing, hFiled, hMissing, hWritten⟩ := hBroken
  have hAfter := hFiled.writeAll writer.buffer
  obtain ⟨hSent, hGivenUp, -⟩ := transfer_dead hDead writer.disk.errno hBuffer
  rw [show (writer.disk.attempt writer.buffer).sent = [] from hSent, append_nil] at hAfter
  have hFlushes := writer.flushes
  have hFd := hFiled.fd
  rw [length_map] at hFd
  refine ⟨missing, hMissing, Filed.close ?_ hFd hWritten⟩
  generalize writer.flush = result at hFlushes ⊢
  cases hFlushes with
  | empty hEmpty => exact absurd hEmpty hBuffer
  | closed hClosed => cases hFd.symm.trans hClosed
  | written _ _ hComplete => cases hComplete.symm.trans hGivenUp
  | failed file _ _ hOpen =>
    cases hFiled.fd.symm.trans hOpen
    exact hAfter.of_same rfl rfl rfl

/-! ## Reading back -/

/-- A reader visits the records that are complete, and no others. -/
theorem Closed.read {missing : List UInt8}
    (hClosed : Closed others writer finished current missing) {first : Nat}
    (hFits : ∀ record ∈ finished.flatten ++ current, record.Fits)
    (hConsecutive : Consecutive first (finished.flatten ++ current)) :
    ∃ kept rest, current = kept ++ rest ∧ (missing ≠ [] → rest ≠ []) ∧
      (read writer.directory first).visited =
        (finished.flatten ++ kept).map Record.written := by
  obtain ⟨hOthers, hDirectory, hBound, written, hListing, hWritten⟩ := hClosed
  obtain ⟨hContents, hReadable⟩ := contents_segments hOthers
    (by rw [length_append, length_map]; exact hBound) hListing
  obtain ⟨kept, rest, torn, hKept, hTorn, hVisited⟩ :=
    read_cut hDirectory hReadable hContents hWritten hFits hConsecutive
  refine ⟨kept, rest, hKept, ?_, hVisited⟩
  rintro hMissing rfl
  -- If every record were complete there would be more bytes than were written.
  have hLength := congrArg List.length hWritten
  rw [hKept, append_nil, hTorn, length_append, length_append] at hLength
  exact hMissing (length_eq_zero_iff.mp (by omega))

end Records

end Operations

end ExchangeCore
