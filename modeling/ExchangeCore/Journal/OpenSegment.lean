import ExchangeCore.Journal.Reader
import ExchangeCore.Journal.WriterSteps

/-!
# The open segment

Whatever else is in its directory, a writer only touches the file it created last
(`WritesLast`).  Here is what each operation does to that file, for every pattern of
short and failing calls, and that it does nothing else to the files but what calls
of the system do (`evolves_call`).
-/

namespace ExchangeCore

open JournalWriter

/-- The open file is the last one, and the only one of its name. -/
structure WritesLast (initial : List StoredFile) (writer : JournalWriter) (past : List StoredFile)
    (current : StoredFile) : Prop where
  files : writer.disk.files = initial ++ past ++ [current]
  fd : writer.fd = some current.name
  fresh : ∀ file ∈ initial ++ past, file.name ≠ current.name

section Operations

variable {initial : List StoredFile} {writer : JournalWriter} {past : List StoredFile}
  {current : StoredFile} {writer' : JournalWriter}

section

variable (hWrites : WritesLast initial writer past current)
include hWrites

theorem WritesLast.of_same
    (hFiles : writer'.disk.files = writer.disk.files) (hFd : writer'.fd = writer.fd) :
    WritesLast initial writer' past current :=
  ⟨hFiles.trans hWrites.files, hFd.trans hWrites.fd, hWrites.fresh⟩

/-- A change to the file of that name is a change to the open file. -/
theorem WritesLast.update
    (change : StoredFile → StoredFile) (hName : (change current).name = current.name)
    (hFiles : writer'.disk.files = updateFile current.name change writer.disk.files)
    (hFd : writer'.fd = writer.fd) : WritesLast initial writer' past (change current) := by
  refine ⟨?_, ?_, ?_⟩
  · have hOthers : (initial ++ past).map (fun file => if file.name = current.name then change file
        else file) = initial ++ past :=
      (List.map_congr_left fun file hFile => if_neg (hWrites.fresh file hFile)).trans
        (List.map_id _)
    rw [hFiles, hWrites.files, updateFile, List.map_append, hOthers]
    simp
  · rw [hFd, hWrites.fd, hName]
  · rw [hName]
    exact hWrites.fresh

theorem WritesLast.flush (hBuffer : writer.buffer ≠ []) :
    (writer.flush.2 = true ∧ (writer.disk.attempt writer.buffer).sent = writer.buffer ∨
      writer.flush.2 = false ∧ writer.flush.1.healthy = false) ∧
    WritesLast initial writer.flush.1 past
      { current with
        contents := current.contents ++ (writer.disk.attempt writer.buffer).sent } := by
  have hFlushes := writer.flushes
  have hWritten (writer' : JournalWriter)
      (hFiles : writer'.disk.files = (writer.disk.writeAll current.name writer.buffer).1.files)
      (hFd : writer'.fd = writer.fd) : WritesLast initial writer' past _ :=
    hWrites.update (fun file => { file with
      contents := file.contents ++ (writer.disk.attempt writer.buffer).sent }) rfl hFiles hFd
  generalize writer.flush = result at hFlushes ⊢
  cases hFlushes with
  | empty hEmpty => exact absurd hEmpty hBuffer
  | closed hFd => cases hWrites.fd.symm.trans hFd
  | written file hFd hComplete =>
    cases hWrites.fd.symm.trans hFd
    exact ⟨Or.inl ⟨rfl, Disk.sent_of_complete hComplete⟩, hWritten _ rfl rfl⟩
  | failed file message _ hFd =>
    cases hWrites.fd.symm.trans hFd
    exact ⟨Or.inr ⟨rfl, rfl⟩, hWritten _ rfl rfl⟩

end

theorem flush_of_empty (hBuffer : writer.buffer = []) :
    writer.flush = (writer, writer.healthy) := by
  rw [flush, if_pos (List.isEmpty_iff.mpr hBuffer)]

/-- Persisting touches nothing that can be read, and makes all of it durable if it
succeeds. -/
theorem WritesLast.persist (hWrites : WritesLast initial writer past current) :
    WritesLast initial (writer.persist current.name).1 past
      (if (writer.persist current.name).2 then { current with persisted := current.contents }
        else current) := by
  cases hResult : writer.disk.persists.next.1 with
  | done =>
    have hPersist : writer.persist current.name = ({ writer with disk :=
            { writer.disk.modify current.name fun file =>
                { file with persisted := file.contents } with
              persists := writer.disk.persists.next.2 } }, true) := by
      simp only [JournalWriter.persist, Disk.persist, hResult]
    rw [hPersist, if_pos rfl]
    exact hWrites.update (fun file => { file with persisted := file.contents }) rfl rfl rfl
  | failed error =>
    have hPersist : writer.persist current.name = ({ writer with disk :=
            { writer.disk with persists := writer.disk.persists.next.2, errno := error } },
          false) := by
      simp only [JournalWriter.persist, Disk.persist, hResult]
    rw [hPersist, if_neg Bool.false_ne_true]
    exact hWrites.of_same rfl rfl

/-- A segment is started behind the files that are there, or nothing is opened. -/
theorem startSegment_last (hFiles : writer.disk.files = initial ++ past) (hFd : writer.fd = none) :
    (writer.startSegment.2 = true ∧
      (∃ name, WritesLast initial writer.startSegment.1 past { name := name }) ∧
      writer.startSegment.1.buffer = writer.buffer ∧
      writer.startSegment.1.healthy = writer.healthy) ∨
    (writer.startSegment.2 = false ∧ writer.startSegment.1.fd = none ∧
      writer.startSegment.1.healthy = false ∧
      writer.startSegment.1.disk.files = initial ++ past) := by
  unfold startSegment
  split
  · exact Or.inr ⟨rfl, hFd, rfl, hFiles⟩
  dsimp only
  generalize segmentName (writer.segmentIndex + 1) = name
  cases hResult : writer.disk.opens.next.1 with
  | failed error =>
    have hOpen : writer.disk.openExclusive name =
        ({ writer.disk with opens := writer.disk.opens.next.2, errno := error }, false) := by
      simp only [Disk.openExclusive, hResult]
    rw [hOpen]
    exact Or.inr ⟨rfl, hFd, rfl, hFiles⟩
  | done =>
    by_cases hTaken : (writer.disk.files.any fun file => file.name == name) = true
    · have hOpen : writer.disk.openExclusive name =
          ({ writer.disk with opens := writer.disk.opens.next.2, errno := "File exists" },
            false) := by
        simp only [Disk.openExclusive, hResult, hTaken, if_true]
      rw [hOpen]
      exact Or.inr ⟨rfl, hFd, rfl, hFiles⟩
    · have hOpen : writer.disk.openExclusive name = ({ writer.disk with
              opens := writer.disk.opens.next.2
              files := writer.disk.files ++ [{ name := name }] }, true) := by
        simp only [Disk.openExclusive, hResult, if_neg hTaken]
      rw [hOpen]
      refine Or.inl ⟨rfl, ⟨name, ?_, rfl, fun file hFile hName => hTaken ?_⟩, rfl, rfl⟩
      · exact congrArg (· ++ [({ name := name } : StoredFile)]) hFiles
      · rw [← hFiles] at hFile
        exact List.any_eq_true.mpr ⟨file, hFile, beq_iff_eq.mpr hName⟩

end Operations

/-- An opened journal has an empty segment behind the files that were there, or none
could be opened. -/
theorem opened_last (config : WriterConfig) (disk : Disk) :
    ((∃ name, WritesLast disk.files (opened config disk) [] { name := name }) ∧
      (opened config disk).config = config ∧
      (opened config disk).buffer = [] ∧
      (opened config disk).healthy = true ∧
      (opened config disk).segmentSize = 0) ∨
    ((opened config disk).fd = none ∧
      (opened config disk).disk.files = disk.files) := by
  have hCreated : disk.createDirectory.1.files = disk.files := by
    unfold Disk.createDirectory
    split <;> rfl
  have hStart (writer : JournalWriter)
      (hWriter : writer = { config := config, disk := disk.createDirectory.1 }) :
      ((∃ name, WritesLast disk.files writer.startAfterHighest.1 [] { name := name }) ∧
        writer.startAfterHighest.1.config = config ∧ writer.startAfterHighest.1.buffer = [] ∧
        writer.startAfterHighest.1.healthy = true ∧ writer.startAfterHighest.1.segmentSize = 0) ∨
      (writer.startAfterHighest.1.fd = none ∧
        writer.startAfterHighest.1.disk.files = disk.files) := by
    rw [startAfterHighest]
    generalize (writer.disk.files.filterMap fun file => parseSegmentName file.name).foldl max 0 =
      highest
    obtain ⟨ready, hReady⟩ : ∃ ready : JournalWriter,
      { writer with segmentIndex := highest } = ready := ⟨_, rfl⟩
    obtain ⟨hFiles, hFd, hConfig, hBuffer, hHealthy⟩ : ready.disk.files = disk.files ++ [] ∧
        ready.fd = none ∧ ready.config = config ∧ ready.buffer = [] ∧ ready.healthy = true := by
      subst hReady hWriter
      exact ⟨by rw [List.append_nil]; exact hCreated, rfl, rfl, rfl, rfl⟩
    rw [hReady, rollSegment_of_closed hFd]
    obtain ⟨hAdvances, hSize⟩ := ready.startSegment_spec
    rcases startSegment_last hFiles hFd with
      ⟨hTrue, hLast, hNewBuffer, hNewHealthy⟩ | ⟨-, hNone, -, hStored⟩
    · exact Or.inl ⟨hLast, hAdvances.config.trans hConfig, hNewBuffer.trans hBuffer,
        hNewHealthy.trans hHealthy, hSize hTrue⟩
    · exact Or.inr ⟨hNone, by rw [hStored, List.append_nil]⟩
  unfold opened openJournal
  dsimp only
  split
  · exact hStart _ rfl
  split
  · exact hStart _ rfl
  · exact Or.inr ⟨rfl, hCreated⟩

/-! ## What happens to the files -/

namespace JournalWriter

variable (writer : JournalWriter)

theorem evolves_close : FilesEvolve writer.disk.files writer.close.disk.files := by
  unfold close
  split
  · exact .refl
  next file _ =>
    exact ((sameSegment_flush writer).trans (sameSegment_persist writer.flush.1 file)).files

/-- Whatever a call does to the files is done in steps of these kinds. -/
theorem evolves_call (call : WriterCall) :
    FilesEvolve writer.disk.files (writer.call call).disk.files := by
  cases call with
  | append record now => exact (writer.append_advances record now).files
  | flush => exact writer.sameSegment_flush.files
  | sync => exact writer.sameSegment_sync.files
  | close => exact writer.evolves_close

end JournalWriter
end ExchangeCore
