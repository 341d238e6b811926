import ExchangeCore.Journal.Damage
import ExchangeCore.Journal.OpenSegment

/-!
# What a segment file holds

Every record handed to the writer belongs to the segment that is current then
(`appendedTo`).  The file of a segment holds a prefix of the encodings of its
records, as long as nothing is written to it once a write has failed half-way: by
then part of the buffer is in the file (`Torn`), and writing the buffer starts again
from its beginning (`Rewrites`).
-/

namespace ExchangeCore

open JournalWriter List

namespace JournalWriter

variable (writer : JournalWriter)

/-- Part of the buffer is in the open file already: the two are longer than
everything that was encoded for the segment. -/
def Torn : Prop :=
  ∃ file ∈ writer.disk.files, writer.fd = some file.name ∧
    writer.segmentSize < file.contents.length + writer.buffer.length

instance : DecidablePred Torn := fun writer =>
  inferInstanceAs (Decidable (∃ file ∈ writer.disk.files, writer.fd = some file.name ∧
    writer.segmentSize < file.contents.length + writer.buffer.length))

/-- The call writes part of the buffer a second time.  An `append` does not: it is
refused by then. -/
def Rewrites : WriterCall → Prop
  | .append _ _ => False
  | _ => writer.Torn ∧ (writer.disk.attempt writer.buffer).sent ≠ []

instance (call : WriterCall) : Decidable (Rewrites writer call) := by
  rcases call with _ | _ <;> dsimp only [Rewrites] <;> infer_instance

/-- What a call adds to the records of the segment of this name. -/
def taken (name : List Char) (writer : JournalWriter) : WriterCall → List Record
  | .append record _ => if writer.healthy = true ∧ writer.fd = some name then [record] else []
  | _ => []

/-- The records appended while the segment of this name was the current one. -/
def appendedTo (name : List Char) : JournalWriter → List WriterCall → List Record
  | _, [] => []
  | writer, call :: calls => taken name writer call ++ appendedTo name (writer.call call) calls

end JournalWriter

/-! ## The open segment -/

/-- The open file and the buffer, when these records belong to the segment. -/
structure InProgress (writer : JournalWriter) (current : StoredFile) (records : List Record) :
    Prop where
  size : writer.segmentSize = (encodeAll records).length
  written : current.contents <+: encodeAll records
  rest : encodeAll records = current.contents ++ writer.buffer ∨ (writer.healthy = false ∧
      (encodeAll records).length < current.contents.length + writer.buffer.length)

section Progress

variable {initial past : List StoredFile} {writer : JournalWriter} {current : StoredFile}
  {records : List Record}

theorem WritesLast.torn_iff (hWrites : WritesLast initial writer past current) :
    writer.Torn ↔
      writer.segmentSize < current.contents.length + writer.buffer.length := by
  constructor
  · rintro ⟨file, hFile, hFd, hLonger⟩
    have hName : file.name = current.name := Option.some.inj (hFd.symm.trans hWrites.fd)
    rw [hWrites.files] at hFile
    rcases mem_append.mp hFile with hOther | hCurrent
    · exact absurd hName (hWrites.fresh file hOther)
    · rwa [mem_singleton.mp hCurrent] at hLonger
  · intro hLonger
    exact ⟨current, by rw [hWrites.files]; simp, hWrites.fd, hLonger⟩

theorem InProgress.of_same (hProgress : InProgress writer current records)
    {writer' : JournalWriter} {current' : StoredFile}
    (hSize : writer'.segmentSize = writer.segmentSize) (hBuffer : writer'.buffer = writer.buffer)
    (hHealthy : writer'.healthy = true → writer.healthy = true)
    (hContents : current'.contents = current.contents) :
    InProgress writer' current' records := by
  obtain ⟨hOldSize, hWritten, hRest⟩ := hProgress
  refine ⟨hSize.trans hOldSize, by rwa [hContents], ?_⟩
  rw [hContents, hBuffer]
  refine hRest.imp_right fun ⟨hUnhealthy, hLonger⟩ => ⟨?_, hLonger⟩
  cases hNow : writer'.healthy with
  | false => rfl
  | true => rw [hHealthy hNow] at hUnhealthy; cases hUnhealthy

/-- Writing the buffer keeps the file a prefix, unless part of it is there already. -/
theorem InProgress.flush (hWrites : WritesLast initial writer past current)
    (hProgress : InProgress writer current records) (hBuffer : writer.buffer ≠ [])
    (hCareful : writer.Torn → (writer.disk.attempt writer.buffer).sent = []) :
    InProgress writer.flush.1
      { current with
        contents := current.contents ++ (writer.disk.attempt writer.buffer).sent } records := by
  obtain ⟨hSize, hWritten, hRest⟩ := hProgress
  have hTorn (hLonger : (encodeAll records).length <
      current.contents.length + writer.buffer.length) :
      (writer.disk.attempt writer.buffer).sent = [] :=
    hCareful (hWrites.torn_iff.mpr (hSize ▸ hLonger))
  have hFlushes := writer.flushes
  generalize writer.flush = result at hFlushes ⊢
  cases hFlushes with
  | empty hEmpty => exact absurd hEmpty hBuffer
  | closed hFd => cases hWrites.fd.symm.trans hFd
  | written file _ hComplete =>
    have hSent := Disk.sent_of_complete hComplete
    rcases hRest with hWhole | ⟨-, hLonger⟩
    · rw [hSent, ← hWhole]
      exact ⟨hSize, prefix_rfl, Or.inl (append_nil _).symm⟩
    · exact absurd (hSent.symm.trans (hTorn hLonger)) hBuffer
  | failed file message _ _ hGivenUp =>
    obtain ⟨missing, -, hMissing⟩ := Disk.exists_missing hGivenUp
    rcases hRest with hWhole | ⟨-, hLonger⟩
    · refine ⟨hSize, ?_, ?_⟩
      · rw [hWhole]
        exact (prefix_append_right_inj _).mpr ⟨missing, hMissing.symm⟩
      · rw [hWhole]
        -- Nothing was transferred and the buffer can be written again, or the file is torn.
        cases hSent : (writer.disk.attempt writer.buffer).sent with
        | nil => exact Or.inl (by rw [append_nil]; rfl)
        | cons byte bytes =>
          refine Or.inr ⟨rfl, ?_⟩
          simp only [length_append, length_cons, fail]
          omega
    · rw [hTorn hLonger, append_nil]
      exact ⟨hSize, hWritten, Or.inr ⟨rfl, hLonger⟩⟩

end Progress

/-! ## All segments -/

/-- The files that hold prefixes of what belongs to them, and that nothing else
belongs to. -/
structure Recorded (log : List Char → List Record) (files : List StoredFile) : Prop where
  written : ∀ file ∈ files, file.contents <+: encodeAll (log file.name)
  known : ∀ name, log name ≠ [] → ∃ file ∈ files, file.name = name

/-- Behind the files that were there before, the writer has only segments that hold
prefixes of the records that belong to them. -/
inductive Orderly (initial : List StoredFile) (log : List Char → List Record)
    (writer : JournalWriter) : Prop
  | writing (past : List StoredFile) (current : StoredFile)
      (last : WritesLast initial writer past current) (recorded : Recorded log (past ++ [current]))
      (progress : InProgress writer current (log current.name))
  | closed (files : List StoredFile) (stored : writer.disk.files = initial ++ files)
      (fd : writer.fd = none) (recorded : Recorded log files)

section Operations

variable {initial : List StoredFile} {log : List Char → List Record} {writer : JournalWriter}

theorem Orderly.recorded (hOrderly : Orderly initial log writer) :
    ∃ files, writer.disk.files = initial ++ files ∧ Recorded log files := by
  cases hOrderly with
  | writing past current hWrites hRecorded hProgress =>
    exact ⟨past ++ [current], by rw [hWrites.files, append_assoc], hRecorded⟩
  | closed files hStored hFd hRecorded => exact ⟨files, hStored, hRecorded⟩

variable {writer' : JournalWriter}

section

variable (hOrderly : Orderly initial log writer)
include hOrderly

theorem Orderly.of_same
    (hFiles : writer'.disk.files = writer.disk.files) (hFd : writer'.fd = writer.fd)
    (hSize : writer'.segmentSize = writer.segmentSize) (hBuffer : writer'.buffer = writer.buffer)
    (hHealthy : writer'.healthy = true → writer.healthy = true) :
    Orderly initial log writer' := by
  cases hOrderly with
  | writing past current hWrites hRecorded hProgress =>
    exact .writing past current (hWrites.of_same hFiles hFd) hRecorded
      (hProgress.of_same hSize hBuffer hHealthy rfl)
  | closed files hStored hNone hRecorded =>
    exact .closed files (hFiles.trans hStored) (hFd.trans hNone) hRecorded

theorem Orderly.congr {log' : List Char → List Record}
    (hLog : ∀ name, log' name = log name) : Orderly initial log' writer := by
  rwa [funext hLog]

theorem Orderly.fail (message : String) : Orderly initial log (writer.fail message) :=
  hOrderly.of_same rfl rfl rfl rfl nofun

theorem Orderly.stop (hFiles : writer'.disk.files = writer.disk.files) (hFd : writer'.fd = none) :
    Orderly initial log writer' := by
  obtain ⟨files, hStored, hRecorded⟩ := hOrderly.recorded
  exact .closed files (hFiles.trans hStored) hFd hRecorded

end

/-- The last file changes. -/
theorem Recorded.replace_last {past : List StoredFile} {current current' : StoredFile}
    (hRecorded : Recorded log (past ++ [current])) (hName : current'.name = current.name)
    (hWritten : current'.contents <+: encodeAll (log current.name)) :
    Recorded log (past ++ [current']) := by
  refine ⟨fun file hFile => ?_, fun name hSome => ?_⟩
  · rcases mem_append.mp hFile with hPast | hLast
    · exact hRecorded.written file (mem_append_left _ hPast)
    · rw [mem_singleton.mp hLast, hName]
      exact hWritten
  · obtain ⟨file, hFile, hFileName⟩ := hRecorded.known name hSome
    rcases mem_append.mp hFile with hPast | hLast
    · exact ⟨file, mem_append_left _ hPast, hFileName⟩
    · refine ⟨current', by simp, ?_⟩
      rw [hName, ← hFileName, mem_singleton.mp hLast]

variable (hOrderly : Orderly initial log writer)
include hOrderly

theorem Orderly.flush (hCareful : writer.Torn → (writer.disk.attempt writer.buffer).sent = []) :
    Orderly initial log writer.flush.1 := by
  by_cases hBuffer : writer.buffer = []
  · rwa [flush_of_empty hBuffer]
  cases hOrderly with
  | writing past current hWrites hRecorded hProgress =>
    obtain ⟨-, hWrites'⟩ := hWrites.flush hBuffer
    have hProgress' := hProgress.flush hWrites hBuffer hCareful
    exact .writing past _ hWrites' (hRecorded.replace_last rfl hProgress'.written) hProgress'
  | closed files hStored hFd hRecorded =>
    have hFlush : writer.flush = (writer, false) := by
      rw [JournalWriter.flush, if_neg (fun h => hBuffer (List.isEmpty_iff.mp h)), hFd]
    rw [hFlush]
    exact .closed files hStored hFd hRecorded

theorem Orderly.persist {file : List Char}
    (hFd : writer.fd = some file) : Orderly initial log (writer.persist file).1 := by
  cases hOrderly with
  | closed files hStored hNone hRecorded =>
    rw [hNone] at hFd
    cases hFd
  | writing past current hWrites hRecorded hProgress =>
    cases hWrites.fd.symm.trans hFd
    obtain ⟨current', hCurrent, hName, hContents⟩ : ∃ current',
        (if (writer.persist current.name).2 then { current with persisted := current.contents }
          else current) = current' ∧ current'.name = current.name ∧
        current'.contents = current.contents := by
      refine ⟨_, rfl, ?_, ?_⟩
      · split <;> rfl
      · split <;> rfl
    have hWrites' := hWrites.persist
    rw [hCurrent] at hWrites'
    refine .writing past current' hWrites' (hRecorded.replace_last hName ?_) ?_
    · rw [hContents]
      exact hProgress.written
    · rw [hName]
      exact hProgress.of_same rfl rfl id hContents

theorem Orderly.sync (hCareful : writer.Torn → (writer.disk.attempt writer.buffer).sent = []) :
    Orderly initial log writer.sync.1 := by
  unfold JournalWriter.sync
  cases hFd : writer.fd with
  | none => exact hOrderly
  | some file =>
    have hFlushed := hOrderly.flush hCareful
    have hPersisted := hFlushed.persist (writer.sameSegment_flush.fd.trans hFd)
    dsimp only
    split
    · exact hFlushed
    split
    · exact hPersisted.fail _
    · exact hPersisted.of_same rfl rfl rfl rfl id

theorem Orderly.close (hCareful : writer.Torn → (writer.disk.attempt writer.buffer).sent = []) :
    Orderly initial log writer.close := by
  unfold JournalWriter.close
  cases hFd : writer.fd with
  | none => exact hOrderly
  | some file =>
    have hPersisted := (hOrderly.flush hCareful).persist (writer.sameSegment_flush.fd.trans hFd)
    exact hPersisted.stop rfl rfl

/-- Only a writer that is broken has torn a file. -/
theorem Orderly.not_torn (hHealthy : writer.healthy = true) : ¬ writer.Torn := by
  rintro ⟨file, hFile, hFd, hLonger⟩
  cases hOrderly with
  | closed files hStored hNone hRecorded =>
    rw [hNone] at hFd
    cases hFd
  | writing past current hWrites hRecorded hProgress =>
    have hTorn := hWrites.torn_iff.mp ⟨file, hFile, hFd, hLonger⟩
    rcases hProgress.rest with hWhole | ⟨hUnhealthy, -⟩
    · have hLength := congrArg List.length hWhole
      rw [← hProgress.size, length_append] at hLength
      omega
    · rw [hHealthy] at hUnhealthy
      cases hUnhealthy

/-- A new segment is empty, and nothing belongs to it yet. -/
theorem Orderly.startSegment (hFd : writer.fd = none)
    (hBuffer : writer.buffer = []) : Orderly initial log writer.startSegment.1 := by
  obtain ⟨files, hStored, hRecorded⟩ := hOrderly.recorded
  rcases startSegment_last hStored hFd with
    ⟨hOpened, ⟨name, hWrites⟩, hNewBuffer, -⟩ | ⟨-, hNone, -, hFiles⟩
  · have hEmpty : log name = [] := by
      by_contra hSome
      obtain ⟨file, hFile, hName⟩ := hRecorded.known name hSome
      exact hWrites.fresh file (mem_append_right _ hFile) hName
    have hNothing : ([] : List UInt8) <+: encodeAll (log name) := nil_prefix
    obtain ⟨-, hSize⟩ := writer.startSegment_spec
    refine .writing files { name := name } hWrites ⟨fun file hFile => ?_, fun other hSome => ?_⟩
      ⟨?_, hNothing, Or.inl ?_⟩
    · rcases mem_append.mp hFile with hOld | hNew
      · exact hRecorded.written file hOld
      · rw [mem_singleton.mp hNew]
        exact hNothing
    · obtain ⟨file, hFile, hName⟩ := hRecorded.known other hSome
      exact ⟨file, mem_append_left _ hFile, hName⟩
    · rw [hSize hOpened, hEmpty]
      rfl
    · rw [hNewBuffer, hBuffer, hEmpty]
      rfl
  · exact .closed files hFiles hNone hRecorded

theorem Orderly.rollSegment (hCareful : ¬ writer.Torn) (hOpen : writer.fd ≠ none) :
    Orderly initial log writer.rollSegment.1 := by
  have hFlushed := hOrderly.flush fun hTorn => absurd hTorn hCareful
  obtain ⟨file, hFd⟩ := Option.ne_none_iff_exists'.mp hOpen
  have hPersisted := hFlushed.persist (writer.sameSegment_flush.fd.trans hFd)
  have hRolled := rolled hFd
  generalize writer.rollSegment = result at hRolled ⊢
  cases hRolled with
  | unwritten message => exact hFlushed.fail message
  | unpersisted message => exact hPersisted.fail message
  | finished closed _ _ hDisk hNone hBuffer =>
    exact (hPersisted.stop (congrArg Disk.files hDisk) hNone).startSegment hNone hBuffer

/-- A record goes into the buffer, and belongs to the current segment from now on. -/
theorem Orderly.encodeRecord
    (hHealthy : writer.healthy = true) (hOpen : writer.fd ≠ none) (record : Record) (now : Int) :
    Orderly initial (fun name => log name ++ writer.taken name (.append record now))
      (writer.encodeRecord record) := by
  cases hOrderly with
  | closed files hStored hNone hRecorded => exact absurd hNone hOpen
  | writing past current hWrites hRecorded hProgress =>
    have hTaken : ∀ name, writer.taken name (.append record now) =
        if name = current.name then [record] else [] := by
      intro name
      simp [taken, hHealthy, hWrites.fd, eq_comm]
    have hGrown : ∀ name, encodeAll (log name) <+:
        encodeAll (log name ++ writer.taken name (.append record now)) := by
      intro name
      rw [encodeAll_append]
      exact prefix_append _ _
    have hCurrent : encodeAll (log current.name ++ writer.taken current.name
        (.append record now)) = encodeAll (log current.name) ++ encode record := by
      rw [hTaken, if_pos rfl, encodeAll_append]
      simp [encodeAll]
    refine .writing past current (hWrites.of_same rfl rfl) ⟨fun file hFile => ?_,
      fun name hSome => ?_⟩ ⟨?_, ?_, ?_⟩
    · exact (hRecorded.written file hFile).trans (hGrown file.name)
    · by_cases hName : name = current.name
      · exact ⟨current, by simp, hName.symm⟩
      · rw [hTaken, if_neg hName, append_nil] at hSome
        exact hRecorded.known name hSome
    · rw [hCurrent, length_append, ← hProgress.size]
      rfl
    · exact hProgress.written.trans (hGrown current.name)
    · rcases hProgress.rest with hWhole | ⟨hUnhealthy, -⟩
      · refine Or.inl ?_
        rw [hCurrent, hWhole, append_assoc]
        rfl
      · rw [hHealthy] at hUnhealthy
        cases hUnhealthy

theorem Orderly.store
    (hHealthy : writer.healthy = true) (hOpen : writer.fd ≠ none) (record : Record) (now : Int) :
    Orderly initial (fun name => log name ++ writer.taken name (.append record now))
      (writer.store record now).1 := by
  have hEncoded := hOrderly.encodeRecord hHealthy hOpen record now
  have hSound : ¬ (writer.encodeRecord record).Torn := hEncoded.not_torn hHealthy
  have hStored := writer.stored record now
  generalize (fun name => log name ++ writer.taken name (.append record now)) = log' at *
  generalize writer.encodeRecord record = encoded at *
  generalize writer.store record now = result at *
  have hFlushed := hEncoded.flush fun hTorn => absurd hTorn hSound
  have hSynced (hFlush : encoded.flush.2 = true) : Orderly initial log' encoded.flush.1.sync.1 := by
    refine hFlushed.sync fun _ => ?_
    -- The buffer is empty by now.
    rw [(flush_done hFlush).1]
    exact Disk.sent_attempt_nil _
  cases hStored with
  | buffered => exact hEncoded
  | unwritten => exact hFlushed
  | written => exact hFlushed
  | unpersisted hFlush => exact hSynced hFlush
  | persisted hFlush => exact (hSynced hFlush).of_same rfl rfl rfl rfl id

theorem Orderly.append (record : Record) (now : Int) :
    Orderly initial (fun name => log name ++ writer.taken name (.append record now))
      (writer.append record now).1 := by
  rw [JournalWriter.append_eq]
  split
  · next hRefused =>
      -- Nothing is taken by a writer that is broken or closed.
      refine hOrderly.congr fun name => ?_
      rw [JournalWriter.taken, if_neg ?_, List.append_nil]
      rintro ⟨hHealthy, hFd⟩
      rw [hHealthy, hFd] at hRefused
      cases hRefused
  next hTaken =>
  obtain ⟨hHealthy, hOpen⟩ : writer.healthy = true ∧ writer.fd ≠ none := by simpa using hTaken
  have hStored := hOrderly.store hHealthy hOpen record now
  split
  · exact hStored
  next hTrue =>
  split
  · have hStillHealthy : (writer.store record now).1.healthy = true :=
      (JournalWriter.healthy_store (by simpa using hTrue)).trans hHealthy
    refine hStored.rollSegment (hStored.not_torn hStillHealthy) ?_
    rw [(writer.sameSegment_store record now).fd]
    exact hOpen
  · exact hStored

/-- One call keeps the segments in order, unless it writes part of the buffer a second
time. -/
theorem Orderly.call {call : WriterCall} (hCareful : ¬ writer.Rewrites call) :
    Orderly initial (fun name => log name ++ writer.taken name call) (writer.call call) := by
  cases call with
  | append record now => exact hOrderly.append record now
  | flush =>
    have hFlushed := hOrderly.flush fun hTorn => by_contra fun hSent => hCareful ⟨hTorn, hSent⟩
    exact hFlushed.congr fun _ => append_nil _
  | sync =>
    have hSynced := hOrderly.sync fun hTorn => by_contra fun hSent => hCareful ⟨hTorn, hSent⟩
    exact hSynced.congr fun _ => append_nil _
  | close =>
    have hClosed := hOrderly.close fun hTorn => by_contra fun hSent => hCareful ⟨hTorn, hSent⟩
    exact hClosed.congr fun _ => append_nil _

end Operations

/-! ## Runs -/

theorem orderly_opened (config : WriterConfig) (disk : Disk) :
    Orderly disk.files (fun _ => []) (opened config disk) := by
  rcases opened_last config disk with ⟨⟨name, hLast⟩, -, hBuffer, -, hSize⟩ | ⟨hNone, hFiles⟩
  · refine .writing [] { name := name } hLast
      ⟨fun file hFile => ?_, fun _ hSome => absurd rfl hSome⟩
      ⟨hSize, nil_prefix, Or.inl (by rw [hBuffer]; rfl)⟩
    rw [mem_singleton.mp hFile]
    exact nil_prefix
  · exact .closed [] (by rw [hFiles, append_nil]) hNone
      ⟨nofun, fun _ hSome => absurd rfl hSome⟩

variable {initial : List StoredFile} {log : List Char → List Record} {writer : JournalWriter}

/-- A run of calls of which none writes part of the buffer a second time keeps the
segments in order. -/
theorem Orderly.run (hOrderly : Orderly initial log writer) {calls : List WriterCall}
    (hCareful : Machine.Each JournalWriter.call (fun writer call => ¬ writer.Rewrites call)
      writer calls) :
    Orderly initial (fun name => log name ++ writer.appendedTo name calls) (writer.run calls) := by
  induction calls generalizing log writer with
  | nil => exact hOrderly.congr fun _ => List.append_nil _
  | cons call calls ih =>
    have hRest := ih (hOrderly.call hCareful.1) hCareful.2
    exact hRest.congr fun _ => (List.append_assoc _ _ _).symm

/-- At every moment of a call that ends orderly, the files hold prefixes of what belongs to
them. -/
theorem Orderly.moment (hOrderly : Orderly initial log writer) {moment : List StoredFile}
    (hMoment : FilesEvolve moment writer.disk.files) :
    ∀ file ∈ moment.drop initial.length, file.contents <+: encodeAll (log file.name) := by
  intro file hFile
  obtain ⟨files, hStored, hRecorded⟩ := hOrderly.recorded
  obtain ⟨i, hIndex⟩ := mem_iff_getElem?.mp hFile
  rw [List.getElem?_drop] at hIndex
  obtain ⟨after, hAfter, hGrown⟩ := hMoment.grown _ file hIndex
  rw [hStored, List.getElem?_append_right (Nat.le_add_right _ _), Nat.add_sub_cancel_left] at hAfter
  have hWritten := hRecorded.written after (mem_of_getElem? hAfter)
  rw [hGrown.name] at hWritten
  exact hGrown.contents.trans hWritten

/-- In a run in which no call writes part of the buffer a second time, every segment
file is at every moment of every call a prefix of the encodings of the records that
were appended while it was the current one. -/
theorem segments_are_clean_prefixes (config : WriterConfig) (disk : Disk)
    (calls : List WriterCall) (call : WriterCall)
    (hCareful : Machine.Each JournalWriter.call (fun writer call => ¬ writer.Rewrites call)
      (JournalWriter.opened config disk) (calls ++ [call])) :
    let writer := JournalWriter.opened config disk
    FilesEvolve (writer.run calls).disk.files (writer.run (calls ++ [call])).disk.files ∧
      ∀ moment, FilesEvolve (writer.run calls).disk.files moment →
        FilesEvolve moment (writer.run (calls ++ [call])).disk.files →
        ∀ file ∈ moment.drop disk.files.length,
          file.contents <+: encodeAll (writer.appendedTo file.name (calls ++ [call])) := by
  intro writer
  have hOrderly := (orderly_opened config disk).run hCareful
  refine ⟨?_, fun moment _ hMoment => ?_⟩
  · have hRun : writer.run (calls ++ [call]) = (writer.run calls).call call := List.foldl_append
    rw [hRun]
    exact JournalWriter.evolves_call _ call
  · exact hOrderly.moment hMoment

/-- Every record is written at once. -/
def unbuffered : WriterConfig where
  directory := []
  bufferBytes := 1

/-- A disk with room for ten bytes. -/
def smallDisk : Disk where
  writes := { coming := [.transferred 10], after := .failed "No space left on device" }

theorem segments_are_clean_prefixes_small :
    let writer := JournalWriter.opened unbuffered smallDisk
    let calls := [.append (sampleCancel 1) 5, .flush, .close]
    (writer.run calls).disk.files.map (fun file => file.contents.length) = [10] ∧
      ∀ file ∈ (writer.run calls).disk.files,
        file.contents <+: encodeAll (writer.appendedTo file.name calls) := by
  intro writer calls
  obtain ⟨hEvolve, hPrefix⟩ := segments_are_clean_prefixes unbuffered smallDisk
    [.append (sampleCancel 1) 5, .flush] .close (by decide +kernel)
  exact ⟨by decide +kernel, hPrefix _ hEvolve .refl⟩

/-- A disk that takes ten bytes and fails once after that. -/
def tearingDisk : Disk where
  writes := { coming := [.transferred 10, .failed "No space left on device"] }

/-- The first ten bytes of the record reach the file when it is appended, and the whole
record when the journal is closed. -/
theorem close_writes_again :
    let writer := JournalWriter.opened unbuffered tearingDisk
    ¬ ∀ moment, FilesEvolve (writer.run [.append (sampleCancel 1) 5]).disk.files moment →
        FilesEvolve moment (writer.run [.append (sampleCancel 1) 5, .close]).disk.files →
        ∀ file ∈ moment.drop tearingDisk.files.length,
          file.contents <+: encodeAll (writer.appendedTo file.name
            [.append (sampleCancel 1) 5, .close]) := by
  intro writer hPrefix
  have hAfter := hPrefix _ (JournalWriter.evolves_call _ .close) .refl
  revert hAfter
  show ¬ ∀ file ∈ (writer.run [.append (sampleCancel 1) 5, .close]).disk.files.drop 0, _
  decide +kernel

end ExchangeCore
