import ExchangeCore.Journal.Damage
import ExchangeCore.Journal.OpenSegment

/-!
# Acknowledged records are durable

With `Durability::Always` a record that `append` has acknowledged is persisted, and
so is everything before it (`Safe`).  The writer may fail over the next record, at
any of its calls; what is persisted stays so, at every moment of that call and for
good, because a writer that has failed takes no more records.
-/

namespace ExchangeCore

open JournalWriter List

namespace JournalWriter

/-- Append a record at a time. -/
def record (writer : JournalWriter) (entry : Record × Int) : JournalWriter :=
  (writer.append entry.1 entry.2).1

/-- The records of a run that were acknowledged. -/
def acknowledged : JournalWriter → List (Record × Int) → List Record
  | _, [] => []
  | writer, entry :: entries =>
    (if (writer.append entry.1 entry.2).2 then [entry.1] else []) ++
      acknowledged (writer.record entry) entries

/-- The writer takes no more records. -/
def Refuses (writer : JournalWriter) : Prop := (!writer.healthy || writer.fd.isNone) = true

end JournalWriter

/-- All of these records are in the writer's files and persisted. -/
structure Safe (initial : List StoredFile) (writer : JournalWriter) (past : List StoredFile)
    (current : StoredFile) (records : List Record) : Prop where
  last : WritesLast initial writer past current
  durability : writer.config.durability = .always
  healthy : writer.healthy = true
  buffer : writer.buffer = []
  finished : ∀ file ∈ past, file.persisted = file.contents
  written : current.persisted = current.contents
  contents : (past ++ [current]).flatMap StoredFile.persisted = encodeAll records

section Steps

variable {initial past : List StoredFile} {writer : JournalWriter} {current : StoredFile}
  {records : List Record}

/-- Persisting a file that has been written makes all of it durable, or breaks the
writer. -/
theorem WritesLast.sync (hWrites : WritesLast initial writer past current)
    (hBuffer : writer.buffer = []) (hHealthy : writer.healthy = true) :
    (writer.sync.2 = true ∧ writer.sync.1.buffer = [] ∧ writer.sync.1.healthy = true ∧
      WritesLast initial writer.sync.1 past { current with persisted := current.contents }) ∨
    (writer.sync.2 = false ∧ writer.sync.1.healthy = false ∧
      WritesLast initial writer.sync.1 past current) := by
  have hPersist := hWrites.persist
  have hFlush : writer.flush = (writer, true) := by rw [flush_of_empty hBuffer, hHealthy]
  unfold JournalWriter.sync
  rw [hWrites.fd]
  dsimp only
  rw [hFlush]
  cases hResult : (writer.persist current.name).2 with
  | true =>
    rw [hResult, if_pos rfl] at hPersist
    exact Or.inl ⟨rfl, hBuffer, hHealthy, hPersist.of_same rfl rfl⟩
  | false =>
    rw [hResult, if_neg Bool.false_ne_true] at hPersist
    exact Or.inr ⟨rfl, rfl, hPersist.of_same rfl rfl⟩

variable (hSafe : Safe initial writer past current records)
include hSafe

theorem Safe.store (record : Record) (now : Int) :
    ((writer.store record now).2 = true ∧
      ∃ current', Safe initial (writer.store record now).1 past current' (records ++ [record])) ∨
    ((writer.store record now).2 = false ∧ (writer.store record now).1.healthy = false ∧
      ∃ current', WritesLast initial (writer.store record now).1 past current') := by
  have hConfig : (writer.store record now).1.config = writer.config :=
    (writer.sameSegment_store record now).config
  have hNow : writer.syncNow now = true := by
    rw [syncNow, hSafe.durability]
  have hStored := writer.stored record now
  have hEncoded : WritesLast initial (writer.encodeRecord record) past current :=
    hSafe.last.of_same rfl rfl
  have hBuffer : (writer.encodeRecord record).buffer = encode record := by
    show writer.buffer ++ encode record = encode record
    rw [hSafe.buffer, nil_append]
  have hHealthy : (writer.encodeRecord record).healthy = true := hSafe.healthy
  generalize writer.encodeRecord record = encoded at *
  generalize writer.store record now = result at *
  have hSome : encoded.buffer ≠ [] := by
    rw [hBuffer]
    exact ne_nil_of_length_pos (length_encode_pos record)
  obtain ⟨hFlushed, hFlushedLast⟩ := hEncoded.flush hSome
  cases hStored with
  | buffered hLater =>
    rw [hNow] at hLater
    cases hLater
  | written hLater =>
    rw [hNow] at hLater
    cases hLater
  | unwritten hFlush =>
    rw [hFlush] at hFlushed
    exact Or.inr ⟨rfl, (hFlushed.resolve_left nofun).2, _, hFlushedLast⟩
  | unpersisted hFlush hSync =>
    rcases hFlushedLast.sync (flush_done hFlush).1
      ((flush_done hFlush).2.trans hHealthy) with
        ⟨hTrue, -⟩ | ⟨-, hBroken, hLast⟩
    · rw [hTrue] at hSync
      cases hSync
    · exact Or.inr ⟨rfl, hBroken, _, hLast⟩
  | persisted hFlush hSync =>
    rcases hFlushedLast.sync (flush_done hFlush).1
      ((flush_done hFlush).2.trans hHealthy) with
        ⟨-, hEmpty, hSound, hLast⟩ | ⟨hFalse, -⟩
    · refine Or.inl ⟨rfl, _, hLast.of_same rfl rfl, ?_, hSound, hEmpty, hSafe.finished, rfl, ?_⟩
      · rw [hConfig]
        exact hSafe.durability
      · have hContents := hSafe.contents
        rw [flatMap_append, flatMap_singleton, hSafe.written] at hContents
        rw [flatMap_append, flatMap_singleton, encodeAll_append, ← hContents,
          (hFlushed.resolve_right fun hFailed => ne_true_of_eq_false hFailed.1 hFlush).2, hBuffer,
          append_assoc]
        simp [encodeAll]
    · rw [hFalse] at hSync
      cases hSync

/-- The next segment is started behind the finished one, or the writer takes no more
records. -/
theorem Safe.rollSegment :
    (writer.rollSegment.2 = true ∧
      ∃ current', Safe initial writer.rollSegment.1 (past ++ [current]) current' records) ∨
    (writer.rollSegment.2 = false ∧ writer.rollSegment.1.Refuses ∧
      writer.rollSegment.1.disk.files = initial ++ (past ++ [current])) := by
  have hConfig := (writer.rollSegment_spec).1.config
  have hPersist := hSafe.last.persist
  have hFlush : writer.flush = (writer, true) := by
    rw [flush_of_empty hSafe.buffer, hSafe.healthy]
  -- Persisting once more does not change the file.
  have hSame : (if (writer.persist current.name).2 then
      { current with persisted := current.contents } else current) = current := by
    have hCurrent : { current with persisted := current.contents } = current :=
      congrArg (fun bytes => ({ current with persisted := bytes } : StoredFile)) hSafe.written.symm
    rw [hCurrent, ite_self]
  rw [hSame] at hPersist
  have hFiles : (writer.persist current.name).1.disk.files = initial ++ (past ++ [current]) := by
    rw [hPersist.files, append_assoc]
  have hRolled := rolled hSafe.last.fd
  generalize writer.rollSegment = result at *
  cases hRolled with
  | unwritten message hUnwritten =>
    rw [hFlush] at hUnwritten
    cases hUnwritten
  | unpersisted message =>
    rw [hFlush]
    exact Or.inr ⟨rfl, rfl, hFiles⟩
  | finished closed _ _ hDisk hFd hBuffer hHealthy =>
    rw [hFlush] at hDisk
    rcases startSegment_last (hDisk ▸ hFiles) hFd with
      ⟨hTrue, ⟨name, hLast⟩, hNewBuffer, hNewHealthy⟩ | ⟨hFalse, hNone, hBroken, hStored⟩
    · refine Or.inl ⟨hTrue, _, hLast, ?_, (hNewHealthy.trans hHealthy).trans hSafe.healthy,
        hNewBuffer.trans hBuffer, fun file hFile => ?_, rfl, ?_⟩
      · rw [hConfig]
        exact hSafe.durability
      · rcases mem_append.mp hFile with hPast | hCurrent
        · exact hSafe.finished file hPast
        · rw [mem_singleton.mp hCurrent]
          exact hSafe.written
      · rw [flatMap_append, hSafe.contents]
        simp
    · exact Or.inr ⟨hFalse, by rw [JournalWriter.Refuses, hBroken]; rfl, hStored⟩

/-- A record is acknowledged once it is safe.  If it is not acknowledged there will be
no other. -/
theorem Safe.append (record : Record) (now : Int) :
    (∃ rest, (writer.append record now).1.disk.files = initial ++ (past ++ rest)) ∧
      if (writer.append record now).2 then
        ∃ past' current', Safe initial (writer.append record now).1 past' current'
          (records ++ [record])
      else (writer.append record now).1.Refuses := by
  have hTaken : ¬ (!writer.healthy || writer.fd.isNone) = true := by
    rw [hSafe.healthy, hSafe.last.fd]
    exact Bool.false_ne_true
  rw [JournalWriter.append_eq, if_neg hTaken]
  rcases hSafe.store record now with ⟨hTrue, current', hStored⟩ | ⟨hFalse, hBroken, current', hLast⟩
  · rw [hTrue, if_neg (by decide)]
    split
    · rcases hStored.rollSegment with ⟨hRolled, new, hNext⟩ | ⟨hFailed, hRefuses, hFiles⟩
      · refine ⟨⟨[current', new], ?_⟩, ?_⟩
        · rw [hNext.last.files]
          simp
        · rw [if_pos hRolled]
          exact ⟨_, _, hNext⟩
      refine ⟨⟨[current'], hFiles⟩, ?_⟩
      rw [hFailed, if_neg Bool.false_ne_true]
      exact hRefuses
    · refine ⟨⟨[current'], ?_⟩, _, _, hStored⟩
      rw [hStored.last.files, List.append_assoc]
  · rw [hFalse, if_pos (by decide)]
    refine ⟨⟨[current'], ?_⟩, ?_⟩
    · rw [hLast.files, List.append_assoc]
    · rw [if_neg Bool.false_ne_true, JournalWriter.Refuses, hBroken]
      rfl

end Steps

/-! ## Runs -/

/-- The acknowledged records are durable: the writer is about to take more, or never
will. -/
inductive Durable (initial : List StoredFile) (writer : JournalWriter) (records : List Record) :
    Prop
  | safe (past : List StoredFile) (current : StoredFile)
      (hSafe : Safe initial writer past current records)
  | stopped (files : List StoredFile) (refuses : writer.Refuses)
      (stored : writer.disk.files = initial ++ files)
      (kept : encodeAll records <+: files.flatMap StoredFile.persisted)
      (sound : ∀ file ∈ files, file.persisted <+: file.contents)

section Runs

variable {initial : List StoredFile} {writer : JournalWriter} {records : List Record}
  {current : StoredFile}

theorem Safe.sound {past : List StoredFile} (hSafe : Safe initial writer past current records) :
    ∀ file ∈ past ++ [current], file.persisted <+: file.contents := by
  intro file hFile
  rcases mem_append.mp hFile with hPast | hCurrent
  · exact hSafe.finished file hPast ▸ prefix_rfl
  · rw [mem_singleton.mp hCurrent]
    exact hSafe.written ▸ prefix_rfl

/-- The segments lie between two states that differ only behind all but the last. -/
theorem prefix_of_moment {past rest moment : List StoredFile}
    {before after : List StoredFile} (hBefore : FilesEvolve before moment)
    (hAfter : FilesEvolve moment after) (hBeforeFiles : before = initial ++ (past ++ [current]))
    (hAfterFiles : after = initial ++ (past ++ rest))
    (hSound : ∀ file ∈ past ++ [current], file.persisted <+: file.contents) :
    (past ++ [current]).flatMap StoredFile.persisted <+:
      (moment.drop initial.length).flatMap StoredFile.persisted := by
  have hGrown := hBefore.grown.drop initial.length
  have hGrown' := hAfter.grown.drop initial.length
  rw [hBeforeFiles, drop_left] at hGrown
  rw [hAfterFiles, drop_left] at hGrown'
  exact persisted_between hGrown hGrown' hSound

variable (hDurable : Durable initial writer records)
include hDurable

/-- What was persisted before a record stays persisted while it is appended. -/
theorem Durable.moment (entry : Record × Int)
    {moment : List StoredFile} (hBefore : FilesEvolve writer.disk.files moment)
    (hAfter : FilesEvolve moment (writer.record entry).disk.files) :
    encodeAll records <+: (moment.drop initial.length).flatMap StoredFile.persisted := by
  cases hDurable with
  | safe past current hSafe =>
    obtain ⟨⟨rest, hRest⟩, -⟩ := hSafe.append entry.1 entry.2
    rw [← hSafe.contents]
    exact prefix_of_moment hBefore hAfter
      (by rw [hSafe.last.files, append_assoc]) hRest hSafe.sound
  | stopped files hRefuses hStored hKept hSound =>
    have hSame : writer.record entry = writer := by
      rw [record, append_refused writer hRefuses]
    rw [hSame] at hAfter
    refine hKept.trans ?_
    rcases files.eq_nil_or_concat with rfl | ⟨past, current, rfl⟩
    · exact nil_prefix
    · rw [concat_eq_append] at hStored hSound ⊢
      exact prefix_of_moment hBefore hAfter hStored hStored hSound

theorem Durable.record (entry : Record × Int) :
    Durable initial (writer.record entry)
      (records ++ if (writer.append entry.1 entry.2).2 then [entry.1] else []) := by
  have hEvolve : FilesEvolve writer.disk.files (writer.record entry).disk.files :=
    (writer.append_advances entry.1 entry.2).files
  have hMoment := hDurable.moment entry hEvolve .refl
  cases hDurable with
  | safe past current hSafe =>
    obtain ⟨⟨rest, hRest⟩, hNext⟩ := hSafe.append entry.1 entry.2
    have hFiles : writer.disk.files = initial ++ (past ++ [current]) := by
      rw [hSafe.last.files, List.append_assoc]
    split
    · next hTrue =>
        rw [if_pos hTrue] at hNext
        obtain ⟨past', current', hSafe'⟩ := hNext
        exact .safe past' current' hSafe'
    next hFalse =>
    rw [if_neg hFalse] at hNext
    change (writer.record entry).disk.files = _ at hRest
    have hSound : SoundFrom initial.length writer.disk.files := by
      rw [SoundFrom, hFiles, List.drop_left]
      exact hSafe.sound
    obtain ⟨-, hSound'⟩ := hEvolve.soundFrom (by rw [hFiles]; simp) hSound
    rw [SoundFrom, hRest, List.drop_left] at hSound'
    rw [hRest, List.drop_left] at hMoment
    rw [List.append_nil]
    exact .stopped _ hNext hRest hMoment hSound'
  | stopped files hRefuses hStored hKept hSound =>
    have hSame := JournalWriter.append_refused writer hRefuses entry.1 entry.2
    rw [JournalWriter.record, hSame, if_neg Bool.false_ne_true, List.append_nil]
    exact .stopped files hRefuses hStored hKept hSound

theorem Durable.run (entries : List (Record × Int)) :
    Durable initial (Machine.run JournalWriter.record writer entries)
      (records ++ writer.acknowledged entries) := by
  induction entries generalizing writer records with
  | nil =>
    rw [JournalWriter.acknowledged, List.append_nil]
    exact hDurable
  | cons entry entries ih =>
    rw [JournalWriter.acknowledged, ← List.append_assoc]
    exact ih (hDurable.record entry)

end Runs

theorem durable_opened {config : WriterConfig} (hAlways : config.durability = .always)
    (disk : Disk) : Durable disk.files (opened config disk) [] := by
  rcases opened_last config disk with
    ⟨⟨name, hLast⟩, hConfig, hBuffer, hHealthy, -⟩ | ⟨hNone, hFiles⟩
  · exact .safe [] { name := name }
      ⟨hLast, by rw [hConfig]; exact hAlways, hHealthy, hBuffer, nofun, rfl, rfl⟩
  refine .stopped [] ?_ (by rw [hFiles, append_nil]) nil_prefix nofun
  rw [JournalWriter.Refuses, hNone]
  exact Bool.or_true _

/-- At every moment of an append, and so between any two, the records acknowledged so far
are persisted, in order and with nothing before or between them. -/
theorem acknowledged_is_durable (config : WriterConfig) (hAlways : config.durability = .always)
    (disk : Disk) (entries : List (Record × Int)) (entry : Record × Int) :
    let writer := JournalWriter.opened config disk
    let before := Machine.run JournalWriter.record writer entries
    FilesEvolve before.disk.files (before.record entry).disk.files ∧
      ∀ moment, FilesEvolve before.disk.files moment →
        FilesEvolve moment (before.record entry).disk.files →
        encodeAll (writer.acknowledged entries) <+:
          (moment.drop disk.files.length).flatMap StoredFile.persisted := by
  intro writer before
  have hDurable := (durable_opened hAlways disk).run entries
  rw [List.nil_append] at hDurable
  exact ⟨(before.append_advances entry.1 entry.2).files, fun moment hBefore hAfter =>
    hDurable.moment entry hBefore hAfter⟩

/-- Every record is persisted in a segment of its own. -/
def segmentEach : WriterConfig where
  directory := []
  segmentBytes := 1
  durability := .always

/-- A disk that cannot persist for the third time. -/
def wearingDisk : Disk where
  persists := { coming := [.done, .done], after := .failed "Input/output error" }

theorem acknowledged_is_durable_wearing :
    let writer := JournalWriter.opened segmentEach wearingDisk
    let before := Machine.run JournalWriter.record writer [(sampleCancel 1, 5)]
    writer.acknowledged [(sampleCancel 1, 5), (sampleCancel 2, 6)] = [sampleCancel 1] ∧
      encodeAll [sampleCancel 1] <+:
        (before.record (sampleCancel 2, 6)).disk.files.flatMap StoredFile.persisted := by
  intro writer before
  obtain ⟨hEvolve, hDurable⟩ := acknowledged_is_durable segmentEach rfl wearingDisk
    [(sampleCancel 1, 5)] (sampleCancel 2, 6)
  have hAcknowledged : writer.acknowledged [(sampleCancel 1, 5)] = [sampleCancel 1] := by
    decide +kernel
  have hPersisted := hDurable _ hEvolve .refl
  have hNoFiles : wearingDisk.files.length = 0 := rfl
  rw [hAcknowledged, hNoFiles, List.drop_zero] at hPersisted
  refine ⟨by decide +kernel, ?_⟩
  generalize (before.record (sampleCancel 2, 6)).disk.files = files at hPersisted ⊢
  exact hPersisted

end ExchangeCore
