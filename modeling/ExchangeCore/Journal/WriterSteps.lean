import ExchangeCore.Journal.Writer

/-!
# What the writer's operations leave alone

Writing and persisting happen within a segment (`SameSegment`); only
`roll_segment` goes on to another one.  `append` first stores its record (`store`)
and then perhaps changes the segment (`append_eq`).
-/

namespace ExchangeCore
variable (record : Record) (now : Int)

namespace JournalWriter

/-- The writer is where it was in its segments, on a disk that will end up the same
way, and has done nothing to the files but what calls of the system do. -/
structure SameSegment (before after : JournalWriter) : Prop where
  config : after.config = before.config
  fd : after.fd = before.fd
  segmentIndex : after.segmentIndex = before.segmentIndex
  segmentSize : after.segmentSize = before.segmentSize
  writesAfter : after.disk.writes.after = before.disk.writes.after
  files : FilesEvolve before.disk.files after.disk.files

theorem SameSegment.refl (writer : JournalWriter) : SameSegment writer writer :=
  ⟨rfl, rfl, rfl, rfl, rfl, .refl⟩

theorem SameSegment.trans {first second third : JournalWriter}
    (hFirst : SameSegment first second) (hSecond : SameSegment second third) :
    SameSegment first third :=
  ⟨hSecond.config.trans hFirst.config, hSecond.fd.trans hFirst.fd,
    hSecond.segmentIndex.trans hFirst.segmentIndex,
    hSecond.segmentSize.trans hFirst.segmentSize,
    hSecond.writesAfter.trans hFirst.writesAfter, hFirst.files.trans hSecond.files⟩

variable (writer : JournalWriter)

theorem sameSegment_fail (message : String) : SameSegment writer (writer.fail message) :=
  ⟨rfl, rfl, rfl, rfl, rfl, .refl⟩

/-- The ways in which a flush ends: there is nothing to write or no file to write to, the
buffer is written, or a write fails. -/
inductive Flushes : JournalWriter × Bool → Prop
  | empty (hBuffer : writer.buffer = []) : Flushes (writer, writer.healthy)
  | closed (hFd : writer.fd = none) : Flushes (writer, false)
  | written (file : List Char) (hFd : writer.fd = some file)
      (hComplete : (writer.disk.attempt writer.buffer).complete = true) :
      Flushes
        ({ writer with disk := (writer.disk.writeAll file writer.buffer).1, buffer := [] }, true)
  | failed (file : List Char) (message : String) (hBuffer : writer.buffer ≠ [])
      (hFd : writer.fd = some file)
      (hComplete : (writer.disk.attempt writer.buffer).complete = false) :
      Flushes
        ({ writer with disk := (writer.disk.writeAll file writer.buffer).1 }.fail message, false)

theorem flushes : Flushes writer writer.flush := by
  unfold flush
  split
  · next hEmpty => exact .empty (List.isEmpty_iff.mp hEmpty)
  next hSome =>
  split
  · next hFd => exact .closed hFd
  next file hFd =>
  dsimp only [writeAll]
  cases hComplete : (writer.disk.writeAll file writer.buffer).2 with
  | true => exact .written file hFd hComplete
  | false =>
    exact .failed file _ (fun hEmpty => hSome (List.isEmpty_iff.mpr hEmpty)) hFd hComplete

theorem sameSegment_flush : SameSegment writer writer.flush.1 := by
  have hFlushes := writer.flushes
  generalize writer.flush = result at hFlushes ⊢
  cases hFlushes with
  | empty => exact .refl writer
  | closed => exact .refl writer
  | written file => exact ⟨rfl, rfl, rfl, rfl, rfl, writer.disk.evolves_writeAll file _⟩
  | failed file => exact ⟨rfl, rfl, rfl, rfl, rfl, writer.disk.evolves_writeAll file _⟩

variable {writer} in
theorem flush_done (hFlushed : writer.flush.2 = true) :
    writer.flush.1.buffer = [] ∧ writer.flush.1.healthy = writer.healthy := by
  have hFlushes := writer.flushes
  generalize writer.flush = result at *
  cases hFlushes with
  | empty hBuffer => exact ⟨hBuffer, rfl⟩
  | written => exact ⟨rfl, rfl⟩
  | closed => cases hFlushed
  | failed => cases hFlushed

theorem sameSegment_persist (file : List Char) : SameSegment writer (writer.persist file).1 := by
  have hWrites : (writer.disk.persist file).1.writes = writer.disk.writes := by
    unfold Disk.persist
    dsimp only
    split <;> rfl
  exact ⟨rfl, rfl, rfl, rfl, congrArg Outcomes.after hWrites, writer.disk.evolves_persist file⟩

theorem sameSegment_sync : SameSegment writer writer.sync.1 := by
  unfold sync
  cases writer.fd with
  | none => exact .refl writer
  | some file =>
    have hFlush := sameSegment_flush writer
    have hPersist := hFlush.trans (sameSegment_persist writer.flush.1 file)
    dsimp only
    split
    · exact hFlush
    split
    · exact hPersist.trans (sameSegment_fail _ _)
    · exact hPersist.trans ⟨rfl, rfl, rfl, rfl, rfl, .refl⟩

variable {writer} in
theorem healthy_sync (hSynced : writer.sync.2 = true) : writer.sync.1.healthy = writer.healthy := by
  unfold sync at hSynced ⊢
  cases hFd : writer.fd with
  | none => rfl
  | some file =>
    rw [hFd] at hSynced
    dsimp only at hSynced ⊢
    cases hFlush : writer.flush.2 with
    | false =>
      rw [hFlush] at hSynced
      cases hSynced
    | true =>
      rw [hFlush] at hSynced
      cases hPersist : (writer.flush.1.persist file).2 with
      | false =>
        rw [hPersist] at hSynced
        cases hSynced
      | true => exact (flush_done hFlush).2

/-! ## Storing a record -/

/-- The part of `append` that concerns the record: it goes into the buffer, which is
written and persisted if it is time to. -/
def store (record : Record) (now : Int) : JournalWriter × Bool :=
  let syncNow := writer.syncNow now
  let writer := writer.encodeRecord record
  let (writer, flushed) :=
    if writer.config.bufferBytes ≤ writer.buffer.length || syncNow then writer.flush
    else (writer, true)
  if !flushed then (writer, false)
  else
    let (writer, synced) := if syncNow then writer.sync else (writer, true)
    if !synced then (writer, false)
    else (if syncNow then { writer with lastSync := now } else writer, true)

theorem append_eq :
    writer.append record now =
      if !writer.healthy || writer.fd.isNone then (writer, false)
      else if !(writer.store record now).2 then ((writer.store record now).1, false)
      else if (writer.store record now).1.config.segmentBytes ≤
          (writer.store record now).1.segmentSize then (writer.store record now).1.rollSegment
      else ((writer.store record now).1, true) := by
  unfold append store
  split
  · rfl
  cases writer.syncNow now with
  | false =>
    by_cases hFull : (writer.encodeRecord record).config.bufferBytes ≤
        (writer.encodeRecord record).buffer.length
    · rcases hFlush : (writer.encodeRecord record).flush with ⟨flushed, isFlushed⟩
      cases isFlushed <;> simp [hFull, hFlush]
    · simp [hFull]
  | true =>
    rcases hFlush : (writer.encodeRecord record).flush with ⟨flushed, isFlushed⟩
    cases isFlushed with
    | false => simp [hFlush]
    | true =>
      rcases hSync : flushed.sync with ⟨synced, isSynced⟩
      cases isSynced <;> simp [hFlush, hSync]

theorem append_refused (hRefused : (!writer.healthy || writer.fd.isNone) = true) (record : Record)
    (now : Int) : writer.append record now = (writer, false) := by
  rw [append_eq, if_pos hRefused]

/-- The ways in which storing a record ends: it stays in the buffer, it is written, or
it is persisted as well, and either may fail. -/
inductive Stored (syncNow : Bool) (now : Int) (encoded : JournalWriter) :
    JournalWriter × Bool → Prop
  | buffered (hLater : syncNow = false) : Stored syncNow now encoded (encoded, true)
  | unwritten (hFlush : encoded.flush.2 = false) :
      Stored syncNow now encoded (encoded.flush.1, false)
  | written (hLater : syncNow = false) (hFlush : encoded.flush.2 = true) :
      Stored syncNow now encoded (encoded.flush.1, true)
  | unpersisted (hFlush : encoded.flush.2 = true) (hSync : encoded.flush.1.sync.2 = false) :
      Stored syncNow now encoded (encoded.flush.1.sync.1, false)
  | persisted (hFlush : encoded.flush.2 = true) (hSync : encoded.flush.1.sync.2 = true) :
      Stored syncNow now encoded ({ encoded.flush.1.sync.1 with lastSync := now }, true)

theorem stored :
    Stored (writer.syncNow now) now (writer.encodeRecord record) (writer.store record now) := by
  unfold store
  dsimp only
  generalize writer.encodeRecord record = encoded
  cases writer.syncNow now with
  | false =>
    by_cases hFull : encoded.config.bufferBytes ≤ encoded.buffer.length
    · cases hFlush : encoded.flush.2 with
      | false => simpa [hFull, hFlush] using Stored.unwritten hFlush
      | true => simpa [hFull, hFlush] using Stored.written rfl hFlush
    · simpa [hFull] using Stored.buffered rfl
  | true =>
    cases hFlush : encoded.flush.2 with
    | false => simpa [hFlush] using Stored.unwritten hFlush
    | true =>
      cases hSync : encoded.flush.1.sync.2 with
      | false => simpa [hFlush, hSync] using Stored.unpersisted hFlush hSync
      | true => simpa [hFlush, hSync] using Stored.persisted hFlush hSync

theorem sameSegment_store :
    SameSegment (writer.encodeRecord record) (writer.store record now).1 := by
  have hStored := writer.stored record now
  generalize writer.encodeRecord record = encoded at *
  generalize writer.store record now = result at *
  have hSynced := (sameSegment_flush encoded).trans (sameSegment_sync encoded.flush.1)
  cases hStored with
  | buffered => exact .refl encoded
  | unwritten => exact sameSegment_flush encoded
  | written => exact sameSegment_flush encoded
  | unpersisted => exact hSynced
  | persisted => exact hSynced.trans ⟨rfl, rfl, rfl, rfl, rfl, .refl⟩

variable {writer} in
theorem healthy_store {record} {now} (hTrue : (writer.store record now).2 = true) :
    (writer.store record now).1.healthy = writer.healthy := by
  have hStored := writer.stored record now
  have hEncoded : (writer.encodeRecord record).healthy = writer.healthy := rfl
  generalize writer.encodeRecord record = encoded at *
  generalize writer.store record now = result at *
  rw [← hEncoded]
  cases hStored with
  | buffered => rfl
  | unwritten => cases hTrue
  | written _ hFlush => exact (flush_done hFlush).2
  | unpersisted => cases hTrue
  | persisted hFlush hSync => exact (healthy_sync hSync).trans (flush_done hFlush).2

/-! ## Changing segments -/

/-- The writer has not gone back in its segments, on a disk that will end up the same way,
and has done nothing to the files but what calls of the system do. -/
structure Advances (before after : JournalWriter) : Prop where
  config : after.config = before.config
  segmentIndex : before.segmentIndex ≤ after.segmentIndex
  writesAfter : after.disk.writes.after = before.disk.writes.after
  files : FilesEvolve before.disk.files after.disk.files

theorem Advances.trans {first second third : JournalWriter} (hFirst : Advances first second)
    (hSecond : Advances second third) : Advances first third :=
  ⟨hSecond.config.trans hFirst.config, hFirst.segmentIndex.trans hSecond.segmentIndex,
    hSecond.writesAfter.trans hFirst.writesAfter, hFirst.files.trans hSecond.files⟩

theorem SameSegment.advances {before after : JournalWriter} (hSame : SameSegment before after) :
    Advances before after :=
  ⟨hSame.config, hSame.segmentIndex.ge, hSame.writesAfter, hSame.files⟩

/-- A new segment is empty. -/
theorem startSegment_spec :
    Advances writer writer.startSegment.1 ∧
      (writer.startSegment.2 = true → writer.startSegment.1.segmentSize = 0) := by
  have hWrites : ∀ name, (writer.disk.openExclusive name).1.writes = writer.disk.writes := by
    intro name
    unfold Disk.openExclusive
    dsimp only
    split
    · rfl
    split <;> rfl
  have hAfter := congrArg Outcomes.after (hWrites (segmentName (writer.segmentIndex + 1)))
  have hFiles := writer.disk.evolves_openExclusive (segmentName (writer.segmentIndex + 1))
  unfold startSegment
  split
  · exact ⟨⟨rfl, le_rfl, rfl, .refl⟩, nofun⟩
  dsimp only
  split
  · exact ⟨⟨rfl, Nat.le_succ _, hAfter, hFiles⟩, nofun⟩
  · exact ⟨⟨rfl, Nat.le_succ _, hAfter, hFiles⟩, fun _ => rfl⟩

/-- How leaving the open segment ends: it cannot be written or persisted, or it is closed
and the next one is started. -/
inductive Rolled (file : List Char) : JournalWriter × Bool → Prop
  | unwritten (message : String) (hFlush : writer.flush.2 = false) :
      Rolled file (writer.flush.1.fail message, false)
  | unpersisted (message : String) (hFlush : writer.flush.2 = true)
      (hPersist : (writer.flush.1.persist file).2 = false) :
      Rolled file ((writer.flush.1.persist file).1.fail message, false)
  | finished (closed : JournalWriter) (hFlush : writer.flush.2 = true)
      (hPersist : (writer.flush.1.persist file).2 = true)
      (hDisk : closed.disk = (writer.flush.1.persist file).1.disk) (hFd : closed.fd = none)
      (hBuffer : closed.buffer = []) (hHealthy : closed.healthy = writer.healthy)
      (hConfig : closed.config = writer.config)
      (hIndex : closed.segmentIndex = writer.segmentIndex) :
      Rolled file closed.startSegment

variable {writer} in
theorem rolled {file : List Char} (hFd : writer.fd = some file) :
    Rolled writer file writer.rollSegment := by
  have hSame := sameSegment_flush writer
  unfold rollSegment finishSegment
  rw [hFd]
  dsimp only
  cases hFlush : writer.flush.2 with
  | false => exact .unwritten _ hFlush
  | true =>
    rw [if_pos rfl]
    cases hPersist : (writer.flush.1.persist file).2 with
    | false => exact .unpersisted _ hFlush hPersist
    | true =>
      exact .finished _ hFlush hPersist rfl rfl (flush_done hFlush).1 (flush_done hFlush).2
        hSame.config hSame.segmentIndex

variable {writer} in
theorem rollSegment_of_closed (hFd : writer.fd = none) :
    writer.rollSegment = writer.startSegment := by
  have hFinish : writer.finishSegment = (writer, true) := by
    rw [finishSegment, hFd]
  rw [rollSegment, hFinish]
  rfl

theorem rollSegment_spec :
    Advances writer writer.rollSegment.1 ∧
      (writer.rollSegment.2 = true → writer.rollSegment.1.segmentSize = 0) := by
  cases hFd : writer.fd with
  | none =>
    rw [rollSegment_of_closed hFd]
    exact startSegment_spec writer
  | some file =>
    have hRolled := rolled hFd
    have hFlushed := sameSegment_flush writer
    have hPersisted := hFlushed.trans (sameSegment_persist writer.flush.1 file)
    generalize writer.rollSegment = result at hRolled ⊢
    cases hRolled with
    | unwritten message => exact ⟨(hFlushed.trans (sameSegment_fail _ message)).advances, nofun⟩
    | unpersisted message =>
      exact ⟨(hPersisted.trans (sameSegment_fail _ message)).advances, nofun⟩
    | finished closed _ _ hDisk _ _ _ hConfig hIndex =>
      obtain ⟨hStarted, hSize⟩ := startSegment_spec closed
      refine ⟨Advances.trans ⟨hConfig, hIndex.ge, ?_, ?_⟩ hStarted, hSize⟩
      · rw [hDisk]
        exact hPersisted.writesAfter
      · rw [hDisk]
        exact hPersisted.files

theorem segmentIndex_close : writer.close.segmentIndex = writer.segmentIndex := by
  unfold close
  split
  · rfl
  next file _ =>
    exact ((sameSegment_flush writer).trans (sameSegment_persist writer.flush.1 file)).segmentIndex

theorem append_advances : Advances writer (writer.append record now).1 := by
  have hStore : Advances writer (writer.store record now).1 :=
    let hSame := writer.sameSegment_store record now
    ⟨hSame.config, hSame.segmentIndex.ge, hSame.writesAfter, hSame.files⟩
  rw [append_eq]
  split
  · exact (SameSegment.refl writer).advances
  split
  · exact hStore
  split
  · exact hStore.trans (rollSegment_spec _).1
  · exact hStore

/-- The size of the segment after a record that was taken. -/
theorem segmentSize_append {record : Record} {now : Int}
    (hTaken : (writer.append record now).2 = true) :
    (writer.append record now).1.segmentSize =
      if writer.config.segmentBytes ≤ writer.segmentSize + (encode record).length then 0
      else writer.segmentSize + (encode record).length := by
  have hSame := writer.sameSegment_store record now
  have hConfig : (writer.store record now).1.config = writer.config := hSame.config
  have hSize : (writer.store record now).1.segmentSize =
      writer.segmentSize + (encode record).length := hSame.segmentSize
  rw [append_eq, hConfig, hSize] at hTaken ⊢
  split at hTaken
  · cases hTaken
  split at hTaken
  · cases hTaken
  next hOpen hStored =>
  rw [if_neg hOpen, if_neg hStored]
  split at hTaken
  · next hFull =>
      rw [if_pos hFull, if_pos hFull]
      exact (rollSegment_spec _).2 hTaken
  · next hSpace =>
      rw [if_neg hSpace, if_neg hSpace]
      exact hSize

end JournalWriter
end ExchangeCore
