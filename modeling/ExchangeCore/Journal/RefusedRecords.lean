import ExchangeCore.Journal.AppendLog
import ExchangeCore.Journal.SegmentLedger
import ExchangeCore.Journal.WriterRun

/-!
# Records that were refused

An engine refuses a command when its journal does not take the record.  Whether the
record is gone for good depends on where the journal failed.  If only writes fail,
and for good, at least its last byte never reaches the file, and recovery does not
see it (`refused_not_recovered`).

If the record has been written and something after that fails, or if a write fails
and the one that `close` makes does not, the record is there to be replayed
(`refused_and_recovered`).
-/

namespace ExchangeCore

open List

/-! ## What has been taken and what has been refused -/

/-- A log on a disk where only writes fail: everything was taken, or everything up
to the record at which the writer broke. -/
inductive Accounted (others : List (List Char × List UInt8)) : Logged JournalWriter → Prop
  | writing (journal : JournalWriter) (taken : List Record)
      (hExtends : Extends others taken journal) :
      Accounted others ⟨journal, taken.map (⟨·, true⟩)⟩
  | broken (journal : JournalWriter) (finished : List (List Record)) (current : List Record)
      (record : Record) (refused : List Record)
      (hBroken : Broken others journal finished (current ++ [record])) :
      Accounted others ⟨journal, (finished.flatten ++ current).map (⟨·, true⟩) ++
        (record :: refused).map (⟨·, false⟩)⟩

variable {others : List (List Char × List UInt8)} {log : Logged JournalWriter}

theorem Accounted.append (hAccounted : Accounted others log) (record : Record) (now : Int) :
    Accounted others (JournalSink.append log record now).1 ∨
      kMaxSegmentIndex ≤ (JournalSink.append log record now).1.journal.segmentIndex := by
  have hAppend : (JournalSink.append log record now).1 = ⟨(log.journal.append record now).1,
        log.offers ++ [⟨record, (log.journal.append record now).2⟩]⟩ := rfl
  rw [hAppend]
  cases hAccounted with
  | writing journal taken hExtends =>
    obtain ⟨finished, current, hWriting, rfl⟩ := hExtends
    by_cases hRoom : finished.length + 1 < kMaxSegmentIndex
    · left
      dsimp only
      rcases hWriting.append record now hRoom with ⟨hTaken, hExtends⟩ | ⟨hRefused, hBroken⟩
      · have hLog := Accounted.writing _ _ hExtends
        rw [map_append] at hLog
        rw [hTaken]
        exact hLog
      · rw [hRefused]
        exact Accounted.broken _ _ _ _ [] hBroken
    · right
      have hIndex := hWriting.index
      exact le_trans (by omega) (journal.append_advances record now).segmentIndex
  | broken journal finished current first refused hBroken =>
    left
    have hLog := Accounted.broken _ _ _ _ (refused ++ [record]) hBroken
    have hOffers : (first :: (refused ++ [record])).map (fun record => (⟨record, false⟩ : Offer)) =
        (first :: refused).map (⟨·, false⟩) ++ [⟨record, false⟩] := by
      rw [← cons_append, map_append]
      rfl
    rw [hOffers, ← append_assoc] at hLog
    dsimp only
    rw [hBroken.append record now]
    exact hLog

/-- The records that a reader visits have been taken. -/
theorem Accounted.visited
    (hAccounted : Accounted others log) (hFits : ∀ record ∈ log.records, record.Fits)
    (hConsecutive : Consecutive 1 log.records) {visited : Record}
    (hVisited : visited ∈ (read log.journal.close.directory 1).visited) :
    ∃ record, ⟨record, true⟩ ∈ log.offers ∧ visited = record.written := by
  cases hAccounted with
  | writing journal taken hExtends =>
    obtain ⟨finished, current, hWriting, rfl⟩ := hExtends
    have hRecords : Logged.records
        (⟨journal, (finished.flatten ++ current).map (⟨·, true⟩)⟩ : Logged JournalWriter) =
          finished.flatten ++ current := by
      rw [Logged.records, map_map]
      exact map_id _
    rw [hRecords] at hFits hConsecutive
    obtain ⟨missing, hClosed⟩ := hWriting.close
    obtain ⟨kept, rest, hKept, -, hRead⟩ := hClosed.read hFits hConsecutive
    rw [hRead] at hVisited
    obtain ⟨record, hRecord, rfl⟩ := mem_map.mp hVisited
    refine ⟨record, mem_map_of_mem ?_, rfl⟩
    rw [hKept]
    rcases mem_append.mp hRecord with hFinished | hCurrent
    · exact mem_append_left _ hFinished
    · exact mem_append_right _ (mem_append_left _ hCurrent)
  | broken journal finished current first refused hBroken =>
    have hRecords : Logged.records (⟨journal, (finished.flatten ++ current).map (⟨·, true⟩) ++
          (first :: refused).map (⟨·, false⟩)⟩ : Logged JournalWriter) =
          finished.flatten ++ (current ++ [first]) ++ refused := by
      rw [Logged.records, map_append, map_map, map_map]
      have hId : ∀ (records : List Record) (taken : Bool),
          records.map (Offer.record ∘ (⟨·, taken⟩)) = records := fun records _ => map_id _
      rw [hId, hId]
      simp
    rw [hRecords] at hFits hConsecutive
    obtain ⟨missing, hMissing, hClosed⟩ := hBroken.close
    obtain ⟨kept, rest, hKept, hRest, hRead⟩ := hClosed.read
      (fun record hRecord => hFits record (mem_append_left _ hRecord))
      (consecutive_append.mp hConsecutive).1
    rw [hRead] at hVisited
    obtain ⟨record, hRecord, rfl⟩ := mem_map.mp hVisited
    refine ⟨record, mem_append_left _ (mem_map_of_mem ?_), rfl⟩
    rcases mem_append.mp hRecord with hFinished | hCurrent
    · exact mem_append_left _ hFinished
    -- What is missing is at the end, so at least the last record is not kept.
    refine mem_append_right _ ?_
    obtain ⟨before, last, rfl⟩ :=
      (eq_nil_or_concat rest).resolve_left (hRest hMissing)
    rw [concat_eq_append, ← append_assoc] at hKept
    rw [(append_inj' hKept rfl).1]
    exact mem_append_left _ hCurrent

theorem consecutive_of_sequences {first : Nat} {records : List Record}
    (hFits : ∀ record ∈ records, record.Fits)
    (hNumbers : records.map Record.sequence = List.range' first records.length) :
    Consecutive first records := by
  induction records generalizing first with
  | nil => trivial
  | cons record records ih =>
    rw [map_cons, length_cons, List.range'_succ] at hNumbers
    obtain ⟨hFirst, hRest⟩ := List.cons.inj hNumbers
    refine ⟨hFirst, ?_⟩
    cases records with
    | nil => trivial
    | cons next records =>
      -- The next number is one that a record carries, so counting has not come around.
      have hNext : next.sequence = first + 1 := by
        rw [map_cons, length_cons, List.range'_succ] at hRest
        exact (List.cons.inj hRest).1
      have hBound : next.sequence < 2 ^ 64 := (hFits next (by simp)).1
      have hNumber : nextSequence first = first + 1 :=
        Word64.add_of_lt (by rw [← hNext]; exact hBound)
      rw [hNumber]
      exact ih (fun other hOther => hFits other (mem_cons_of_mem record hOther)) hRest

/-- Starting in a directory without segments, on a disk where only writes fail and
fail for good: a record that the journal refused is not visited when the closed
journal is read back. -/
theorem refused_not_recovered (config : WriterConfig) (disk : Disk)
    (hDisk : disk.OnlyWritesFail) (hEmpty : NoSegments disk.listing)
    (hOpened : ({ config := config, disk := disk } : JournalWriter).openJournal.2 = true)
    (risk : Option RiskEngine) (kill : Option KillSwitch) (events : List Event)
    (log : Logged JournalWriter) (hLog : ((MatchingEngine.start (some
      { journal := ({ config := config, disk := disk } : JournalWriter).openJournal.1 })
        risk kill).run events).journal = some log)
    (hRoom : log.journal.segmentIndex < kMaxSegmentIndex)
    (hFits : ∀ record ∈ log.records, record.Fits) (record : Record)
    (hRefused : ⟨record, false⟩ ∈ log.offers) :
    record.written ∉ (read log.journal.close.directory 1).visited := by
  obtain ⟨log', hLog', hNumbers⟩ := MatchingEngine.offersNumbered_run
    ({ config := config, disk := disk } : JournalWriter).openJournal.1 risk kill events
  cases hLog.symm.trans hLog'
  have hWriting := writing_openJournal hDisk hEmpty hOpened
  have hAccounted : Accounted disk.listing log ∨ kMaxSegmentIndex ≤ log.journal.segmentIndex := by
    refine MatchingEngine.forall_journal_run (P := fun log => Accounted disk.listing log ∨
      kMaxSegmentIndex ≤ log.journal.segmentIndex) _ ?_ (fun log record hBefore => ?_) events log
      hLog
    · rintro _ ⟨⟩
      exact Or.inl (.writing _ [] ⟨[], [], hWriting, rfl⟩)
    rcases hBefore with hAccounted | hFull
    · exact hAccounted.append record record.timestamp
    · exact Or.inr (hFull.trans (log.journal.append_advances record record.timestamp).segmentIndex)
  have hCount := congrArg List.length hNumbers
  rw [List.length_map, List.length_range'] at hCount
  rw [← hCount] at hNumbers
  intro hVisited
  obtain ⟨taken, hTaken, hSame⟩ := (hAccounted.resolve_right (by omega)).visited hFits
    (consecutive_of_sequences hFits hNumbers) hVisited
  -- No two offers have the same number, and the answers to these two differ.
  have hSequence : record.sequence = taken.sequence := by
    rw [← Record.sequence_written, hSame, Record.sequence_written]
  have hOnce : (log.offers.map fun offer => offer.record.sequence).Nodup := by
    rw [Logged.records, List.map_map] at hNumbers
    exact (congrArg List.Nodup hNumbers).mpr (List.nodup_range')
  have hOffer := List.inj_on_of_nodup_map hOnce hRefused hTaken hSequence
  exact absurd (congrArg Offer.taken hOffer) Bool.false_ne_true

/-! ## A refused record that is recovered -/

/-- What the journal is offered when an instrument is listed and an order comes
in. -/
def listingRecord : Record where
  type := .instrumentDefined
  sequence := 1
  timestamp := 1
  instrument := sampleListing .cancelIncoming

def orderRecord : Record where
  type := .newOrder
  sequence := 2
  timestamp := 2
  newOrder := sampleNewOrder 1 1 .buy 1 5 false

/-- A disk on which one write fails, with nothing transferred. -/
def stumblingDisk : Disk where
  writes := { coming := [.failed "No space left on device"] }

/-- A writer that has room for the listing in its buffer and not for the order. -/
def stumblingWriter : JournalWriter :=
  ({ config := { directory := "journal".toList, durability := .none, bufferBytes := 100 }
     disk := stumblingDisk } : JournalWriter).openJournal.1

/-- The order is refused because its record cannot be written.  Closing the journal
writes it after all, and it is recovered. -/
theorem refused_and_recovered :
    let engine := (MatchingEngine.start (some { journal := stumblingWriter : Logged JournalWriter })
      none none).run [.addInstrument (sampleListing .cancelIncoming) 1]
    let reply := engine.submit (sampleNewOrder 1 1 .buy 1 5 false) 2
    reply.2.result.reject = .halted ∧ ∃ log, reply.1.journal = some log ∧
        log.offers = [⟨listingRecord, true⟩, ⟨orderRecord, false⟩] ∧
        orderRecord.written ∈ (read log.journal.close.directory 1).visited := by
  intro engine reply
  have hAll : reply.1.journal.map Logged.offers =
      some [⟨listingRecord, true⟩, ⟨orderRecord, false⟩] := by decide +kernel
  obtain ⟨log, hLog, hOffers⟩ := Option.map_eq_some_iff.mp hAll
  have hJournal : log.journal = stumblingWriter.run
      (log.records.map fun record => .append record record.timestamp) := by
    refine MatchingEngine.forall_journal_run (P := fun log => log.journal = stumblingWriter.run
      (log.records.map fun record => .append record record.timestamp)) engine ?_
      (fun log record hRun => ?_) [.submit (sampleNewOrder 1 1 .buy 1 5 false) 2] log hLog
    · rintro _ ⟨⟩
      rfl
    simp only [Logged.records, JournalSink.append, List.map_append, JournalWriter.run,
      Machine.run, List.foldl_append]
    rw [hRun]
    rfl
  refine ⟨by decide +kernel, log, hLog, hOffers, ?_⟩
  let calls : List WriterCall := [.append listingRecord 1, .append orderRecord 2, .close]
  have hClose : log.journal.close = stumblingWriter.run calls := by
    rw [hJournal, Logged.records, hOffers]
    generalize stumblingWriter = writer
    rfl
  rw [hClose]
  -- The file holds a prefix of the two records, and is as long as they are.
  have hCareful : Machine.Each JournalWriter.call (fun writer call => ¬ writer.Rewrites call)
      stumblingWriter calls := by decide +kernel
  have hOrderly : Orderly [] (fun _ => []) stumblingWriter := orderly_opened _ stumblingDisk
  obtain ⟨files, hFiles, hRecorded⟩ := (hOrderly.run hCareful).recorded
  have hShape : (stumblingWriter.run calls).disk.files.map
      (fun file => (file.name, file.contents.length)) =
        [(segmentName 1, (encodeAll [listingRecord, orderRecord]).length)] := by decide +kernel
  rw [hFiles, List.nil_append] at hShape
  obtain ⟨file, rfl, hFile⟩ := List.map_eq_singleton_iff.mp hShape
  obtain ⟨hName, hLength⟩ := Prod.mk.inj hFile
  have hTaken : stumblingWriter.appendedTo file.name calls = [listingRecord, orderRecord] := by
    rw [hName]
    decide +kernel
  have hWritten := hRecorded.written file (List.mem_singleton_self file)
  rw [List.nil_append, hTaken] at hWritten
  have hListing : (stumblingWriter.run calls).disk.listing =
      [] ++ segmentFiles [encodeAll [listingRecord, orderRecord]] := by
    rw [Disk.listing, hFiles, ← hWritten.eq_of_length hLength]
    show [(file.name, file.contents)] = _
    rw [hName]
    rfl
  obtain ⟨hContents, hReadable⟩ :=
    contents_segments (List.forall_mem_nil _) (by decide) hListing
  change _ = [[listingRecord, orderRecord]].map encodeAll at hContents
  have hConsecutive : Consecutive 1 [[listingRecord, orderRecord]].flatten :=
    ⟨rfl, rfl, trivial⟩
  obtain ⟨hVisited, -⟩ :=
    read_encoded (by decide +kernel) hReadable hContents (by decide +kernel) hConsecutive
  rw [hVisited]
  simp

/-- A disk that takes one write and ten bytes, with an interruption, and is full after that. -/
def fullDisk : Disk where
  writes :=
    { coming := [.transferred 100, .interrupted, .transferred 10]
      after := .failed "No space left on device" }

/-- An engine that has listed an instrument on it. -/
def fullEngine : MatchingEngine (Logged JournalWriter) :=
  (MatchingEngine.start (some
    { journal :=
        ({ config := { directory := [], durability := .always }, disk := fullDisk } :
          JournalWriter).openJournal.1 }) none none).run
    [.addInstrument (sampleListing .cancelIncoming) 1]

theorem refused_not_recovered_sample :
    let reply := fullEngine.submit (sampleNewOrder 1 1 .buy 1 5 false) 2
    reply.2.result.reject = .halted ∧ ∃ log ∈ reply.1.journal, ⟨orderRecord, false⟩ ∈ log.offers ∧
      orderRecord.written ∉ (read log.journal.close.directory 1).visited := by
  intro reply
  have hDisk : fullDisk.OnlyWritesFail := ⟨by decide, by decide, trivial⟩
  obtain ⟨log, hLog, hRoom, hMem, hFits⟩ : ∃ log ∈ reply.1.journal,
      log.journal.segmentIndex < kMaxSegmentIndex ∧ ⟨orderRecord, false⟩ ∈ log.offers ∧
        ∀ record ∈ log.records, record.Fits := by decide +kernel
  exact ⟨by decide +kernel, log, hLog, hMem, refused_not_recovered _ fullDisk hDisk (by decide)
    (by decide +kernel) none none [.addInstrument (sampleListing .cancelIncoming) 1,
      .submit (sampleNewOrder 1 1 .buy 1 5 false) 2] log hLog hRoom hFits orderRecord hMem⟩

end ExchangeCore
