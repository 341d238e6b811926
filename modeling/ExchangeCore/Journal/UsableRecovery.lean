import ExchangeCore.Journal.GoodPrefix

/-!
# What a usable recovery has read

Reading goes through the segments in order.  It comes to the end of a segment, or
it stops there and returns; nothing after the segment where it stops is looked
at.  A stop at an incomplete record is a torn tail and counts as usable, in
whichever segment it is.

So a usable recovery has read everything up to a final torn record exactly when the
first segment that breaks off in a record, if there is one, is the last of all
(`usable_reads_all_iff`).
-/

namespace ExchangeCore

/-- What the records of a segment come to. -/
inductive SegmentEnd
  /-- To the end of the segment; the next record should carry this number. -/
  | whole (next : Nat)
  /-- To a record that is not all there. -/
  | torn
  /-- To something else. -/
  | broken
  deriving DecidableEq

/-- Decode record after record, the first of which should carry a given number. -/
def segmentEnd : Nat → Nat → List UInt8 → SegmentEnd
  | 0, expected, _ => .whole expected
  | fuel + 1, expected, bytes =>
    if bytes.isEmpty then .whole expected
    else if (decode bytes).status = .ok then
      if (decode bytes).record.sequence = expected then
        segmentEnd fuel (nextSequence expected) (bytes.drop (decode bytes).consumed)
      else .broken
    else if (decode bytes).status = .incomplete then .torn
    else .broken

/-- The first of the segments that does not come to its end breaks off in a record
and is not the last one. -/
def TornEarly : Nat → List File → Prop
  | _, [] => False
  | expected, file :: files =>
    file.readable = true ∧
      match segmentEnd file.contents.length expected file.contents with
      | .whole next => TornEarly next files
      | .torn => files ≠ []
      | .broken => False

instance decidableTornEarly : ∀ expected files, Decidable (TornEarly expected files)
  | _, [] => isFalse id
  | expected, file :: files => by
    unfold TornEarly
    have := fun next => decidableTornEarly next files
    cases segmentEnd file.contents.length expected file.contents <;> infer_instance

/-- Reading the records of a segment comes to its end or stops where its records do, and
opens no other segment. -/
theorem readRecords_ends (path : List Char) (fuel : Nat) (bytes : List UInt8) (offset : Nat)
    (state : Recovery) :
    match readRecords path fuel bytes offset state with
    | .ok state' => segmentEnd fuel state.expected bytes = .whole state'.expected ∧
        state'.report.segmentsRead = state.report.segmentsRead
    | .error state' => segmentEnd fuel state.expected bytes =
          (if state'.report.outcome = .tornTail then .torn else .broken) ∧
        state'.report.segmentsRead = state.report.segmentsRead := by
  induction fuel generalizing bytes offset state with
  | zero => exact ⟨rfl, rfl⟩
  | succ fuel ih =>
    rw [segmentEnd, readRecords]
    dsimp only
    by_cases hEmpty : bytes.isEmpty = true
    · rw [if_pos hEmpty, if_pos hEmpty]
      exact ⟨rfl, rfl⟩
    rw [if_neg hEmpty, if_neg hEmpty]
    by_cases hOk : (decode bytes).status = .ok
    · rw [if_pos hOk, if_pos hOk]
      by_cases hNumber : (decode bytes).record.sequence = state.expected
      · rw [if_pos hNumber, if_neg (not_not.mpr hNumber)]
        exact ih _ _ (state.visit (decode bytes))
      · rw [if_neg hNumber, if_pos hNumber]
        exact ⟨rfl, rfl⟩
    · rw [if_neg hOk, if_neg hOk]
      refine ⟨?_, rfl⟩
      simp only [Recovery.stop]
      split <;> rfl

/-! ## Whole directories -/

section Directory

variable {directory : JournalDirectory}

/-- Reading on through some segments comes to the end of all of them, or stops in
one and leaves the rest. -/
theorem foldlM_readSegment (files : List File) (state : Recovery)
    (hClean : state.report.outcome = .clean) :
    (∃ state', files.foldlM (readSegment directory) state = .ok state' ∧
        ¬ TornEarly state.expected files ∧ state'.report.outcome = .clean ∧
        state'.report.segmentsRead = state.report.segmentsRead + files.length ∧
        state'.report.bytesRecovered = state.report.bytesRecovered +
          (files.map fun file => file.contents.length).sum) ∨
      ∃ state' before file after, files.foldlM (readSegment directory) state = .error state' ∧
        files = before ++ file :: after ∧ state'.report.outcome ≠ .clean ∧
        (TornEarly state.expected files ↔ state'.report.outcome = .tornTail ∧ after ≠ []) ∧
        (state'.report.outcome = .tornTail →
          state'.report.segmentsRead = state.report.segmentsRead + before.length + 1 ∧
          state'.report.damagedSegment = directory.pathOf file.name ∧
          state'.report.bytesRecovered = state.report.bytesRecovered +
            (before.map fun file => file.contents.length).sum +
            state'.report.goodBytesInDamagedSegment) := by
  induction files generalizing state with
  | nil => exact Or.inl ⟨state, rfl, id, hClean, rfl, rfl⟩
  | cons file files ih =>
    rw [List.foldlM_cons, TornEarly]
    cases hReadable : file.readable with
    | false =>
      rw [readSegment, hReadable]
      exact Or.inr ⟨_, [], file, files, rfl, rfl, nofun, ⟨nofun, nofun⟩, nofun⟩
    | true =>
      rw [readSegment_readable hReadable]
      have hEnds := readRecords_ends (directory.pathOf file.name) file.contents.length
        file.contents 0 state.nextSegment
      cases hRead : readRecords (directory.pathOf file.name) file.contents.length file.contents 0
        state.nextSegment with
      | error state' =>
        rw [hRead] at hEnds
        obtain ⟨hEnd, hSegments⟩ : segmentEnd file.contents.length state.expected file.contents =
          _ ∧ _ := hEnds
        obtain ⟨good, rest, -, -, hPath, hStops, hGood, hBytes⟩ := readRecords_broken_off hRead
        rw [← Nat.zero_add (encodeAll good).length, ← hGood] at hBytes
        refine Or.inr ⟨state', [], file, files, rfl, rfl, hStops.ne_clean, ?_,
          fun _ => ⟨hSegments, hPath, hBytes⟩⟩
        rw [hEnd]
        by_cases hTorn : state'.report.outcome = .tornTail <;> simp [hTorn]
      | ok next =>
        rw [hRead] at hEnds
        obtain ⟨hEnd, hSegments⟩ : segmentEnd file.contents.length state.expected file.contents =
          _ ∧ next.report.segmentsRead = state.report.segmentsRead + 1 := hEnds
        obtain ⟨records, -, -, -, hOutcome, hBytes⟩ := readRecords_whole le_rfl hRead
        have hRecovered : next.report.bytesRecovered =
          state.report.bytesRecovered + file.contents.length := hBytes
        rw [hEnd, and_iff_right rfl]
        rcases ih next (hOutcome.trans hClean) with ⟨last, hRest, hNot, hLast, hCount, hTotal⟩ |
          ⟨last, before, stopped, after, hRest, hSplit, hLast, hIff, hTorn⟩
        · refine Or.inl ⟨last, hRest, hNot, hLast, ?_, ?_⟩
          · rw [hCount, hSegments, List.length_cons]
            omega
          · rw [hTotal, hRecovered, List.map_cons, List.sum_cons]
            omega
        · refine Or.inr ⟨last, file :: before, stopped, after, hRest, by rw [hSplit]; rfl, hLast,
            hIff, fun h => ?_⟩
          obtain ⟨hCount, hPath, hTotal⟩ := hTorn h
          refine ⟨?_, hPath, ?_⟩
          · rw [hCount, hSegments, List.length_cons]
            omega
          · rw [hTotal, hRecovered, List.map_cons, List.sum_cons]
            omega

/-- The report of a recovery that has read every segment to its end, or all but a
torn record at the end of the last one. -/
def ReadsAll (directory : JournalDirectory) (report : RecoveryReport) : Prop :=
  report.segmentsRead = directory.segments.length ∧
    (report.outcome = .clean → report.bytesRecovered =
      (directory.segments.map fun file => file.contents.length).sum) ∧
    (report.outcome = .tornTail → ∃ file, directory.segments.getLast? = some file ∧
      report.damagedSegment = directory.pathOf file.name ∧ report.bytesRecovered =
        (directory.segments.dropLast.map fun file => file.contents.length).sum +
          report.goodBytesInDamagedSegment)

/-- For every directory: if the recovery is usable it has read everything, exactly
when no segment breaks off with another one after it. -/
theorem usable_reads_all_iff (directory : JournalDirectory) (first : Nat) :
    ((read directory first).report.usable = true →
        ReadsAll directory (read directory first).report) ↔
      ¬ (directory.isDirectory = true ∧ TornEarly first directory.segments) := by
  obtain ⟨result, hResult⟩ : ∃ result, read directory first = result := ⟨_, rfl⟩
  rw [hResult]
  unfold read at hResult
  split at hResult
  · next hNone =>
      rw [← hResult]
      refine iff_of_true nofun fun h => ?_
      rw [h.1] at hNone
      cases hNone
  next hDirectory =>
  rcases foldlM_readSegment directory.segments { expected := first } rfl with
    ⟨state, hRead, hNot, hClean, hCount, hBytes⟩ |
      ⟨state, before, file, after, hRead, hSplit, hNotClean, hIff, hTorn⟩
  · rw [hRead] at hResult
    obtain rfl : state = result := hResult
    refine iff_of_true (fun _ => ⟨by simpa using hCount, fun _ => by simpa using hBytes,
      fun h => ?_⟩) fun h => hNot h.2
    rw [hClean] at h
    cases h
  · rw [hRead] at hResult
    obtain rfl : state = result := hResult
    have hUsable : state.report.usable = true ↔ state.report.outcome = .tornTail := by
      simp only [RecoveryReport.usable, Bool.or_eq_true, beq_iff_eq]
      exact or_iff_right hNotClean
    rw [hUsable]
    constructor
    · rintro hAll ⟨-, hEarly⟩
      obtain ⟨hOutcome, hMore⟩ := hIff.mp hEarly
      have hPos := List.length_pos_iff.mpr hMore
      have hLength := (hAll hOutcome).1
      rw [(hTorn hOutcome).1, hSplit, List.length_append, List.length_cons] at hLength
      simp only at hLength
      omega
    · intro hNot hOutcome
      obtain ⟨hCount, hPath, hBytes⟩ := hTorn hOutcome
      -- The reading can only have stopped in the last segment.
      obtain rfl : after = [] := by
        by_contra hMore
        exact hNot ⟨by simpa using hDirectory, hIff.mpr ⟨hOutcome, hMore⟩⟩
      refine ⟨?_, fun h => absurd h hNotClean, fun _ => ⟨file, ?_, hPath, ?_⟩⟩
      · rw [hCount, hSplit]
        simp
      · rw [hSplit]
        simp
      · rw [hBytes, hSplit]
        simp

end Directory

/-- A session that is cut off in its second record, and one after it. -/
def restartedJournal : JournalDirectory where
  path := "journal".toList
  files :=
    [{ name := segmentName 1
       contents := encode (sampleCancel 1) ++ (encode (sampleCancel 2)).take 10 },
      { name := segmentName 2, contents := encode (sampleCancel 2) }]

/-- The recovery is called usable although the second segment has not been looked
at. -/
theorem usable_with_unread_segment :
    (read restartedJournal 1).report.usable = true ∧
      restartedJournal.segments.length = 2 ∧ (read restartedJournal 1).report.segmentsRead = 1 ∧
      (read restartedJournal 1).visited = [sampleCancel 1] ∧
      (decode (encode (sampleCancel 2))).status = .ok ∧
      TornEarly 1 restartedJournal.segments := by
  decide +kernel

end ExchangeCore
