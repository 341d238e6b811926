import ExchangeCore.Journal.Reader

/-!
# Reading back what was written

Segments of encoded records with consecutive numbers are read one after the other
and every record is visited (`foldlM_encoded`).  If the last segment breaks off,
the records that are complete in it are still visited, and nothing else is
(`read_cut`).
-/

namespace ExchangeCore

open List

theorem consecutive_append {first : Nat} {before after : List Record} :
    Consecutive first (before ++ after) ↔
      Consecutive first before ∧ Consecutive (nextSequence^[before.length] first) after := by
  induction before generalizing first with
  | nil => simp [Consecutive]
  | cons record before ih =>
    rw [cons_append, Consecutive, Consecutive, ih, length_cons,
      Function.iterate_succ_apply, and_assoc]

/-- The beginning of encoded records: some of them whole, then perhaps the
beginning of one. -/
theorem exists_kept {bytes missing : List UInt8} {records : List Record}
    (hPrefix : encodeAll records = bytes ++ missing) :
    ∃ kept rest torn, records = kept ++ rest ∧ bytes = encodeAll kept ++ torn ∧
      (torn = [] ∨ torn ≠ [] ∧ ∃ record rest' lost, rest = record :: rest' ∧ lost ≠ [] ∧
        encode record = torn ++ lost) := by
  induction records generalizing bytes with
  | nil =>
    obtain ⟨rfl, -⟩ := append_eq_nil_iff.mp hPrefix.symm
    exact ⟨[], [], [], rfl, rfl, Or.inl rfl⟩
  | cons record records ih =>
    rw [encodeAll_cons] at hPrefix
    rcases append_eq_append_iff.mp hPrefix with ⟨more, hBytes, hMore⟩ | ⟨lost, hLost, -⟩
    · obtain ⟨kept, rest, torn, hRecords, hKept, hTorn⟩ := ih hMore
      refine ⟨record :: kept, rest, torn, by rw [hRecords]; rfl, ?_, hTorn⟩
      rw [hBytes, hKept, encodeAll_cons, append_assoc]
    by_cases hWhole : lost = []
    · refine ⟨[record], records, [], rfl, ?_, Or.inl rfl⟩
      rw [hWhole, append_nil] at hLost
      rw [← hLost]
      simp [encodeAll]
    refine ⟨[], record :: records, bytes, rfl, rfl, ?_⟩
    by_cases hNone : bytes = []
    · exact Or.inl hNone
    · exact Or.inr ⟨hNone, record, records, lost, rfl, hWhole, hLost⟩

section Reading

variable (directory : JournalDirectory)

namespace Recovery

variable (state : Recovery) (records : List Record)

theorem expected_visitAll :
    (state.visitAll records).expected = nextSequence^[records.length] state.expected := by
  induction records generalizing state with
  | nil => rfl
  | cons record records ih =>
    show ((state.visitWritten record).visitAll records).expected = _
    rw [ih, length_cons, Function.iterate_succ_apply]
    rfl

theorem outcome_visitAll : (state.visitAll records).report.outcome = state.report.outcome := by
  induction records generalizing state with
  | nil => rfl
  | cons record records ih => exact ih (state.visitWritten record)

end Recovery

/-- The reading has come through some records. -/
structure Visited (state : Recovery) (records : List Record) (state' : Recovery) : Prop where
  visited : state'.visited = state.visited ++ records.map Record.written
  expected : state'.expected = nextSequence^[records.length] state.expected
  outcome : state'.report.outcome = state.report.outcome

variable {records : List Record} {state : Recovery} {file : File} {chunks : List (List Record)}

theorem Visited.trans {a b c : Recovery} {records' : List Record}
    (hFirst : Visited a records b) (hSecond : Visited b records' c) :
    Visited a (records ++ records') c where
  visited := by rw [hSecond.visited, hFirst.visited, map_append, append_assoc]
  expected := by
    rw [hSecond.expected, hFirst.expected, length_append, Nat.add_comm,
      Function.iterate_add_apply]
  outcome := hSecond.outcome.trans hFirst.outcome

/-- The recovery as it takes up another segment. -/
def Recovery.nextSegment (state : Recovery) : Recovery :=
  { state with report := { state.report with segmentsRead := state.report.segmentsRead + 1 } }

/-- Whole records at the beginning of a segment are visited. -/
theorem readSegment_kept {kept : List Record} {torn : List UInt8} (hReadable : file.readable = true)
    (hContents : file.contents = encodeAll kept ++ torn) (hFits : ∀ record ∈ kept, record.Fits)
    (hConsecutive : Consecutive state.expected kept) :
    ∃ left, torn.length ≤ left ∧ Visited state kept (state.nextSegment.visitAll kept) ∧
      readSegment directory state file =
        readRecords (directory.pathOf file.name) left torn (0 + (encodeAll kept).length)
          (state.nextSegment.visitAll kept) := by
  obtain ⟨left, hLeft, hRead⟩ := readRecords_encoded (directory.pathOf file.name) 0
    state.nextSegment hFits hConsecutive (le_refl (encodeAll kept ++ torn).length)
  refine ⟨left, hLeft, ?_, ?_⟩
  · exact ⟨Recovery.visited_visitAll _ _, Recovery.expected_visitAll _ _,
      Recovery.outcome_visitAll _ _⟩
  · rw [← hRead, ← hContents]
    unfold readSegment
    rw [if_neg (by simp [hReadable])]
    rfl

theorem readSegment_encoded
    (hReadable : file.readable = true) (hContents : file.contents = encodeAll records)
    (hFits : ∀ record ∈ records, record.Fits) (hConsecutive : Consecutive state.expected records) :
    ∃ state', readSegment directory state file = .ok state' ∧ Visited state records state' := by
  rw [← append_nil (encodeAll records)] at hContents
  obtain ⟨left, -, hVisited, hRead⟩ :=
    readSegment_kept directory hReadable hContents hFits hConsecutive
  refine ⟨_, ?_, hVisited⟩
  rw [hRead]
  cases left <;> rfl

/-- A segment that breaks off is read up to the record that is not all there. -/
theorem readSegment_cut {missing : List UInt8} (hReadable : file.readable = true)
    (hContents : encodeAll records = file.contents ++ missing)
    (hFits : ∀ record ∈ records, record.Fits) (hConsecutive : Consecutive state.expected records) :
    ∃ kept rest torn state', records = kept ++ rest ∧ file.contents = encodeAll kept ++ torn ∧
      (readSegment directory state file = .ok state' ∨
        readSegment directory state file = .error state') ∧
      state'.visited = state.visited ++ kept.map Record.written := by
  obtain ⟨kept, rest, torn, hRecords, hKept, hTorn⟩ := exists_kept hContents
  rw [hRecords] at hFits hConsecutive
  obtain ⟨left, hLeft, hVisited, hRead⟩ := readSegment_kept directory hReadable hKept
    (fun record hRecord => hFits record (mem_append_left _ hRecord))
    (consecutive_append.mp hConsecutive).1
  rcases hTorn with rfl | ⟨hNone, record, rest', lost, rfl, hLost, hEncode⟩
  · refine ⟨kept, rest, [], _, hRecords, hKept, Or.inl ?_, hVisited.visited⟩
    rw [hRead]
    cases left <;> rfl
  have hStatus := decode_cut (hFits record (by simp)) hLost hEncode
  have hStopped := hRead.trans (readRecords_stopped hNone hLeft (by rw [hStatus]; decide))
  exact ⟨kept, record :: rest', torn, _, hRecords, hKept, Or.inr hStopped, hVisited.visited⟩

/-- Whole segments are read to the end. -/
theorem foldlM_encoded (state : Recovery) {files : List File}
    (hReadable : ∀ file ∈ files, file.readable = true)
    (hContents : files.map File.contents = chunks.map encodeAll)
    (hFits : ∀ record ∈ chunks.flatten, record.Fits)
    (hConsecutive : Consecutive state.expected chunks.flatten) :
    ∃ state', files.foldlM (readSegment directory) state = .ok state' ∧
      Visited state chunks.flatten state' := by
  induction files generalizing chunks state with
  | nil =>
    obtain rfl : chunks = [] := map_eq_nil_iff.mp hContents.symm
    exact ⟨state, rfl, (append_nil _).symm, rfl, rfl⟩
  | cons file files ih =>
    cases chunks with
    | nil => cases hContents
    | cons records chunks =>
      obtain ⟨hFile, hFiles⟩ := List.cons.inj hContents
      rw [flatten_cons] at hFits hConsecutive ⊢
      obtain ⟨hFirst, hRest⟩ := consecutive_append.mp hConsecutive
      obtain ⟨state', hRead, hVisited⟩ := readSegment_encoded directory
        (hReadable file (by simp)) hFile
        (fun record hRecord => hFits record (mem_append_left _ hRecord)) hFirst
      rw [← hVisited.expected] at hRest
      obtain ⟨state'', hReadRest, hVisitedRest⟩ := ih state'
        (fun other hOther => hReadable other (mem_cons_of_mem file hOther)) hFiles
        (fun record hRecord => hFits record (mem_append_right _ hRecord)) hRest
      refine ⟨state'', ?_, hVisited.trans hVisitedRest⟩
      rw [foldlM_cons, hRead]
      exact hReadRest

variable {directory}

variable (hDirectory : directory.isDirectory = true)
  (hReadable : ∀ file ∈ directory.segments, file.readable = true)
include hDirectory hReadable

/-- A journal of whole segments is read to the end, without complaint. -/
theorem read_encoded
    (hContents : directory.segments.map File.contents = chunks.map encodeAll) {first : Nat}
    (hFits : ∀ record ∈ chunks.flatten, record.Fits)
    (hConsecutive : Consecutive first chunks.flatten) :
    (read directory first).visited = chunks.flatten.map Record.written ∧
      (read directory first).report.outcome = .clean := by
  obtain ⟨state, hRead, hVisited⟩ :=
    foldlM_encoded directory { expected := first } hReadable hContents hFits hConsecutive
  unfold read
  rw [if_neg (by simp [hDirectory]), hRead]
  exact ⟨hVisited.visited, hVisited.outcome⟩

/-- A journal whose last segment breaks off is read up to there. -/
theorem read_cut
    {finished : List (List Record)} {current : List Record} {written missing : List UInt8}
    (hSegments : directory.segments.map File.contents = finished.map encodeAll ++ [written])
    (hWritten : encodeAll current = written ++ missing) {first : Nat}
    (hFits : ∀ record ∈ finished.flatten ++ current, record.Fits)
    (hConsecutive : Consecutive first (finished.flatten ++ current)) :
    ∃ kept rest torn, current = kept ++ rest ∧ written = encodeAll kept ++ torn ∧
      (read directory first).visited = (finished.flatten ++ kept).map Record.written := by
  obtain ⟨files, last, hFiles, hFinished, hLast⟩ := map_eq_append_iff.mp hSegments
  obtain ⟨file, rest, rfl, hFile, hRest⟩ := map_eq_cons_iff.mp hLast
  obtain rfl : rest = [] := map_eq_nil_iff.mp hRest
  rw [hFiles] at hReadable
  obtain ⟨hFirst, hSecond⟩ := consecutive_append.mp hConsecutive
  obtain ⟨state, hRead, hVisited⟩ := foldlM_encoded directory { expected := first }
    (fun other hOther => hReadable other (mem_append_left _ hOther)) hFinished
    (fun record hRecord => hFits record (mem_append_left _ hRecord)) hFirst
  rw [show first = ({ expected := first : Recovery }).expected from rfl, ← hVisited.expected]
    at hSecond
  obtain ⟨kept, rest, torn, state', hKept, hTorn, hEnd, hLastVisited⟩ :=
    readSegment_cut directory (hReadable file (by simp)) (hFile ▸ hWritten)
      (fun record hRecord => hFits record (mem_append_right _ hRecord)) hSecond
  refine ⟨kept, rest, torn, hKept, hFile ▸ hTorn, ?_⟩
  have hAll : directory.segments.foldlM (readSegment directory) { expected := first } =
      readSegment directory state file := by
    rw [hFiles, foldlM_append, hRead]
    change [file].foldlM (readSegment directory) state = _
    rw [foldlM_cons]
    cases readSegment directory state file <;> rfl
  have hResult : read directory first = state' := by
    unfold read
    rw [if_neg (by simp [hDirectory]), hAll]
    rcases hEnd with hOk | hError
    · rw [hOk]
    · rw [hError]
  rw [hResult, hLastVisited, hVisited.visited, map_append]
  rfl

end Reading

end ExchangeCore
