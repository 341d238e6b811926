import ExchangeCore.Journal.Damage

/-!
# What recovery delivers

The segments may hold anything.  Reading visits records that carry the expected
numbers, and written out again they are the bytes up to the point where it stops.
That point is the end of the journal, or an offset in the segment that the report
names as damaged, and what stands there is not the record that is due (`Stops`).

When that is the last segment, cutting it off at the offset leaves a journal of
whole records, which reads to its end (`recovers_good_prefix`).
-/

namespace ExchangeCore

open List

/-! ## Truncating a segment -/

/-- `truncate`: the first bytes of a file, filled up with zeros if there are too
few. -/
def resize (contents : List UInt8) (bytes : Nat) : List UInt8 :=
  contents.take bytes ++ List.replicate (bytes - contents.length) 0

namespace JournalDirectory

def resizeFile (directory : JournalDirectory) (segment : List Char) (bytes : Nat) (file : File) :
    File :=
  if directory.pathOf file.name = segment then
    { file with contents := resize file.contents bytes }
  else file

/-- `JournalReader::truncate_to`. -/
def truncateTo (directory : JournalDirectory) (segment : List Char) (bytes : Nat) :
    Except String JournalDirectory :=
  if directory.files.any fun file => directory.pathOf file.name == segment then
    .ok { directory with files := directory.files.map (directory.resizeFile segment bytes) }
  else .error ("truncate " ++ String.ofList segment ++ ": No such file or directory")

section Segments

variable (directory : JournalDirectory)

theorem name_resizeFile (segment : List Char) (bytes : Nat) (file : File) :
    (directory.resizeFile segment bytes file).name = file.name := by
  unfold resizeFile
  split <;> rfl

theorem pathOf_injective {name name' : List Char}
    (hPath : directory.pathOf name = directory.pathOf name') : name = name' :=
  (List.cons.inj (append_cancel_left hPath)).2

/-- Changing contents does not change which files are segments, nor their order. -/
theorem segments_map_files {change : File → File} (hName : ∀ file, (change file).name = file.name) :
    ({ directory with files := directory.files.map change } : JournalDirectory).segments =
      directory.segments.map change := by
  have hFound : ({ directory with files := directory.files.map change } : JournalDirectory).found =
      directory.found.map fun entry => (entry.1, change entry.2) := by
    unfold found
    rw [map_insertionSort _ (fun a b : Nat × File => a.1 ≤ b.1) _ _ fun _ _ _ _ => Iff.rfl,
      filterMap_map, map_filterMap]
    refine congrArg (List.insertionSort _) (filterMap_congr fun file _ => ?_)
    dsimp only [Function.comp]
    rw [hName, Option.map_map]
    rfl
  rw [segments, hFound, map_map, segments, map_map]
  rfl

theorem segments_perm :
    directory.segments.Perm
      (directory.files.filter fun file => (parseSegmentName file.name).isSome) := by
  have hSorted := (perm_insertionSort (fun a b : Nat × File => a.1 ≤ b.1)
    (directory.files.filterMap fun file =>
      (parseSegmentName file.name).map fun index => (index, file))).map Prod.snd
  refine hSorted.trans (List.Perm.of_eq ?_)
  rw [map_filterMap]
  induction directory.files with
  | nil => rfl
  | cons file files ih =>
    rw [filterMap_cons, filter_cons, ih]
    cases parseSegmentName file.name <;> rfl

theorem nodup_segments (hNames : (directory.files.map File.name).Nodup) :
    (directory.segments.map File.name).Nodup :=
  (directory.segments_perm.map File.name).nodup_iff.mpr
    (hNames.sublist (filter_sublist.map File.name))

theorem mem_files_of_mem_segments {file : File} (hFile : file ∈ directory.segments) :
    file ∈ directory.files :=
  (mem_filter.mp (directory.segments_perm.subset hFile)).1

/-- Truncating the last segment changes nothing but the last segment. -/
theorem truncateTo_last (hNames : (directory.files.map File.name).Nodup) {before : List File}
    {file : File} (hLast : directory.segments = before ++ [file]) {bytes : Nat}
    (hBytes : bytes ≤ file.contents.length) :
    ∃ truncated, directory.truncateTo (directory.pathOf file.name) bytes = .ok truncated ∧
      truncated.isDirectory = directory.isDirectory ∧
      truncated.segments = before ++ [{ file with contents := file.contents.take bytes }] := by
  have hMem : file ∈ directory.files :=
    directory.mem_files_of_mem_segments (by rw [hLast]; simp)
  have hThere : (directory.files.any fun other =>
      directory.pathOf other.name == directory.pathOf file.name) = true :=
    any_eq_true.mpr ⟨file, hMem, beq_self_eq_true _⟩
  refine ⟨_, if_pos hThere, rfl, ?_⟩
  rw [segments_map_files directory fun other => name_resizeFile directory _ _ other, hLast,
    map_append, map_singleton]
  have hOthers : before.map (directory.resizeFile (directory.pathOf file.name) bytes) = before := by
    refine (map_congr_left fun other hOther => ?_).trans (map_id before)
    refine if_neg fun hPath => ?_
    -- Two segments have different names.
    have hDistinct := directory.nodup_segments hNames
    rw [hLast, map_append, nodup_append] at hDistinct
    exact hDistinct.2.2 other.name (mem_map_of_mem hOther) file.name (by simp)
      (directory.pathOf_injective hPath)
  have hCut : directory.resizeFile (directory.pathOf file.name) bytes file =
      { file with contents := file.contents.take bytes } := by
    rw [resizeFile, if_pos rfl, resize, Nat.sub_eq_zero_of_le hBytes, replicate_zero,
      append_nil]
  rw [hOthers, hCut]

end Segments

end JournalDirectory

/-! ## Reading bytes of any origin -/

/-- A recovery that has gone on to visit some records. -/
structure Visiting (state : Recovery) (records : List Record) (state' : Recovery) : Prop where
  visited : state'.visited = state.visited ++ records
  plain : ∀ record ∈ records, record.Plain
  consecutive : Consecutive state.expected records

theorem Visiting.trans {a b c : Recovery} {records records' : List Record}
    (hFirst : Visiting a records b) (hNext : b.expected = nextSequence^[records.length] a.expected)
    (hSecond : Visiting b records' c) : Visiting a (records ++ records') c where
  visited := by rw [hSecond.visited, hFirst.visited, append_assoc]
  plain := fun record hRecord => (mem_append.mp hRecord).elim (hFirst.plain record)
    (hSecond.plain record)
  consecutive := consecutive_append.mpr ⟨hFirst.consecutive, hNext ▸ hSecond.consecutive⟩

theorem visiting_nil (state : Recovery) : Visiting state [] state :=
  ⟨(append_nil _).symm, fun _ hNone => absurd hNone not_mem_nil, trivial⟩

/-- One more record in front of those that are visited afterwards. -/
theorem Visiting.cons {state state' : Recovery} {bytes : List UInt8}
    (hOk : (decode bytes).status = .ok)
    (hNumber : (decode bytes).record.sequence = state.expected) {records : List Record}
    (hRest : Visiting (state.visit (decode bytes)) records state') :
    Visiting state ((decode bytes).record :: records) state' where
  visited := by
    rw [hRest.visited, Recovery.visit, append_assoc]
    rfl
  plain := by
    rintro record (_ | ⟨_, hRecord⟩)
    · exact (decode_plain hOk).1
    · exact hRest.plain record hRecord
  consecutive := ⟨hNumber, hRest.consecutive⟩

/-- Why a reading goes no further than some bytes, and how it is reported. -/
inductive Stops (due : Nat) (rest : List UInt8) : RecoveryOutcome → Prop
  | gap (hMore : rest ≠ []) (hOk : (decode rest).status = .ok)
      (hNumber : (decode rest).record.sequence ≠ due) : Stops due rest .sequenceGap
  | torn (hMore : rest ≠ []) (hStatus : (decode rest).status = .incomplete) :
      Stops due rest .tornTail
  | broken (hMore : rest ≠ []) (hBad : (decode rest).status ≠ .ok)
      (hWhole : (decode rest).status ≠ .incomplete) : Stops due rest .damaged

theorem Stops.ne_clean {due : Nat} {rest : List UInt8} {outcome : RecoveryOutcome}
    (hStops : Stops due rest outcome) : outcome ≠ .clean := by
  cases hStops <;> exact nofun

section Segment

variable {path : List Char} {fuel offset : Nat} {bytes : List UInt8} {state state' : Recovery}

/-- A segment that is read to its end holds the records that were visited. -/
theorem readRecords_whole (hFuel : bytes.length ≤ fuel)
    (hRead : readRecords path fuel bytes offset state = .ok state') :
    ∃ records, Visiting state records state' ∧ bytes = encodeAll records ∧
      state'.expected = nextSequence^[records.length] state.expected ∧
      state'.report.outcome = state.report.outcome ∧
      state'.report.bytesRecovered = state.report.bytesRecovered + bytes.length := by
  induction fuel generalizing bytes offset state with
  | zero =>
    obtain rfl : bytes = [] := length_eq_zero_iff.mp (Nat.le_zero.mp hFuel)
    obtain rfl : state = state' := Except.ok.inj hRead
    exact ⟨[], visiting_nil state, rfl, rfl, rfl, rfl⟩
  | succ fuel ih =>
    rw [readRecords] at hRead
    dsimp only at hRead
    split at hRead
    · next hEmpty =>
        obtain rfl : state = state' := Except.ok.inj hRead
        obtain rfl := isEmpty_iff.mp hEmpty
        exact ⟨[], visiting_nil state, rfl, rfl, rfl, rfl⟩
    split at hRead
    · next hOk =>
        split at hRead
        · cases hRead
        next hNumber =>
        obtain ⟨-, hConsumed, hBytes⟩ := decode_plain hOk
        have hPos := length_encode_pos (decode bytes).record
        have hLength := congrArg List.length hBytes
        rw [length_append, length_drop] at hLength
        obtain ⟨records, hRest, hRecords, hExpected, hOutcome, hRecovered⟩ :=
          ih (by rw [length_drop]; omega) hRead
        refine ⟨(decode bytes).record :: records, hRest.cons hOk (not_not.mp hNumber), ?_, ?_,
          hOutcome, ?_⟩
        · rw [encodeAll_cons, ← hRecords]
          exact hBytes
        · rw [length_cons, Function.iterate_succ_apply]
          exact hExpected
        · rw [hRecovered, length_drop]
          simp only [Recovery.visit]
          omega
    · cases hRead

/-- A segment where the reading stops begins with the records that were visited, and
the report says how far they go. -/
theorem readRecords_broken_off (hRead : readRecords path fuel bytes offset state = .error state') :
    ∃ records rest, Visiting state records state' ∧ bytes = encodeAll records ++ rest ∧
      state'.report.damagedSegment = path ∧
      Stops (nextSequence^[records.length] state.expected) rest state'.report.outcome ∧
      state'.report.goodBytesInDamagedSegment = offset + (encodeAll records).length ∧
      state'.report.bytesRecovered =
        state.report.bytesRecovered + (encodeAll records).length := by
  induction fuel generalizing bytes offset state with
  | zero => cases hRead
  | succ fuel ih =>
    rw [readRecords] at hRead
    dsimp only at hRead
    split at hRead
    · cases hRead
    next hMore =>
    rw [List.isEmpty_iff] at hMore
    split at hRead
    · next hOk =>
        split at hRead
        · next hNumber =>
            obtain rfl := Except.error.inj hRead
            have hNone := visiting_nil state
            exact ⟨[], bytes, ⟨hNone.visited, hNone.plain, hNone.consecutive⟩, rfl, rfl,
              .gap hMore hOk hNumber, rfl, rfl⟩
        next hNumber =>
        obtain ⟨-, hConsumed, hBytes⟩ := decode_plain hOk
        obtain ⟨records, rest, hRest, hRecords, hPath, hStops, hGood, hRecovered⟩ := ih hRead
        refine ⟨(decode bytes).record :: records, rest, hRest.cons hOk (not_not.mp hNumber), ?_,
          hPath, hStops, ?_, ?_⟩
        · rw [encodeAll_cons, List.append_assoc, ← hRecords]
          exact hBytes
        · rw [hGood, encodeAll_cons, List.length_append, ← hConsumed, Nat.add_assoc]
        · rw [hRecovered, encodeAll_cons, List.length_append, ← hConsumed, ← Nat.add_assoc]
          rfl
    · next hBad =>
        obtain rfl := Except.error.inj hRead
        have hNone := visiting_nil state
        refine ⟨[], bytes, ⟨hNone.visited, hNone.plain, hNone.consecutive⟩, rfl, rfl, ?_, rfl,
          rfl⟩
        simp only [Recovery.stop]
        split
        · next hStatus => exact .torn hMore hStatus
        · next hWhole => exact .broken hMore hBad hWhole

end Segment

/-! ## Whole directories -/

section Directory

variable {directory : JournalDirectory}

theorem readSegment_readable {state : Recovery} {file : File} (hReadable : file.readable = true) :
    readSegment directory state file =
      readRecords (directory.pathOf file.name) file.contents.length file.contents 0
        state.nextSegment := by
  unfold readSegment
  rw [if_neg (by simp [hReadable])]
  rfl

/-- Where the reading of some segments ends: behind the last of them, or inside
one. -/
inductive EndsAt (directory : JournalDirectory) (state : Recovery) (files : List File)
    (chunks : List (List Record)) : Except Recovery Recovery → Prop
  | atEnd (state' : Recovery) (hVisiting : Visiting state chunks.flatten state')
      (hContents : files.map File.contents = chunks.map encodeAll)
      (hOutcome : state'.report.outcome = state.report.outcome) :
      EndsAt directory state files chunks (.ok state')
  | inside (state' : Recovery) (before after : List File) (file : File) (good : List Record)
      (rest : List UInt8) (hFiles : files = before ++ file :: after)
      (hVisiting : Visiting state (chunks.flatten ++ good) state')
      (hContents : before.map File.contents = chunks.map encodeAll)
      (hGood : file.contents = encodeAll good ++ rest)
      (hPath : state'.report.damagedSegment = directory.pathOf file.name)
      (hOffset : state'.report.goodBytesInDamagedSegment = (encodeAll good).length)
      (hStops : Stops (nextSequence^[(chunks.flatten ++ good).length] state.expected) rest
        state'.report.outcome) :
      EndsAt directory state files chunks (.error state')

variable {files : List File}

theorem foldlM_endsAt (hReadable : ∀ file ∈ files, file.readable = true) (state : Recovery) :
    ∃ chunks, EndsAt directory state files chunks
      (files.foldlM (readSegment directory) state) := by
  induction files generalizing state with
  | nil => exact ⟨[], .atEnd state (visiting_nil state) rfl rfl⟩
  | cons file files ih =>
    rw [foldlM_cons, readSegment_readable (hReadable file mem_cons_self)]
    cases hRead : readRecords (directory.pathOf file.name) file.contents.length file.contents 0
      state.nextSegment with
    | error state' =>
      obtain ⟨good, rest, hVisiting, hGood, hPath, hStops, hOffset, -⟩ :=
        readRecords_broken_off hRead
      rw [Nat.zero_add] at hOffset
      exact ⟨[], .inside state' [] files file good rest rfl
        ⟨hVisiting.visited, hVisiting.plain, hVisiting.consecutive⟩ rfl hGood hPath hOffset
        hStops⟩
    | ok next =>
      obtain ⟨records, hVisiting, hWhole, hExpected, hOutcome, -⟩ :=
        readRecords_whole le_rfl hRead
      have hFirst : Visiting state records next :=
        ⟨hVisiting.visited, hVisiting.plain, hVisiting.consecutive⟩
      have hNext : next.expected = nextSequence^[records.length] state.expected := hExpected
      obtain ⟨chunks, hEnds⟩ :=
        ih (fun other hOther => hReadable other (mem_cons_of_mem file hOther)) next
      refine ⟨records :: chunks, ?_⟩
      show EndsAt directory state (file :: files) (records :: chunks)
        (files.foldlM (readSegment directory) next)
      generalize files.foldlM (readSegment directory) next = result at hEnds ⊢
      cases hEnds with
      | atEnd last hRest hContents hLast =>
        refine .atEnd last (hFirst.trans hNext hRest) ?_ (hLast.trans hOutcome)
        rw [map_cons, map_cons, hContents, hWhole]
      | inside last before after stopped good rest hFiles hRest hContents hGood hPath hOffset
          hStops =>
          refine .inside last (file :: before) after stopped good rest ?_ ?_ ?_ hGood hPath
            hOffset ?_
          · rw [hFiles]
            rfl
          · rw [flatten_cons, append_assoc]
            exact hFirst.trans hNext hRest
          · rw [map_cons, map_cons, hContents, hWhole]
          · rw [flatten_cons, append_assoc, length_append, Nat.add_comm,
              Function.iterate_add_apply, ← hNext]
            exact hStops

/-- The bytes in front of the point where a recovery stopped, with the record of the number
`due` still to come. -/
inductive BytesBefore (directory : JournalDirectory) (report : RecoveryReport) (due : Nat) :
    List UInt8 → Prop
  | all (hOutcome : report.outcome = .clean) :
      BytesBefore directory report due (directory.segments.flatMap File.contents)
  | damaged (before after : List File) (file : File)
      (hSegments : directory.segments = before ++ file :: after)
      (hPath : report.damagedSegment = directory.pathOf file.name)
      (hOffset : report.goodBytesInDamagedSegment ≤ file.contents.length)
      (hStops : Stops due (file.contents.drop report.goodBytesInDamagedSegment)
        report.outcome) :
      BytesBefore directory report due (before.flatMap File.contents ++
        file.contents.take report.goodBytesInDamagedSegment)

theorem flatMap_contents {chunks : List (List Record)}
    (hContents : files.map File.contents = chunks.map encodeAll) :
    files.flatMap File.contents = encodeAll chunks.flatten := by
  rw [flatMap_def, hContents, ← flatMap_def, encodeAll, flatten_eq_flatMap,
    flatMap_assoc]
  rfl

variable (hDirectory : directory.isDirectory = true)
  (hReadable : ∀ file ∈ directory.segments, file.readable = true) (first : Nat)
include hDirectory hReadable

/-- Reading ends at the end of the journal or inside a segment. -/
theorem read_endsAt :
    ∃ chunks result, EndsAt directory { expected := first } directory.segments chunks result ∧
      read directory first = match result with
        | .ok state => state
        | .error state => state := by
  obtain ⟨chunks, hEnds⟩ := foldlM_endsAt hReadable { expected := first }
  exact ⟨chunks, _, hEnds, if_neg (by simp [hDirectory])⟩

/-- Whatever the segments hold, what is visited carries the expected numbers and is as a
writer would have written it. -/
theorem read_visited :
    Consecutive first (read directory first).visited ∧
      ∀ record ∈ (read directory first).visited, record.Plain := by
  obtain ⟨chunks, result, hEnds, hRead⟩ := read_endsAt hDirectory hReadable first
  rw [hRead]
  cases hEnds with
  | atEnd state hVisiting =>
    have hVisited : state.visited = chunks.flatten := hVisiting.visited
    rw [hVisited]
    exact ⟨hVisiting.consecutive, hVisiting.plain⟩
  | inside state before after file good rest hFiles hVisiting =>
    have hVisited : state.visited = chunks.flatten ++ good := hVisiting.visited
    rw [hVisited]
    exact ⟨hVisiting.consecutive, hVisiting.plain⟩

end Directory

/-- For every directory of readable segments, whatever they hold.  The visited
records carry the expected numbers, and their encodings are the bytes before the
stopping point; unless that is the end of the journal, the record that is due does
not stand there.  If the reading broke off in the last segment, at a record that is
not all there or is damaged, truncating the segment to the reported offset leaves a
journal that reads clean, with the same records. -/
theorem recovers_good_prefix (directory : JournalDirectory)
    (hDirectory : directory.isDirectory = true) (hNames : (directory.files.map File.name).Nodup)
    (hReadable : ∀ file ∈ directory.segments, file.readable = true) (first : Nat) :
    Consecutive first (read directory first).visited ∧
      BytesBefore directory (read directory first).report
        (nextSequence^[(read directory first).visited.length] first)
        (encodeAll (read directory first).visited) ∧
      ∀ file, directory.segments.getLast? = some file →
        (read directory first).report.damagedSegment = directory.pathOf file.name →
        (read directory first).report.outcome = .tornTail ∨
          (read directory first).report.outcome = .damaged →
        ∃ truncated,
          directory.truncateTo (read directory first).report.damagedSegment
            (read directory first).report.goodBytesInDamagedSegment = .ok truncated ∧
          (read truncated first).report.outcome = .clean ∧
          (read truncated first).visited = (read directory first).visited := by
  refine ⟨(read_visited hDirectory hReadable first).1, ?_⟩
  obtain ⟨chunks, result, hEnds, hRead⟩ := read_endsAt hDirectory hReadable first
  rw [hRead]
  cases hEnds with
  | atEnd state hVisiting hContents hOutcome =>
    have hVisited : state.visited = chunks.flatten := hVisiting.visited
    refine ⟨?_, fun file _ _ hBroken => ?_⟩
    · rw [hVisited, ← flatMap_contents hContents]
      exact .all hOutcome
    · dsimp only at hBroken
      rw [hOutcome] at hBroken
      rcases hBroken with hTorn | hDamaged
      · cases hTorn
      · cases hDamaged
  | inside state before after file good rest hFiles hVisiting hContents hGood hPath hOffset
      hStops =>
      have hVisited : state.visited = chunks.flatten ++ good := hVisiting.visited
      have hBound : state.report.goodBytesInDamagedSegment ≤ file.contents.length := by
        rw [hOffset, hGood, List.length_append]
        exact Nat.le_add_right _ _
      have hTake : file.contents.take state.report.goodBytesInDamagedSegment = encodeAll good := by
        rw [hOffset, hGood, List.take_left]
      refine ⟨?_, fun last hLast hSame _ => ?_⟩
      · have hRest : file.contents.drop state.report.goodBytesInDamagedSegment = rest := by
          rw [hOffset, hGood, List.drop_left]
        have hBefore := BytesBefore.damaged before after file hFiles hPath hBound (hRest ▸ hStops)
        rw [hTake, flatMap_contents hContents, ← encodeAll_append] at hBefore
        rw [hVisited]
        exact hBefore
      · -- The damaged segment has the name of the last one, so it is the last one.
        obtain rfl : after = [] := by
          by_contra hMore
          have hDistinct := directory.nodup_segments hNames
          rw [hFiles, List.map_append, List.map_cons, List.nodup_append, List.nodup_cons]
            at hDistinct
          rw [hFiles, List.getLast?_append_of_ne_nil _ (List.cons_ne_nil _ _),
            List.getLast?_cons_of_ne_nil hMore] at hLast
          refine hDistinct.2.1.1 (List.mem_map.mpr ⟨last, List.mem_of_getLast? hLast, ?_⟩)
          exact directory.pathOf_injective (hSame.symm.trans hPath)
        obtain ⟨truncated, hTruncated, hStays, hSegments⟩ :=
          directory.truncateTo_last hNames hFiles hBound
        refine ⟨truncated, ?_, ?_⟩
        · dsimp only
          rw [hPath]
          exact hTruncated
        · rw [hTake] at hSegments
          have hWhole :
              truncated.segments.map File.contents = (chunks ++ [good]).map encodeAll := by
            rw [hSegments, List.map_append, List.map_append, hContents]
            rfl
          have hAll : (chunks ++ [good]).flatten = chunks.flatten ++ good := by simp
          have hReadable' : ∀ other ∈ truncated.segments, other.readable = true := by
            rw [hSegments]
            intro other hOther
            rcases List.mem_append.mp hOther with hOld | hNew
            · exact hReadable other (by rw [hFiles]; exact List.mem_append_left _ hOld)
            · obtain rfl := List.mem_singleton.mp hNew
              exact hReadable file (by rw [hFiles]; simp)
          have hFits : ∀ record ∈ (chunks ++ [good]).flatten, record.Fits := by
            rw [hAll]
            exact fun record hRecord => (hVisiting.plain record hRecord).1
          have hNumbered : Consecutive first (chunks ++ [good]).flatten := by
            rw [hAll]
            exact hVisiting.consecutive
          obtain ⟨hSame, hClean⟩ :=
            read_encoded (hStays.trans hDirectory) hReadable' hWhole hFits hNumbered
          rw [hAll, map_written_of_plain hVisiting.plain] at hSame
          exact ⟨hClean, hSame.trans hVisited.symm⟩

/-- A segment that ends ten bytes into its second record. -/
def tornSegment : File where
  name := segmentName 1
  contents := encode (sampleCancel 5) ++ (encode (sampleCancel 6)).take 10

def tornJournal : JournalDirectory where
  path := "journal".toList
  files := [tornSegment]

theorem recovers_good_prefix_torn :
    (read tornJournal 5).visited = [sampleCancel 5] ∧
      (read tornJournal 5).report.outcome = .tornTail ∧
      (read tornJournal 5).report.goodBytesInDamagedSegment = (encode (sampleCancel 5)).length ∧
      Consecutive 5 (read tornJournal 5).visited ∧
      BytesBefore tornJournal (read tornJournal 5).report
        (nextSequence^[(read tornJournal 5).visited.length] 5)
        (encodeAll (read tornJournal 5).visited) ∧
      ∃ truncated,
        tornJournal.truncateTo (read tornJournal 5).report.damagedSegment
          (read tornJournal 5).report.goodBytesInDamagedSegment = .ok truncated ∧
        (read truncated 5).report.outcome = .clean ∧
        (read truncated 5).visited = (read tornJournal 5).visited := by
  have hSegments : tornJournal.segments = [tornSegment] := by decide +kernel
  have hTorn : (read tornJournal 5).visited = [sampleCancel 5] ∧
      (read tornJournal 5).report.outcome = .tornTail ∧
      (read tornJournal 5).report.goodBytesInDamagedSegment = (encode (sampleCancel 5)).length ∧
      (read tornJournal 5).report.damagedSegment = tornJournal.pathOf tornSegment.name := by
    decide +kernel
  have hReadable : ∀ file ∈ tornJournal.segments, file.readable = true := by
    rw [hSegments]
    exact fun file hFile => (List.mem_singleton.mp hFile) ▸ rfl
  have hGood := recovers_good_prefix tornJournal rfl (List.nodup_singleton _) hReadable 5
  have hLast : tornJournal.segments.getLast? = some tornSegment := by
    rw [hSegments, List.getLast?_singleton]
  -- From here on it does not matter what the recovery is.
  generalize read tornJournal 5 = recovery at hTorn hGood ⊢
  obtain ⟨hVisited, hOutcome, hOffset, hPath⟩ := hTorn
  exact ⟨hVisited, hOutcome, hOffset, hGood.1, hGood.2.1,
    hGood.2.2 tornSegment hLast hPath (Or.inl hOutcome)⟩

end ExchangeCore
