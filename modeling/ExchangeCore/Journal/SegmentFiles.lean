import ExchangeCore.Journal.Writer
import ExchangeCore.Journal.WrittenJournal

/-!
# The files a writer leaves

A writer that starts in a directory without segments numbers its files from one
on, and only the last of them grows.  A reader finds them in that order and passes
over everything else in the directory.
-/

namespace ExchangeCore

open List

/-- Segment files with given contents, numbered from one on. -/
def segmentFiles (contents : List (List UInt8)) : List (List Char × List UInt8) :=
  contents.mapIdx fun i bytes => (segmentName (i + 1), bytes)

/-- None of the files is a segment. -/
def NoSegments (entries : List (List Char × List UInt8)) : Prop :=
  ∀ entry ∈ entries, parseSegmentName entry.1 = none

instance : DecidablePred NoSegments := fun entries =>
  inferInstanceAs (Decidable (∀ entry ∈ entries, parseSegmentName entry.1 = none))

theorem segmentFiles_concat (contents : List (List UInt8)) (bytes : List UInt8) :
    segmentFiles (contents ++ [bytes]) =
      segmentFiles contents ++ [(segmentName (contents.length + 1), bytes)] :=
  mapIdx_concat

theorem exists_index_of_mem {contents : List (List UInt8)} {entry : List Char × List UInt8}
    (hMem : entry ∈ segmentFiles contents) :
    ∃ i, i < contents.length ∧ entry.1 = segmentName (i + 1) := by
  obtain ⟨i, hLt, hEntry⟩ := mem_mapIdx.mp hMem
  exact ⟨i, hLt, by rw [← hEntry]⟩

section Current

variable {others : List (List Char × List UInt8)} {finished : List (List UInt8)}

/-- No other file has the name of the segment after the finished ones. -/
theorem name_ne_current (hOthers : NoSegments others)
    (hBound : finished.length + 1 ≤ kMaxSegmentIndex) {entry : List Char × List UInt8}
    (hMem : entry ∈ others ++ segmentFiles finished) :
    entry.1 ≠ segmentName (finished.length + 1) := by
  intro hName
  rcases mem_append.mp hMem with hOther | hFinished
  · have hNone := hOthers entry hOther
    rw [hName, parseSegmentName_segmentName hBound] at hNone
    cases hNone
  obtain ⟨i, hLt, hIndex⟩ := exists_index_of_mem hFinished
  have hSame := segmentName_injective (by omega) hBound (hIndex.symm.trans hName)
  omega

/-- A change to the file of that name is a change to the last segment. -/
theorem map_current (hOthers : NoSegments others)
    (hBound : finished.length + 1 ≤ kMaxSegmentIndex) (current : List UInt8)
    (update : List UInt8 → List UInt8) :
    ((others ++ segmentFiles (finished ++ [current])).map fun entry =>
        if entry.1 = segmentName (finished.length + 1) then (entry.1, update entry.2)
        else entry) =
      others ++ segmentFiles (finished ++ [update current]) := by
  rw [segmentFiles_concat, segmentFiles_concat, ← append_assoc, ← append_assoc,
    map_append, map_cons, map_nil, if_pos rfl]
  refine congrArg (· ++ _) ?_
  refine (map_congr_left fun entry hEntry => ?_).trans (map_id _)
  rw [if_neg (name_ne_current hOthers hBound hEntry)]
  rfl

end Current

/-! ## What a reader finds -/

section Reader

/-- What the reader takes up of a file. -/
def indexed (entry : List Char × List UInt8) : Option (Nat × File) :=
  (parseSegmentName entry.1).map fun index => (index, { name := entry.1, contents := entry.2 })

variable {contents : List (List UInt8)} {writer : JournalWriter}
  {others : List (List Char × List UInt8)}

/-- The segment files with their indices, as the reader collects them. -/
theorem filterMap_segmentFiles (hBound : contents.length ≤ kMaxSegmentIndex) :
    (segmentFiles contents).filterMap indexed =
      contents.mapIdx fun i bytes =>
        (i + 1, ({ name := segmentName (i + 1), contents := bytes } : File)) := by
  induction contents using List.reverseRecOn with
  | nil => rfl
  | append_singleton contents bytes ih =>
    rw [length_append, length_singleton] at hBound
    rw [segmentFiles_concat, filterMap_append, ih (by omega), mapIdx_concat]
    simp only [filterMap_cons, filterMap_nil, indexed,
      parseSegmentName_segmentName hBound, Option.map_some]

variable (hOthers : NoSegments others) (hBound : contents.length ≤ kMaxSegmentIndex)
  (hListing : writer.disk.listing = others ++ segmentFiles contents)
include hOthers hBound hListing

theorem segments_eq :
    writer.directory.segments = contents.mapIdx fun i bytes =>
      { name := segmentName (i + 1), contents := bytes } := by
  have hFiles : writer.directory.files =
      writer.disk.listing.map fun entry => { name := entry.1, contents := entry.2 } := by
    rw [Disk.listing, map_map]
    rfl
  have hNone : others.filterMap indexed = [] := by
    refine filterMap_eq_nil_iff.mpr fun entry hEntry => ?_
    rw [indexed, hOthers entry hEntry]
    rfl
  have hSorted : (contents.mapIdx fun i bytes =>
      (i + 1, ({ name := segmentName (i + 1), contents := bytes } : File))).Pairwise
        fun a b => a.1 ≤ b.1 := by
    rw [pairwise_iff_getElem]
    intro i j hi hj hLt
    simp only [getElem_mapIdx]
    omega
  rw [JournalDirectory.segments, JournalDirectory.found, hFiles, hListing, filterMap_map,
    filterMap_append]
  change ((others.filterMap indexed ++ (segmentFiles contents).filterMap indexed).insertionSort
    _).map _ = _
  rw [hNone, nil_append, filterMap_segmentFiles hBound, hSorted.insertionSort_eq]
  exact ext_getElem (by simp) fun i _ _ => by simp

theorem contents_segments :
    writer.directory.segments.map File.contents = contents ∧
      ∀ file ∈ writer.directory.segments, file.readable = true := by
  rw [segments_eq hOthers hBound hListing]
  refine ⟨ext_getElem (by simp) fun i _ _ => by simp, fun file hFile => ?_⟩
  obtain ⟨i, hLt, rfl⟩ := mem_mapIdx.mp hFile
  rfl

end Reader

end ExchangeCore
