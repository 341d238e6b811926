import Mathlib.Logic.Relation

/-!
# A disk whose calls may fail

A directory of append-only files, with what has been persisted of each, and the
outcome of every call still to come.  The outcomes of one kind of call are a list
and what happens once the list is used up, so every finite pattern of short,
interrupted and failing calls can be written down.

`writeAll` is the usual loop around `write`: it goes on after a short or an
interrupted write and gives up at an error.  What it has transferred by then is a
prefix of the data, and a proper one if it gave up (`transfer_spec`).

What calls can do to the files is `FileStep`.  Whatever is found at some moment
lies between two states of the disk in that sense (`FilesEvolve`), and files only
grow (`FilesEvolve.grown`).
-/

namespace ExchangeCore

open List

/-- How a call ends that transfers nothing. -/
inductive CallResult
  | done
  | failed (error : String)
  deriving DecidableEq

/-- How one `write` ends. -/
inductive WriteResult
  | transferred (count : Nat)
  | interrupted
  | failed (error : String)
  deriving DecidableEq

/-- How the calls of one kind end: the coming ones, and all of them after that. -/
structure Outcomes (R : Type) where
  coming : List R := []
  after : CallResult := .done
  deriving DecidableEq

structure StoredFile where
  name : List Char
  contents : List UInt8 := []
  persisted : List UInt8 := []
  deriving DecidableEq

structure Disk where
  isDirectory : Bool := true
  files : List StoredFile := []
  creation : CallResult := .done
  opens : Outcomes CallResult := {}
  writes : Outcomes WriteResult := {}
  persists : Outcomes CallResult := {}
  errno : String := ""
  deriving DecidableEq

/-! ## Outcomes -/

namespace Outcomes

def next (outcomes : Outcomes CallResult) : CallResult × Outcomes CallResult :=
  match outcomes.coming with
  | [] => (outcomes.after, outcomes)
  | result :: coming => (result, { outcomes with coming := coming })

/-- No call fails. -/
def Sure (outcomes : Outcomes CallResult) : Prop :=
  (∀ result ∈ outcomes.coming, result = .done) ∧ outcomes.after = .done

instance : DecidablePred Sure := fun outcomes =>
  inferInstanceAs (Decidable ((∀ result ∈ outcomes.coming, result = .done) ∧ _ = _))

theorem Sure.next {outcomes : Outcomes CallResult} (hSure : outcomes.Sure) :
    outcomes.next.1 = .done ∧ outcomes.next.2.Sure := by
  obtain ⟨coming, after⟩ := outcomes
  obtain ⟨hComing, hAfter⟩ := hSure
  cases coming with
  | nil => exact ⟨hAfter, hComing, hAfter⟩
  | cons result coming =>
    exact ⟨hComing result mem_cons_self,
      fun other hOther => hComing other (mem_cons_of_mem result hOther), hAfter⟩

end Outcomes

/-! ## Writing -/

/-- What a loop of writes has come to. -/
structure Transfer where
  sent : List UInt8
  coming : List WriteResult
  errno : String
  complete : Bool

/-- Write data until it is all transferred or a write fails. -/
def transfer (after : CallResult) : List WriteResult → String → List UInt8 → Transfer
  | [], errno, data =>
    if data.isEmpty then ⟨[], [], errno, true⟩
    else
      match after with
      | .done => ⟨data, [], errno, true⟩
      | .failed error => ⟨[], [], error, false⟩
  | result :: coming, errno, data =>
    if data.isEmpty then ⟨[], result :: coming, errno, true⟩
    else
      match result with
      | .transferred count =>
        let rest := transfer after coming errno (data.drop count)
        { rest with sent := data.take count ++ rest.sent }
      | .interrupted => transfer after coming "Interrupted system call" data
      | .failed error => ⟨[], coming, error, false⟩

/-- All the data has been transferred, or a proper prefix of it. -/
theorem transfer_spec (after : CallResult) (coming : List WriteResult) (errno : String)
    (data : List UInt8) :
    let result := transfer after coming errno data
    if result.complete then result.sent = data
    else ∃ missing, missing ≠ [] ∧ data = result.sent ++ missing := by
  induction coming generalizing errno data with
  | nil =>
    unfold transfer
    split
    · next hEmpty => exact (isEmpty_iff.mp hEmpty).symm
    next hSome =>
    cases after with
    | done => rfl
    | failed error => exact ⟨data, fun h => hSome (isEmpty_iff.mpr h), rfl⟩
  | cons result coming ih =>
    unfold transfer
    split
    · next hEmpty => exact (isEmpty_iff.mp hEmpty).symm
    next hSome =>
    cases result with
    | interrupted => exact ih _ _
    | failed error => exact ⟨data, fun h => hSome (isEmpty_iff.mpr h), rfl⟩
    | transferred count =>
      have hRest := ih errno (data.drop count)
      dsimp only at hRest ⊢
      split at hRest
      · next hComplete =>
          rw [if_pos hComplete, hRest, take_append_drop]
      next hGivenUp =>
      obtain ⟨missing, hMissing, hData⟩ := hRest
      rw [if_neg hGivenUp]
      refine ⟨missing, hMissing, ?_⟩
      rw [append_assoc, ← hData, take_append_drop]

/-- No write transfers anything any more. -/
def Dead (after : CallResult) (coming : List WriteResult) : Prop :=
  after ≠ .done ∧ ∀ result ∈ coming, ∃ error, result = .failed error

/-- Once a write has failed, no later one transfers anything. -/
def Lasting (after : CallResult) : List WriteResult → Prop
  | [] => True
  | .failed _ :: coming => Dead after coming
  | _ :: coming => Lasting after coming

variable {after before : List StoredFile} {coming : List WriteResult}
  {update : StoredFile → StoredFile} {n : Nat}

theorem transfer_lasting {after : CallResult}
    (hLasting : Lasting after coming) (errno : String) (data : List UInt8) :
    let result := transfer after coming errno data
    if result.complete then Lasting after result.coming else Dead after result.coming := by
  induction coming generalizing errno data with
  | nil =>
    unfold transfer
    split
    · exact hLasting
    cases after with
    | done => exact hLasting
    | failed error => exact ⟨nofun, nofun⟩
  | cons result coming ih =>
    unfold transfer
    split
    · exact hLasting
    cases result with
    | interrupted => exact ih hLasting _ _
    | failed error => exact hLasting
    | transferred count => exact ih hLasting _ _

theorem transfer_dead {after : CallResult}
    (hDead : Dead after coming) (errno : String) {data : List UInt8} (hSome : data ≠ []) :
    (transfer after coming errno data).sent = [] ∧
      (transfer after coming errno data).complete = false ∧
      Dead after (transfer after coming errno data).coming := by
  have hNotEmpty : ¬ data.isEmpty = true := fun h => hSome (isEmpty_iff.mp h)
  obtain ⟨hAfter, hComing⟩ := hDead
  cases coming with
  | nil =>
    unfold transfer
    rw [if_neg hNotEmpty]
    cases after with
    | done => exact absurd rfl hAfter
    | failed error => exact ⟨rfl, rfl, hAfter, nofun⟩
  | cons result coming =>
    obtain ⟨error, rfl⟩ := hComing result mem_cons_self
    unfold transfer
    rw [if_neg hNotEmpty]
    exact ⟨rfl, rfl, hAfter, fun other hOther =>
      hComing other (mem_cons_of_mem _ hOther)⟩

/-! ## Files -/

namespace Disk

variable (disk : Disk)

/-- The files with what is in them, persisted or not. -/
def listing : List (List Char × List UInt8) :=
  disk.files.map fun file => (file.name, file.contents)

section

variable (name : List Char)

def modify (update : StoredFile → StoredFile) : Disk :=
  { disk with
    files := disk.files.map fun file => if file.name = name then update file else file }

def writeAll (data : List UInt8) : Disk × Bool :=
  let result := transfer disk.writes.after disk.writes.coming disk.errno data
  ({ disk.modify name fun file => { file with contents := file.contents ++ result.sent } with
      writes := { disk.writes with coming := result.coming }
      errno := result.errno },
    result.complete)

/-- What has been written to a file so far becomes durable. -/
def persist : Disk × Bool :=
  let (result, persists) := disk.persists.next
  match result with
  | .done =>
    ({ disk.modify name fun file => { file with persisted := file.contents } with
        persists := persists },
      true)
  | .failed error => ({ disk with persists := persists, errno := error }, false)

/-- Create a file that must not exist yet. -/
def openExclusive : Disk × Bool :=
  let (result, opens) := disk.opens.next
  match result with
  | .failed error => ({ disk with opens := opens, errno := error }, false)
  | .done =>
    if disk.files.any fun file => file.name == name then
      ({ disk with opens := opens, errno := "File exists" }, false)
    else
      ({ disk with opens := opens, files := disk.files ++ [{ name := name }] }, true)

end

/-- What a loop of writes would come to now. -/
def attempt (data : List UInt8) : Transfer :=
  transfer disk.writes.after disk.writes.coming disk.errno data

section Attempt

variable {disk} {data : List UInt8}

theorem sent_of_complete (hComplete : (disk.attempt data).complete = true) :
    (disk.attempt data).sent = data :=
  (if_pos hComplete).mp (transfer_spec disk.writes.after disk.writes.coming disk.errno data)

theorem exists_missing (hGivenUp : (disk.attempt data).complete = false) :
    ∃ missing, missing ≠ [] ∧ data = (disk.attempt data).sent ++ missing :=
  (if_neg (ne_true_of_eq_false hGivenUp)).mp
    (transfer_spec disk.writes.after disk.writes.coming disk.errno data)

end Attempt

theorem sent_attempt_nil : (disk.attempt []).sent = [] := by
  unfold attempt transfer
  cases disk.writes.coming <;> rfl

/-- Create the directory, or say why not. -/
def createDirectory : Disk × CallResult :=
  match disk.creation with
  | .done => ({ disk with isDirectory := true }, .done)
  | .failed error => (disk, .failed error)

section Listing

variable (name : List Char)

theorem listing_modify_contents (update : List UInt8 → List UInt8)
    (change : StoredFile → StoredFile) (hChange : ∀ file, change file = { file with
      contents := update file.contents
      persisted := (change file).persisted }) :
    (disk.modify name change).listing = disk.listing.map fun entry =>
      if entry.1 = name then (entry.1, update entry.2) else entry := by
  unfold listing modify
  rw [map_map, map_map]
  refine map_congr_left fun file _ => ?_
  dsimp only [Function.comp]
  split
  · rw [hChange file]
  · rfl

@[simp] theorem listing_persist : (disk.persist name).1.listing = disk.listing := by
  unfold persist
  dsimp only
  split
  · exact (listing_modify_contents disk name id _ fun _ => rfl).trans (by simp)
  · rfl

theorem listing_writeAll (data : List UInt8) :
    (disk.writeAll name data).1.listing = disk.listing.map fun entry =>
      if entry.1 = name then
        (entry.1, entry.2 ++ (transfer disk.writes.after disk.writes.coming disk.errno data).sent)
      else entry :=
  listing_modify_contents disk name
    (· ++ (transfer disk.writes.after disk.writes.coming disk.errno data).sent) _ fun _ => rfl

end Listing

end Disk

/-! ## Moments -/

/-- Change the file of a name. -/
def updateFile (name : List Char) (update : StoredFile → StoredFile) (files : List StoredFile) :
    List StoredFile :=
  files.map fun file => if file.name = name then update file else file

/-- What one call can do to the files: add bytes to one, make one durable, or create
an empty one. -/
inductive FileStep : List StoredFile → List StoredFile → Prop
  | write (files : List StoredFile) (name : List Char) (bytes : List UInt8) : FileStep files
        (updateFile name (fun file => { file with contents := file.contents ++ bytes }) files)
  | persist (files : List StoredFile) (name : List Char) :
      FileStep files (updateFile name (fun file => { file with persisted := file.contents }) files)
  | create (files : List StoredFile) (name : List Char) :
      FileStep files (files ++ [{ name := name }])

/-- The files change from one state to another, call by call. -/
abbrev FilesEvolve : List StoredFile → List StoredFile → Prop := Relation.ReflTransGen FileStep

/-- A file at a later moment. -/
structure Grown (before after : StoredFile) : Prop where
  name : after.name = before.name
  contents : before.contents <+: after.contents
  persisted : before.persisted <+: before.contents →
    after.persisted <+: after.contents ∧ before.persisted <+: after.persisted

theorem Grown.refl (file : StoredFile) : Grown file file :=
  ⟨rfl, prefix_rfl, fun hSound => ⟨hSound, prefix_rfl⟩⟩

theorem Grown.trans {first second third : StoredFile} (hFirst : Grown first second)
    (hSecond : Grown second third) : Grown first third where
  name := hSecond.name.trans hFirst.name
  contents := hFirst.contents.trans hSecond.contents
  persisted := fun hSound => by
    obtain ⟨hSound', hPrefix⟩ := hFirst.persisted hSound
    obtain ⟨hSound'', hPrefix'⟩ := hSecond.persisted hSound'
    exact ⟨hSound'', hPrefix.trans hPrefix'⟩

theorem grown_write (file : StoredFile) (bytes : List UInt8) :
    Grown file { file with contents := file.contents ++ bytes } :=
  ⟨rfl, prefix_append _ _, fun hSound =>
    ⟨hSound.trans (prefix_append _ _), prefix_rfl⟩⟩

theorem grown_persist (file : StoredFile) : Grown file { file with persisted := file.contents } :=
  ⟨rfl, prefix_rfl, fun hSound => ⟨prefix_rfl, hSound⟩⟩

/-- Files stay where they are and only grow; others come behind them. -/
def FilesGrown (before after : List StoredFile) : Prop :=
  ∀ (i : Nat) (file : StoredFile), before[i]? = some file →
    ∃ file', after[i]? = some file' ∧ Grown file file'

theorem filesGrown_updateFile (name : List Char)
    (hUpdate : ∀ file, Grown file (update file)) (files : List StoredFile) :
    FilesGrown files (updateFile name update files) := by
  intro i file hFile
  refine ⟨if file.name = name then update file else file, ?_, ?_⟩
  · rw [updateFile, List.getElem?_map, hFile]
    rfl
  · split
    · exact hUpdate file
    · exact .refl file

theorem FileStep.grown (hStep : FileStep before after) : FilesGrown before after := by
  cases hStep with
  | write name bytes => exact filesGrown_updateFile name (fun file => grown_write file bytes) before
  | persist name => exact filesGrown_updateFile name grown_persist before
  | create name =>
    intro i file hFile
    obtain ⟨hLt, -⟩ := List.getElem?_eq_some_iff.mp hFile
    exact ⟨file, by rw [List.getElem?_append_left hLt, hFile], .refl file⟩

theorem FilesEvolve.grown (hEvolve : FilesEvolve before after) : FilesGrown before after := by
  induction hEvolve with
  | refl => exact fun i file hFile => ⟨file, hFile, .refl file⟩
  | tail _ hStep ih =>
    intro i file hFile
    obtain ⟨middle, hMiddle, hGrown⟩ := ih i file hFile
    obtain ⟨last, hLast, hGrown'⟩ := hStep.grown i middle hMiddle
    exact ⟨last, hLast, hGrown.trans hGrown'⟩

theorem FilesGrown.of_cons {file : StoredFile} (hGrown : FilesGrown (file :: before) after) :
    ∃ file' after', after = file' :: after' ∧ Grown file file' ∧ FilesGrown before after' := by
  obtain ⟨file', hFile', hFirst⟩ := hGrown 0 file rfl
  cases after with
  | nil => cases hFile'
  | cons head after' =>
    obtain rfl : head = file' := Option.some.inj hFile'
    exact ⟨head, after', rfl, hFirst, fun i other hOther => hGrown (i + 1) other hOther⟩

theorem FilesGrown.drop (hGrown : FilesGrown before after)
    (n : Nat) : FilesGrown (before.drop n) (after.drop n) := by
  intro i file hFile
  rw [List.getElem?_drop] at hFile ⊢
  exact hGrown (n + i) file hFile

/-- From some file on, nothing is persisted that is not in the file. -/
def SoundFrom (n : Nat) (files : List StoredFile) : Prop :=
  ∀ file ∈ files.drop n, file.persisted <+: file.contents

theorem soundFrom_updateFile {files : List StoredFile} (hSound : SoundFrom n files)
    (name : List Char) (hUpdate : ∀ file, Grown file (update file)) :
    SoundFrom n (updateFile name update files) := by
  intro file hFile
  rw [updateFile, ← map_drop] at hFile
  obtain ⟨before, hBefore, rfl⟩ := mem_map.mp hFile
  have hPersisted := hSound before hBefore
  split
  · exact ((hUpdate before).persisted hPersisted).1
  · exact hPersisted

theorem FileStep.soundFrom
    (hStep : FileStep before after) (hLength : n ≤ before.length) (hSound : SoundFrom n before) :
    n ≤ after.length ∧ SoundFrom n after := by
  cases hStep with
  | write name bytes =>
    exact ⟨by simpa [updateFile] using hLength,
      soundFrom_updateFile hSound name fun file => grown_write file bytes⟩
  | persist name =>
    exact ⟨by simpa [updateFile] using hLength, soundFrom_updateFile hSound name grown_persist⟩
  | create name =>
    refine ⟨by simp; omega, fun file hFile => ?_⟩
    rw [drop_append_of_le_length hLength] at hFile
    rcases mem_append.mp hFile with hOld | hNew
    · exact hSound file hOld
    · obtain rfl := mem_singleton.mp hNew
      exact prefix_rfl

theorem FilesEvolve.soundFrom (hEvolve : FilesEvolve before after) (hLength : n ≤ before.length)
    (hSound : SoundFrom n before) : n ≤ after.length ∧ SoundFrom n after := by
  induction hEvolve with
  | refl => exact ⟨hLength, hSound⟩
  | tail _ hStep ih => exact hStep.soundFrom ih.1 ih.2

/-- Files that are the same before and after have the same persisted in between; of
the file behind them everything persisted stays persisted. -/
theorem persisted_between {past rest : List StoredFile} {current : StoredFile}
    {moment : List StoredFile} (hBefore : FilesGrown (past ++ [current]) moment)
    (hAfter : FilesGrown moment (past ++ rest))
    (hSound : ∀ file ∈ past ++ [current], file.persisted <+: file.contents) :
    (past ++ [current]).flatMap StoredFile.persisted <+: moment.flatMap StoredFile.persisted := by
  induction past generalizing moment with
  | nil =>
    obtain ⟨file, others, rfl, hGrown, -⟩ := hBefore.of_cons
    rw [nil_append, flatMap_singleton, flatMap_cons]
    exact (hGrown.persisted (hSound current (by simp))).2.trans (prefix_append _ _)
  | cons first past ih =>
    obtain ⟨file, others, rfl, hGrown, hOthers⟩ := hBefore.of_cons
    obtain ⟨last, lasts, hLasts, hGrown', hOthers'⟩ := hAfter.of_cons
    obtain ⟨rfl, rfl⟩ : first = last ∧ past ++ rest = lasts := List.cons.inj hLasts
    obtain ⟨hFirst, hSound⟩ := forall_mem_cons.mp hSound
    obtain ⟨hInside, hMore⟩ := hGrown.persisted hFirst
    have hLess := (hGrown'.persisted hInside).2
    have hSame : first.persisted = file.persisted :=
      hMore.eq_of_length (Nat.le_antisymm hMore.length_le hLess.length_le)
    rw [cons_append, flatMap_cons, flatMap_cons, hSame]
    exact (prefix_append_right_inj _).mpr (ih hOthers hOthers' hSound)

namespace Disk

variable (disk : Disk) (name : List Char)

theorem evolves_writeAll (data : List UInt8) :
    FilesEvolve disk.files (disk.writeAll name data).1.files :=
  .single (.write disk.files name (disk.attempt data).sent)

theorem evolves_persist : FilesEvolve disk.files (disk.persist name).1.files := by
  unfold persist
  dsimp only
  split
  · exact .single (.persist disk.files name)
  · exact .refl

theorem evolves_openExclusive : FilesEvolve disk.files (disk.openExclusive name).1.files := by
  unfold openExclusive
  dsimp only
  split
  · exact .refl
  split
  · exact .refl
  · exact .single (.create disk.files name)

end Disk
end ExchangeCore
