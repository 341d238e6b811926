import ExchangeCore.Journal.RecordCodec
import ExchangeCore.Journal.Segment
import ExchangeCore.Lib.FaultyDisk
import ExchangeCore.Lib.Machine

/-!
# The journal writer

`src/journal/writer.cpp`: records are encoded into a buffer, the buffer goes to the
current segment file, and full segments are followed by new ones.  The disk is part
of the writer's state; a file descriptor is the name of the file it was opened on,
in the journal's directory.

`append` can fail at four points: when the buffer is written, when it is persisted,
and at either end of the change to a new segment.  The record is somewhere else
each time: in the buffer, partly in the file, or in the file as a whole.
-/

namespace ExchangeCore

/-- How hard the journal works to survive a crash. -/
inductive Durability
  | none
  | interval
  | always
  deriving DecidableEq

structure WriterConfig where
  directory : List Char
  segmentBytes : Nat := 64 * 2 ^ 20
  durability : Durability := .interval
  syncInterval : Int := 100000000
  bufferBytes : Nat := 2 ^ 20
  deriving DecidableEq

structure JournalWriter where
  config : WriterConfig
  disk : Disk := {}
  fd : Option (List Char) := none
  currentPath : List Char := []
  segmentIndex : Nat := 0
  segmentSize : Nat := 0
  buffer : List UInt8 := []
  lastSync : Int := 0
  healthy : Bool := true
  lastError : String := ""
  recordsWritten : Nat := 0
  bytesWritten : Nat := 0
  segmentsOpened : Nat := 0
  syncs : Nat := 0
  deriving DecidableEq

namespace JournalWriter

variable (writer : JournalWriter)

/-- The directory as a reader finds it. -/
def directory : JournalDirectory where
  path := writer.config.directory
  isDirectory := writer.disk.isDirectory
  files := writer.disk.files.map fun file => { name := file.name, contents := file.contents }

/-- The first failure is the informative one. -/
def fail (message : String) : JournalWriter :=
  { writer with
    healthy := false
    lastError := if writer.lastError.isEmpty then message else writer.lastError }

def errnoMessage (what : String) : String :=
  what ++ ": " ++ writer.disk.errno

def writeAll (file : List Char) (data : List UInt8) : JournalWriter × Bool :=
  let (disk, written) := writer.disk.writeAll file data
  let writer := { writer with disk := disk }
  if written then (writer, true)
  else (writer.fail (writer.errnoMessage "write journal segment"), false)

def persist (file : List Char) : JournalWriter × Bool :=
  let (disk, persisted) := writer.disk.persist file
  ({ writer with disk := disk }, persisted)

/-- The buffer is kept until all of it has been written, and starts again from its
beginning if that fails half-way. -/
def flush : JournalWriter × Bool :=
  if writer.buffer.isEmpty then (writer, writer.healthy)
  else
    match writer.fd with
    | none => (writer, false)
    | some file =>
      let (writer, written) := writer.writeAll file writer.buffer
      if written then ({ writer with buffer := [] }, true) else (writer, false)

def sync : JournalWriter × Bool :=
  match writer.fd with
  | none => (writer, false)
  | some file =>
    let (writer, flushed) := writer.flush
    if !flushed then (writer, false)
    else
      let (writer, persisted) := writer.persist file
      if !persisted then (writer.fail (writer.errnoMessage "persist journal"), false)
      else ({ writer with syncs := writer.syncs + 1 }, true)

def close : JournalWriter :=
  match writer.fd with
  | none => writer
  | some file =>
    let (writer, _) := writer.flush
    let (writer, persisted) := writer.persist file
    { writer with
      syncs := if persisted then writer.syncs + 1 else writer.syncs
      fd := none }

/-- The first half of `roll_segment`: what is open is finished and closed. -/
def finishSegment : JournalWriter × Bool :=
  match writer.fd with
  | none => (writer, true)
  | some file =>
    let (writer, flushed) := writer.flush
    -- The file is not persisted when the buffer could not be written.
    let (writer, persisted) := if flushed then writer.persist file else (writer, false)
    if !persisted then
      (writer.fail (writer.errnoMessage "persist segment before rolling"), false)
    else ({ writer with syncs := writer.syncs + 1, fd := none }, true)

/-- The second half: the next segment is created. -/
def startSegment : JournalWriter × Bool :=
  if kMaxSegmentIndex ≤ writer.segmentIndex then
    (writer.fail "segment index would exceed the name format's eight digits", false)
  else
    let index := writer.segmentIndex + 1
    let path := writer.directory.pathOf (segmentName index)
    let (disk, opened) := writer.disk.openExclusive (segmentName index)
    let writer := { writer with disk := disk, segmentIndex := index, currentPath := path }
    if !opened then
      (writer.fail (writer.errnoMessage ("open segment " ++ String.ofList path)), false)
    else
      ({ writer with
          fd := some (segmentName index)
          segmentSize := 0
          segmentsOpened := writer.segmentsOpened + 1 },
        true)

def rollSegment : JournalWriter × Bool :=
  let (writer, finished) := writer.finishSegment
  if !finished then (writer, false) else writer.startSegment

/-- A new segment after the highest-numbered one present. -/
def startAfterHighest : JournalWriter × Bool :=
  let indices := writer.disk.files.filterMap fun file => parseSegmentName file.name
  { writer with segmentIndex := indices.foldl max 0 }.rollSegment

/-- `JournalWriter::open`. -/
def openJournal : JournalWriter × Bool :=
  let (disk, created) := writer.disk.createDirectory
  let writer := { writer with disk := disk }
  match created with
  | .done => writer.startAfterHighest
  | .failed error =>
    if disk.isDirectory then writer.startAfterHighest
    else (writer.fail ("create journal directory: " ++ error), false)

/-- Whether a record is to be persisted at once. -/
def syncNow (now : Int) : Bool :=
  match writer.config.durability with
  | .none => false
  | .interval => writer.config.syncInterval ≤ now - writer.lastSync
  | .always => true

/-- A record goes into the buffer. -/
def encodeRecord (record : Record) : JournalWriter :=
  { writer with
    buffer := writer.buffer ++ encode record
    recordsWritten := writer.recordsWritten + 1
    bytesWritten := writer.bytesWritten + (encode record).length
    segmentSize := writer.segmentSize + (encode record).length }

def append (record : Record) (now : Int) : JournalWriter × Bool :=
  if !writer.healthy || writer.fd.isNone then (writer, false)
  else
    let syncNow := writer.syncNow now
    let writer := writer.encodeRecord record
    let (writer, flushed) :=
      if writer.config.bufferBytes ≤ writer.buffer.length || syncNow then writer.flush
      else (writer, true)
    if !flushed then (writer, false)
    else
      let (writer, synced) := if syncNow then writer.sync else (writer, true)
      if !synced then (writer, false)
      else
        let writer := if syncNow then { writer with lastSync := now } else writer
        if writer.config.segmentBytes ≤ writer.segmentSize then writer.rollSegment
        else (writer, true)

instance : JournalSink JournalWriter where
  append := append

end JournalWriter

/-! ## Calls of an open writer -/

inductive WriterCall
  | append (record : Record) (now : Int)
  | flush
  | sync
  | close
  deriving DecidableEq

namespace JournalWriter

variable (writer : JournalWriter)

def call : WriterCall → JournalWriter
  | .append record now => (writer.append record now).1
  | .flush => writer.flush.1
  | .sync => writer.sync.1
  | .close => writer.close

def run (calls : List WriterCall) : JournalWriter :=
  Machine.run call writer calls

/-- A writer that has just been opened on a disk. -/
def opened (config : WriterConfig) (disk : Disk) : JournalWriter :=
  ({ config := config, disk := disk } : JournalWriter).openJournal.1

end JournalWriter

/-- The records handed to the writer in these calls. -/
def recordsOf (calls : List WriterCall) : List Record :=
  calls.filterMap fun
    | .append record _ => some record
    | _ => none

end ExchangeCore
