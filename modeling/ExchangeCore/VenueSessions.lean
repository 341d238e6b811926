import ExchangeCore.Journal.AppendedRecords
import ExchangeCore.Journal.GoodPrefix
import ExchangeCore.Journal.Replayer
import ExchangeCore.Venue

/-!
# Sessions of a venue on one journal directory

Each session starts a venue on the files that the sessions before it have left,
handles messages and stops the venue.  The writer goes on with the next segment, but
`start` does not tell the engine where the numbering was: every session numbers its
records from one (`Journaling.numbers`).  So the directory reads clean with all
records in it exactly if no two sessions have recorded anything
(`sessions_read_clean_iff`).  Replaying what one run has left rebuilds its market
(`replay_rebuilds`).
-/

namespace ExchangeCore

open List

/-! ## What an event adds to the journal -/

namespace MatchingEngine

section Offers

variable {J : Type} [JournalSink J] (engine : MatchingEngine J)

/-- An event that registers no instrument. -/
def OnlyCommands (event : Event) : Prop := ∀ instrument now, event ≠ .addInstrument instrument now

/-- Without instruments nothing is journaled. -/
theorem apply_unlisted (hBooks : engine.books = ∅) {event : Event} (hEvent : OnlyCommands event) :
    (engine.apply event).books = ∅ ∧ (engine.apply event).journal = engine.journal := by
  have hNone : ∀ id, engine.clearBuffers.bookFor id = none := by
    intro id
    show engine.books.lookup id = none
    rw [hBooks]
    exact AList.lookup_empty id
  cases event with
  | addInstrument instrument now => exact absurd rfl (hEvent instrument now)
  | submit command now =>
    show (engine.submit command now).1.books = ∅ ∧ (engine.submit command now).1.journal = _
    unfold submit
    dsimp only
    rw [hNone]
    exact ⟨hBooks, rfl⟩
  | cancel command now =>
    show (engine.cancel command now).1.books = ∅ ∧ (engine.cancel command now).1.journal = _
    unfold cancel
    dsimp only
    rw [hNone]
    exact ⟨hBooks, rfl⟩
  | replace command now =>
    show (engine.replace command now).1.books = ∅ ∧ (engine.replace command now).1.journal = _
    unfold replace
    dsimp only
    rw [hNone]
    exact ⟨hBooks, rfl⟩
  | _ => exact ⟨hBooks, rfl⟩

theorem run_unlisted {events : List Event} (hBooks : engine.books = ∅)
    (hEvents : ∀ event ∈ events, OnlyCommands event) :
    (engine.run events).journal = engine.journal := by
  induction events generalizing engine with
  | nil => rfl
  | cons event events ih =>
    obtain ⟨hFirst, hRest⟩ := forall_mem_cons.mp hEvents
    obtain ⟨hBooks', hJournal⟩ := apply_unlisted engine hBooks hFirst
    exact (ih _ hBooks' hRest).trans hJournal

end Offers

/-! ## An engine with its journal -/

/-- The engine of a session on files that hold some records already: it has numbered
its own records from one on, has defined only some instruments, and the journal holds
its records behind the earlier ones, unless the names of segments have run out. -/
structure Journaling (others : List (List Char × List UInt8)) (config : WriterConfig)
    (earlier : List Record) (instruments : List Instrument)
    (engine : MatchingEngine (Logged JournalWriter)) (log : Logged JournalWriter) : Prop where
  journal : engine.journal = some log
  numbers : log.records.map Record.sequence = List.range' 1 engine.sequence
  defines : ∀ record ∈ log.records, record.type = .instrumentDefined →
    record.instrument ∈ instruments
  carrying : (∃ finished current, Carrying others config log.journal finished current ∧
    finished.flatten ++ current = earlier ++ log.records) ∨
      kMaxSegmentIndex ≤ log.journal.segmentIndex

section Journaling

variable {others : List (List Char × List UInt8)} {config : WriterConfig} {earlier : List Record}
  {instruments : List Instrument} {engine : MatchingEngine (Logged JournalWriter)}
  {log : Logged JournalWriter}

theorem records_append (log : Logged JournalWriter) (record : Record) (now : Int) :
    (JournalSink.append log record now).1.records = log.records ++ [record] := by
  simp [JournalSink.append, Logged.records]

theorem carrying_append (record : Record) (now : Int)
    (hCarrying : (∃ finished current, Carrying others config log.journal finished current ∧
      finished.flatten ++ current = earlier ++ log.records) ∨
        kMaxSegmentIndex ≤ log.journal.segmentIndex) :
    let log' := (JournalSink.append log record now).1
    (∃ finished current, Carrying others config log'.journal finished current ∧
      finished.flatten ++ current = earlier ++ log'.records) ∨
        kMaxSegmentIndex ≤ log'.journal.segmentIndex := by
  intro log'
  have hJournal : log'.journal = (log.journal.append record now).1 := rfl
  have hIndex := (log.journal.append_advances record now).segmentIndex
  rw [hJournal, records_append]
  rcases hCarrying with ⟨finished, current, hCarrying, hAll⟩ | hFull
  swap
  · exact Or.inr (hFull.trans hIndex)
  by_cases hRoom : finished.length + 1 < kMaxSegmentIndex
  · left
    obtain ⟨-, hAppended⟩ := hCarrying.append record now fun _ => hRoom
    split at hAppended
    · refine ⟨_, _, hAppended, ?_⟩
      rw [← append_assoc, ← hAll]
      simp
    · refine ⟨_, _, hAppended, ?_⟩
      rw [← append_assoc, ← append_assoc, hAll]
  · right
    have hNow := hCarrying.writing.index
    omega

variable (hJournaling : Journaling others config earlier instruments engine log)
include hJournaling

theorem Journaling.apply (event : Event)
    (hEvent : ∀ instrument now, event = .addInstrument instrument now → instrument ∈ instruments) :
    ∃ log', Journaling others config earlier instruments (engine.apply event) log' ∧
      log.records <+: log'.records := by
  obtain ⟨hLog, hNumbers, hDefines, hCarrying⟩ := hJournaling
  have hRecording := apply_recording engine event
  generalize engine.apply event = engine' at hRecording ⊢
  cases hRecording with
  | quiet hJournal hMarket =>
    refine ⟨log, ⟨hJournal.trans hLog, ?_, hDefines, hCarrying⟩, prefix_rfl⟩
    rw [show engine'.sequence = engine.sequence from congrArg MarketState.sequence hMarket]
    exact hNumbers
  | offered record hNumber hJournal hSequence hKind =>
    rw [hLog] at hJournal
    have hRecords := records_append log record record.timestamp
    refine ⟨_, ⟨hJournal, ?_, ?_, carrying_append record record.timestamp hCarrying⟩, ?_⟩
    · rw [hRecords, map_append, hNumbers, hSequence, List.range'_concat, map_singleton,
        hNumber, Nat.one_mul, Nat.add_comm]
    · intro other hOther hType
      rw [hRecords] at hOther
      rcases mem_append.mp hOther with hOld | hNew
      · exact hDefines other hOld hType
      obtain rfl := mem_singleton.mp hNew
      obtain ⟨now, hAdd⟩ := hKind hType
      exact hEvent _ now hAdd
    · rw [hRecords]
      exact prefix_append _ _

theorem Journaling.run {events : List Event} (hEvents : ∀ event ∈ events, ∀ instrument now,
      event = .addInstrument instrument now → instrument ∈ instruments) :
    ∃ log', Journaling others config earlier instruments (engine.run events) log' ∧
      log.records <+: log'.records := by
  induction events generalizing engine log with
  | nil => exact ⟨log, hJournaling, prefix_rfl⟩
  | cons event events ih =>
    obtain ⟨hFirst, hRest⟩ := forall_mem_cons.mp hEvents
    obtain ⟨middle, hMiddle, hPrefix⟩ := hJournaling.apply event hFirst
    obtain ⟨last, hLast, hPrefix'⟩ := ih hMiddle hRest
    exact ⟨last, hLast, hPrefix.trans hPrefix'⟩

/-- A registered instrument has been recorded. -/
theorem Journaling.addInstrument
    {instrument : Instrument} {now : Int} (hMember : instrument ∈ instruments)
    (hAdded : (engine.addInstrument instrument now).2 = true) :
    ∃ log', Journaling others config earlier instruments (engine.addInstrument instrument now).1
      log' ∧ log.records <+: log'.records ∧
        ∃ record ∈ log'.records, record.type = .instrumentDefined ∧
          record.instrument = instrument := by
  obtain ⟨log', hJournaling', hPrefix⟩ := hJournaling.apply (.addInstrument instrument now)
    (fun _ _ hSame => by cases hSame; exact hMember)
  refine ⟨log', hJournaling', hPrefix, ?_⟩
  have hJournal := hJournaling'.journal
  change (engine.addInstrument instrument now).1.journal = some log' at hJournal
  unfold MatchingEngine.addInstrument at hJournal hAdded
  split at hAdded
  · cases hAdded
  next hValid =>
  rw [if_neg hValid] at hJournal
  split at hAdded
  · cases hAdded
  next hFree =>
  rw [if_neg hFree] at hJournal
  dsimp only at hJournal hAdded
  rw [append_fst, append_snd] at hJournal hAdded
  split at hAdded
  · next hRecorded =>
      rw [if_pos hRecorded] at hJournal
      change engine.journal.map _ = some log' at hJournal
      rw [hJournaling.journal] at hJournal
      cases hJournal
      refine ⟨{ type := .instrumentDefined
                sequence := engine.sequence + 1
                timestamp := now
                instrument := instrument }, ?_, rfl, rfl⟩
      rw [records_append]
      simp
  · cases hAdded

end Journaling

end MatchingEngine

/-! ## The venue's engine -/

namespace Venue

open MatchingEngine

section Engine

variable (venue : Venue) (connection : Nat) (now answered : Int)

@[simp] theorem engine_sendSession (bytes : List UInt8) :
    (venue.sendSession connection bytes).engine = venue.engine := by
  unfold sendSession
  split <;> rfl

@[simp] theorem engine_publish (encode : Nat → List UInt8) :
    (venue.publish encode).engine = venue.engine := rfl

theorem engine_foldl {A : Type} {update : Venue → A → Venue}
    (hUpdate : ∀ venue a, (update venue a).engine = venue.engine) (items : List A) :
    (items.foldl update venue).engine = venue.engine := by
  induction items generalizing venue with
  | nil => rfl
  | cons item items ih => rw [foldl_cons, ih, hUpdate]

@[simp] theorem engine_listenTo (notice : Notice) :
    (venue.listenTo connection now notice).engine = venue.engine := by
  cases notice with
  | fills sequence fills => exact engine_foldl venue (fun venue fill => by simp) fills
  | orderAccepted => exact engine_sendSession ..
  | orderRejected => exact engine_sendSession ..
  | orderCancelled => exact engine_sendSession ..
  | orderReplaced => exact engine_sendSession ..

@[simp] theorem engine_publishMarketData (instrument : InstrumentId) :
    (venue.publishMarketData instrument).engine = venue.engine := by
  unfold publishMarketData
  split
  · rfl
  split <;> rfl

@[simp] theorem engine_report (engine : MatchingEngine (Logged JournalWriter))
    (instrument : InstrumentId) :
    (venue.report connection now engine instrument).engine = engine := by
  have hHeard : (engine.notices.foldl
      (fun (venue : Venue) notice => venue.listenTo connection now notice)
      { venue with engine := engine }).engine = engine :=
    engine_foldl _ (fun venue notice => engine_listenTo venue connection now notice) _
  unfold report
  dsimp only
  split
  · rw [engine_publishMarketData, hHeard]
  · exact hHeard

/-- What a message does to the engine is done by events, and none of them registers an
instrument. -/
theorem exists_events_handle (message : Protocol.Message) :
    ∃ events, (venue.handle connection message now answered).engine = venue.engine.run events ∧
      ∀ event ∈ events, OnlyCommands event := by
  unfold handle
  dsimp only
  split
  · rw [engine_report, withLimits]
    split
    · exact ⟨[.configure message.newOrder.account venue.config.defaultLimits,
        .submit message.newOrder now], rfl, by simp [OnlyCommands]⟩
    · exact ⟨[.submit message.newOrder now], rfl, by simp [OnlyCommands]⟩
  · rw [engine_report]
    exact ⟨[.cancel message.cancelOrder now], rfl, by simp [OnlyCommands]⟩
  · rw [engine_report]
    exact ⟨[.replace message.replaceOrder now], rfl, by simp [OnlyCommands]⟩
  · exact ⟨[], rfl, nofun⟩

end Engine

section Register

variable {others : List (List Char × List UInt8)} {config : WriterConfig} {earlier : List Record}
  {instruments : List Instrument} {venue : Venue} {log : Logged JournalWriter}

/-- All instruments that were registered have been recorded, and nothing else. -/
theorem journaling_register {added : List Instrument} (hSubset : ∀ instrument ∈ added,
      instrument ∈ instruments)
    (hJournaling : Journaling others config earlier instruments venue.engine log)
    {clock : Nat → Int} (hRegistered : (venue.register clock added).2 = true) :
    ∃ log', Journaling others config earlier instruments (venue.register clock added).1.engine
      log' ∧ log.records <+: log'.records ∧
        ∀ instrument ∈ added, ∃ record ∈ log'.records, record.type = .instrumentDefined ∧
          record.instrument = instrument := by
  induction added generalizing venue log clock with
  | nil => exact ⟨log, hJournaling, prefix_rfl, nofun⟩
  | cons instrument added ih =>
    obtain ⟨hMember, hRest⟩ := forall_mem_cons.mp hSubset
    unfold register at hRegistered ⊢
    dsimp only at hRegistered ⊢
    cases hAdded : (venue.engine.addInstrument instrument (clock 0)).2 with
    | false =>
      rw [hAdded] at hRegistered
      cases hRegistered
    | true =>
      rw [hAdded] at hRegistered
      obtain ⟨first, hFirst, hPrefix, record, hRecord, hType, hSame⟩ :=
        hJournaling.addInstrument hMember hAdded
      obtain ⟨configured, hConfigured, hPrefix'⟩ := hFirst.apply
        (.configureInstrument instrument.id venue.config.defaultControls) nofun
      obtain ⟨last, hLast, hPrefix'', hAll⟩ := ih hRest hConfigured hRegistered
      refine ⟨last, hLast, (hPrefix.trans hPrefix').trans hPrefix'', ?_⟩
      refine forall_mem_cons.mpr ⟨⟨record, ?_, hType, hSame⟩, hAll⟩
      exact (hPrefix'.trans hPrefix'').subset hRecord

end Register

end Venue

/-! ## Sessions -/

/-- A message of a session, with the times at which it is processed and answered. -/
structure VenueInput where
  connection : Nat
  message : Protocol.Message
  now : Int
  answered : Int

/-- One session of a venue with a journal.  `disk` says how calls of the system end;
the files are those that the session finds. -/
structure VenueSession where
  config : VenueConfig := {}
  journal : WriterConfig
  disk : Disk := {}
  risk : RiskEngine := {}
  kill : KillSwitch := {}
  clock : Nat → Int := fun _ => 0
  feed : CallResult := .done
  gateway : CallResult := .done
  inputs : List VenueInput := []

namespace VenueSession

variable (session : VenueSession) (files : List StoredFile)

def start : Venue × Bool :=
  ({ config := { session.config with journal := some session.journal } } : Venue).start
    { session.disk with files := files } session.risk session.kill session.clock session.feed
    session.gateway

/-- Start, handle every message, stop. -/
def run : Venue :=
  let (venue, started) := session.start files
  (if started then
    session.inputs.foldl (fun venue input =>
      venue.handle input.connection input.message input.now input.answered) venue
  else venue).stop

/-- The files that a session leaves. -/
def filesAfter : List StoredFile :=
  match (session.run files).engine.journal with
  | none => files
  | some log => log.journal.disk.files

/-- The records of a session. -/
def records : List Record :=
  match (session.run files).engine.journal with
  | none => []
  | some log => log.records

end VenueSession

/-- The records of sessions that follow one another, session by session. -/
def sessionRecords : List StoredFile → List VenueSession → List (List Record)
  | _, [] => []
  | files, session :: sessions =>
    session.records files :: sessionRecords (session.filesAfter files) sessions

/-- The files that are there in the end. -/
def filesAfterAll (files : List StoredFile) (sessions : List VenueSession) : List StoredFile :=
  Machine.run (fun files session => session.filesAfter files) files sessions

/-- A journal directory with these files. -/
def journalDirectory (path : List Char) (files : List StoredFile) : JournalDirectory where
  path := path
  isDirectory := true
  files := files.map fun file => { name := file.name, contents := file.contents }

/-! ## One session -/

/-- In the range of its fields' types, whatever the length of a symbol. -/
def Record.Typed (record : Record) : Prop :=
  { record with instrument := { record.instrument with symbol := [] } }.Fits

theorem Record.Typed.fits {record : Record} (hTyped : record.Typed)
    (hSymbol : record.type = .instrumentDefined → record.instrument.symbol.length < 2 ^ 16) :
    record.Fits := by
  obtain ⟨hSequence, hTime, hPayload⟩ := hTyped
  refine ⟨hSequence, hTime, ?_⟩
  cases hType : record.type with
  | instrumentDefined =>
    rw [hType] at hPayload
    obtain ⟨hId, -, hRest⟩ := hPayload
    exact ⟨hId, hSymbol hType, hRest⟩
  | _ =>
    rw [hType] at hPayload
    exact hPayload

/-- A session that starts and in which no call fails, on a directory that does not run
out of names for segments. -/
structure VenueSession.Smooth (files : List StoredFile) (session : VenueSession) : Prop where
  disk : session.disk.Flawless
  started : (session.start files).2 = true
  room : ∀ log, (session.run files).engine.journal = some log →
    log.journal.segmentIndex < kMaxSegmentIndex
  typed : ∀ record ∈ session.records files, record.Typed

/-- What a session has recorded: definitions of all its instruments and commands on
them, numbered from one on. -/
structure VenueSession.Recorded (session : VenueSession) (records : List Record) : Prop where
  numbers : records.map Record.sequence = List.range' 1 records.length
  defines : ∀ record ∈ records, record.type = .instrumentDefined →
    record.instrument ∈ session.config.instruments
  defined : ∀ instrument ∈ session.config.instruments,
    ∃ record ∈ records, record.type = .instrumentDefined ∧ record.instrument = instrument
  unlisted : session.config.instruments = [] → records = []

/-- The files as a listing of names and contents. -/
def entries (files : List StoredFile) : List (List Char × List UInt8) :=
  files.map fun file => (file.name, file.contents)

section Session

open MatchingEngine

variable {others : List (List Char × List UInt8)} {chunks : List (List Record)}
  {files : List StoredFile} {session : VenueSession}

@[simp] theorem Venue.engine_listen (venue : Venue) (feed gateway : CallResult) :
    (venue.listen feed gateway).1.engine = venue.engine := by
  unfold Venue.listen
  split
  · rfl
  split <;> rfl

/-- The venue once its journal is open. -/
def VenueSession.ready (session : VenueSession) (files : List StoredFile) : Venue where
  config := { session.config with journal := some session.journal }
  engine :=
    { journal := some
        ⟨JournalWriter.opened session.journal { session.disk with files := files }, []⟩
      risk := some session.risk
      kill := some session.kill }

theorem VenueSession.start_eq
    (hOpened : ({ config := session.journal, disk := { session.disk with files := files } } :
      JournalWriter).openJournal.2 = true) :
    session.start files =
      let (venue, registered) :=
        (session.ready files).register session.clock session.config.instruments
      if !registered then (venue, false) else venue.listen session.feed session.gateway := by
  unfold VenueSession.start Venue.start Venue.openJournal
  dsimp only
  rw [hOpened]
  rfl

/-- A started venue has its instruments in the journal, behind what was there. -/
theorem VenueSession.started_spec (hDisk : session.disk.Flawless) (hOthers : NoSegments others)
    (hFiles : entries files = others ++ segmentFiles (chunks.map encodeAll))
    (hBound : chunks.length < kMaxSegmentIndex) (hStarted : (session.start files).2 = true) :
    ∃ log, Journaling others session.journal chunks.flatten session.config.instruments
        (session.start files).1.engine log ∧
      (∀ instrument ∈ session.config.instruments, ∃ record ∈ log.records,
        record.type = .instrumentDefined ∧ record.instrument = instrument) ∧
      (session.config.instruments = [] →
        (session.start files).1.engine.books = ∅ ∧ log.records = []) := by
  have hDisk' : ({ session.disk with files := files } : Disk).Flawless :=
    ⟨hDisk.creation, hDisk.opens, hDisk.persists, hDisk.writes, hDisk.writesAfter⟩
  obtain ⟨hOpened, hCarrying⟩ :=
    carrying_opened chunks session.journal hDisk' hOthers hFiles hBound
  have hReady : Journaling others session.journal chunks.flatten session.config.instruments
      (session.ready files).engine ⟨JournalWriter.opened session.journal _, []⟩ :=
    ⟨rfl, rfl, fun _ hNone => absurd hNone not_mem_nil, Or.inl ⟨chunks, [], hCarrying, rfl⟩⟩
  rw [VenueSession.start_eq hOpened] at hStarted ⊢
  dsimp only at hStarted ⊢
  cases hRegistered : ((session.ready files).register session.clock
    session.config.instruments).2 with
  | false =>
    rw [hRegistered] at hStarted
    cases hStarted
  | true =>
    obtain ⟨log, hJournaling, -, hAll⟩ :=
      Venue.journaling_register (fun _ hMember => hMember) hReady hRegistered
    refine ⟨log, ?_, hAll, fun hNone => ?_⟩
    · simpa using hJournaling
    · have hNothing : (session.ready files).register session.clock session.config.instruments =
          (session.ready files, true) := by
        rw [hNone, Venue.register]
      rw [hNothing] at hJournaling ⊢
      have hLog : (session.ready files).engine.journal = some log := hJournaling.journal
      rw [hReady.journal] at hLog
      refine ⟨?_, ?_⟩
      · rw [Bool.not_true, if_neg Bool.false_ne_true, Venue.engine_listen]
        rfl
      · rw [← Option.some.inj hLog]
        rfl

/-- The messages of a session. -/
def VenueSession.handleAll (session : VenueSession) (venue : Venue) : Venue :=
  session.inputs.foldl (fun venue input =>
    venue.handle input.connection input.message input.now input.answered) venue

theorem VenueSession.exists_events_handleAll (venue : Venue) :
    ∃ events, (session.handleAll venue).engine = venue.engine.run events ∧
      ∀ event ∈ events, OnlyCommands event := by
  unfold VenueSession.handleAll
  induction session.inputs generalizing venue with
  | nil => exact ⟨[], rfl, nofun⟩
  | cons input inputs ih =>
    obtain ⟨events, hEngine, hEvents⟩ := Venue.exists_events_handle venue input.connection
      input.now input.answered input.message
    obtain ⟨later, hLast, hLater⟩ := ih (venue.handle input.connection input.message input.now
      input.answered)
    rw [hEngine] at hLast
    exact ⟨events ++ later, hLast.trans foldl_append.symm,
      forall_mem_append.mpr ⟨hEvents, hLater⟩⟩

theorem VenueSession.handleAll_spec {config : WriterConfig} {earlier : List Record}
    {instruments : List Instrument} {venue : Venue} {log : Logged JournalWriter}
    (hJournaling : Journaling others config earlier instruments venue.engine log) :
    ∃ log', Journaling others config earlier instruments (session.handleAll venue).engine log' ∧
      log.records <+: log'.records ∧ (venue.engine.books = ∅ → log' = log) := by
  obtain ⟨events, hEngine, hEvents⟩ := session.exists_events_handleAll venue
  rw [hEngine]
  obtain ⟨log', hLast, hPrefix⟩ := hJournaling.run fun event hEvent instrument now hAdd =>
    absurd hAdd (hEvents event hEvent instrument now)
  refine ⟨log', hLast, hPrefix, fun hBooks => ?_⟩
  have hJournal := run_unlisted venue.engine hBooks hEvents
  exact Option.some.inj (hLast.journal.symm.trans (hJournal.trans hJournaling.journal))

/-- A session leaves its records in the files, behind what was there. -/
theorem VenueSession.Smooth.spec (hSmooth : session.Smooth files) (hOthers : NoSegments others)
    (hFiles : entries files = others ++ segmentFiles (chunks.map encodeAll))
    (hBound : chunks.length < kMaxSegmentIndex) :
    session.Recorded (session.records files) ∧
      ∃ chunks' : List (List Record), entries (session.filesAfter files) =
          others ++ segmentFiles (chunks'.map encodeAll) ∧
        chunks'.flatten = chunks.flatten ++ session.records files ∧
        chunks'.length < kMaxSegmentIndex := by
  obtain ⟨log, hJournaling, hAll, hNone⟩ :=
    session.started_spec hSmooth.disk hOthers hFiles hBound hSmooth.started
  obtain ⟨log', hJournaling', hPrefix, hSame⟩ := session.handleAll_spec hJournaling
  have hRun : session.run files = (session.handleAll (session.start files).1).stop := by
    unfold VenueSession.run
    dsimp only
    rw [hSmooth.started, if_pos rfl]
    rfl
  have hJournal : (session.run files).engine.journal =
      some { log' with journal := log'.journal.close } := by
    rw [hRun, Venue.stop, hJournaling'.journal]
    rfl
  have hRecords : session.records files = log'.records := by
    rw [VenueSession.records, hJournal]
    rfl
  have hAfter : session.filesAfter files = log'.journal.close.disk.files := by
    rw [VenueSession.filesAfter, hJournal]
  rw [hRecords, hAfter]
  refine ⟨⟨?_, hJournaling'.defines, fun instrument hMember => ?_, fun hEmpty => ?_⟩, ?_⟩
  · have hNumbers := hJournaling'.numbers
    have hLength := congrArg List.length hNumbers
    rw [length_map, length_range'] at hLength
    rw [hLength]
    exact hNumbers
  · obtain ⟨record, hRecord, hType⟩ := hAll instrument hMember
    exact ⟨record, hPrefix.subset hRecord, hType⟩
  · obtain ⟨hBooks, hNothing⟩ := hNone hEmpty
    rw [hSame hBooks, hNothing]
  · obtain ⟨finished, current, hCarrying, hContents⟩ := hJournaling'.carrying.resolve_right <| by
      have hRoom := hSmooth.room _ hJournal
      have hIndex : log'.journal.close.segmentIndex = log'.journal.segmentIndex :=
        log'.journal.segmentIndex_close
      rw [hIndex] at hRoom
      omega
    obtain ⟨-, -, -, written, hListing, hWritten⟩ := hCarrying.close
    refine ⟨finished ++ [current], ?_, ?_, ?_⟩
    · rw [append_nil] at hWritten
      rw [map_append, map_singleton, hWritten]
      exact hListing
    · rw [← hContents]
      simp
    · have hRoom := hSmooth.room _ hJournal
      rw [length_append, length_singleton, ← hCarrying.writing.index,
        ← log'.journal.segmentIndex_close]
      exact hRoom

end Session

/-! ## Many sessions -/

section Sessions

variable {others : List (List Char × List UInt8)}

theorem sessions_spec (hOthers : NoSegments others) {chunks : List (List Record)}
    {files : List StoredFile} {sessions : List VenueSession}
    (hFiles : entries files = others ++ segmentFiles (chunks.map encodeAll))
    (hBound : chunks.length < kMaxSegmentIndex)
    (hSmooth : Machine.Each (fun files session => session.filesAfter files) VenueSession.Smooth
      files sessions) :
    List.Forall₂ VenueSession.Recorded sessions (sessionRecords files sessions) ∧
      (∀ record ∈ (sessionRecords files sessions).flatten, record.Typed) ∧
      ∃ chunks' : List (List Record),
        entries (filesAfterAll files sessions) = others ++ segmentFiles (chunks'.map encodeAll) ∧
        chunks'.flatten = chunks.flatten ++ (sessionRecords files sessions).flatten ∧
        chunks'.length < kMaxSegmentIndex := by
  induction sessions generalizing files chunks with
  | nil =>
    exact ⟨.nil, fun _ hNone => absurd hNone not_mem_nil, chunks, hFiles,
      (append_nil _).symm, hBound⟩
  | cons session sessions ih =>
    obtain ⟨hFirst, hRest⟩ := hSmooth
    obtain ⟨hRecorded, middle, hMiddle, hContents, hMiddleBound⟩ :=
      hFirst.spec hOthers hFiles hBound
    obtain ⟨hAll, hTyped, last, hLast, hContents', hLastBound⟩ := ih hMiddle hMiddleBound hRest
    refine ⟨.cons hRecorded hAll, ?_, last, hLast, ?_, hLastBound⟩
    · exact forall_mem_append.mpr ⟨hFirst.typed, hTyped⟩
    · rw [hContents', hContents, append_assoc]
      rfl

end Sessions

/-! ## Numbers across sessions -/

variable {first : Nat} {records : List Record} {session : VenueSession} {files : List StoredFile}

theorem iterate_nextSequence (n : Nat) (hFirst : first < 2 ^ 64) :
    nextSequence^[n] first = (first + n) % 2 ^ 64 := by
  induction n generalizing first with
  | zero => exact (Nat.mod_eq_of_lt hFirst).symm
  | succ n ih =>
    have hNext : nextSequence first = (first + 1) % 2 ^ 64 := rfl
    rw [Function.iterate_succ_apply, hNext, ih (Nat.mod_lt _ (by decide))]
    omega

theorem consecutive_map_written :
    Consecutive first (records.map Record.written) ↔ Consecutive first records := by
  induction records generalizing first with
  | nil => exact Iff.rfl
  | cons record records ih =>
    rw [map_cons, Consecutive, Consecutive, Record.sequence_written, ih]

theorem VenueSession.Recorded.unlisted_iff (hRecorded : session.Recorded records) :
    session.config.instruments = [] ↔ records = [] := by
  refine ⟨hRecorded.unlisted, fun hNone => ?_⟩
  by_contra hSome
  obtain ⟨instrument, hMember⟩ := exists_mem_of_ne_nil _ hSome
  obtain ⟨record, hRecord, -⟩ := hRecorded.defined instrument hMember
  rw [hNone] at hRecord
  exact not_mem_nil hRecord

/-- The number expected after a session is not one, so no record of another session can
follow. -/
theorem VenueSession.Recorded.next_ne_one
    (hRecorded : session.Recorded records) (hSome : records ≠ [])
    (hTyped : ∀ record ∈ records, record.sequence < 2 ^ 64) :
    nextSequence^[records.length] 1 ≠ 1 := by
  have hPos : 0 < records.length := length_pos_iff.mpr hSome
  have hLast : records.length ∈ records.map Record.sequence := by
    rw [hRecorded.numbers, mem_range'_1]
    omega
  obtain ⟨record, hRecord, hNumber⟩ := mem_map.mp hLast
  have hBound := hTyped record hRecord
  rw [iterate_nextSequence _ (by decide)]
  omega

theorem forall₂_exists_mem {A B : Type} {R : A → B → Prop} {xs : List A} {ys : List B}
    (hAll : List.Forall₂ R xs ys) {x : A} (hx : x ∈ xs) : ∃ y ∈ ys, R x y := by
  induction hAll with
  | nil => exact absurd hx not_mem_nil
  | cons hFirst hRest ih =>
    rcases mem_cons.mp hx with rfl | hLater
    · exact ⟨_, mem_cons_self, hFirst⟩
    · obtain ⟨y, hy, hRelated⟩ := ih hLater
      exact ⟨y, mem_cons_of_mem _ hy, hRelated⟩

section Blocks

variable {sessions : List VenueSession} {blocks : List (List Record)}
  (hAll : List.Forall₂ VenueSession.Recorded sessions blocks)
include hAll

/-- After another number than the first one, no session has recorded anything. -/
theorem unlisted_of_consecutive
    {first : Nat} (hFirst : first ≠ 1) (hConsecutive : Consecutive first blocks.flatten) :
    ∀ session ∈ sessions, session.config.instruments = [] := by
  induction hAll with
  | nil => exact fun _ hNone => absurd hNone not_mem_nil
  | @cons session records sessions blocks hRecorded hAll ih =>
    rw [flatten_cons] at hConsecutive
    obtain rfl : records = [] := by
      cases records with
      | nil => rfl
      | cons record records =>
        -- The first record of a session has number one.
        have hNumbers := hRecorded.numbers
        rw [map_cons, length_cons, List.range'_succ] at hNumbers
        exact absurd (hConsecutive.1.symm.trans (List.cons.inj hNumbers).1) hFirst
    exact forall_mem_cons.mpr ⟨hRecorded.unlisted_iff.mpr rfl, ih hConsecutive⟩

theorem pairwise_of_consecutive (hTyped : ∀ record ∈ blocks.flatten, record.sequence < 2 ^ 64)
    (hConsecutive : Consecutive 1 blocks.flatten) :
    sessions.Pairwise fun session other =>
      session.config.instruments = [] ∨ other.config.instruments = [] := by
  induction hAll with
  | nil => exact .nil
  | @cons session records sessions blocks hRecorded hAll ih =>
    rw [flatten_cons] at hTyped hConsecutive
    have hTyped' : ∀ record ∈ blocks.flatten, record.sequence < 2 ^ 64 :=
      fun record hRecord => hTyped record (mem_append_right _ hRecord)
    obtain ⟨-, hRest⟩ := consecutive_append.mp hConsecutive
    by_cases hNone : records = []
    · subst hNone
      exact .cons (fun _ _ => Or.inl (hRecorded.unlisted_iff.mpr rfl)) (ih hTyped' hRest)
    have hNext := hRecorded.next_ne_one hNone fun record hRecord =>
      hTyped record (mem_append_left _ hRecord)
    have hOthers := unlisted_of_consecutive hAll hNext hRest
    refine .cons (fun other hOther => Or.inr (hOthers other hOther)) ?_
    exact pairwise_of_forall_mem_list fun other hOther _ _ =>
      Or.inl (hOthers other hOther)

theorem consecutive_of_pairwise (hFits : ∀ record ∈ blocks.flatten, record.Fits)
    (hPairwise : sessions.Pairwise fun session other =>
      session.config.instruments = [] ∨ other.config.instruments = []) :
    Consecutive 1 blocks.flatten := by
  induction hAll with
  | nil => trivial
  | @cons session records sessions blocks hRecorded hAll ih =>
    rw [flatten_cons] at hFits ⊢
    obtain ⟨hFirst, hRest⟩ := pairwise_cons.mp hPairwise
    by_cases hNone : records = []
    · subst hNone
      exact ih (fun record hRecord => hFits record (mem_append_right _ hRecord)) hRest
    have hEmpty : blocks.flatten = [] := by
      refine flatten_eq_nil_iff.mpr fun block hBlock => ?_
      obtain ⟨other, hMem, hOther⟩ := forall₂_exists_mem hAll.flip hBlock
      refine VenueSession.Recorded.unlisted hOther ((hFirst other hMem).resolve_left ?_)
      exact fun hUnlisted => hNone (hRecorded.unlisted hUnlisted)
    rw [hEmpty, append_nil] at hFits ⊢
    exact consecutive_of_sequences hFits hRecorded.numbers

end Blocks

/-- A definition that has been written fits only with its symbol. -/
theorem symbol_of_written {record : Record} (hFits : record.written.Fits)
    (hType : record.type = .instrumentDefined) : record.instrument.symbol.length < 2 ^ 16 := by
  obtain ⟨-, -, hPayload⟩ := hFits
  rw [Record.type_written, hType] at hPayload
  have hSymbol : record.written.instrument.symbol = record.instrument.symbol := by
    rw [Record.written, hType]
  rw [← hSymbol]
  exact hPayload.2.1

instance decidableConsecutive : ∀ first, DecidablePred (Consecutive first)
  | _, [] => inferInstanceAs (Decidable True)
  | first, record :: records =>
    have := decidableConsecutive (nextSequence first) records
    inferInstanceAs (Decidable (record.sequence = first ∧ Consecutive _ records))

theorem visited_journalDirectory (path : List Char) (files : List StoredFile) (first : Nat) :
    Consecutive first (read (journalDirectory path files) first).visited ∧
      ∀ record ∈ (read (journalDirectory path files) first).visited, record.Plain := by
  refine read_visited rfl (fun file hFile => ?_) first
  obtain ⟨stored, -, rfl⟩ := mem_map.mp (JournalDirectory.mem_files_of_mem_segments _ hFile)
  rfl

/-- Only records with consecutive numbers can all be visited. -/
theorem consecutive_of_visited {path : List Char}
    (hVisited : (read (journalDirectory path files) first).visited =
      records.map Record.written) : Consecutive first records := by
  obtain ⟨hConsecutive, -⟩ := visited_journalDirectory path files first
  rw [hVisited] at hConsecutive
  exact consecutive_map_written.mp hConsecutive

/-- Sessions without failures, one after the other on a directory that held no segments.
It reads clean and gives back the records of all of them in order exactly if no two
sessions list instruments, and no symbol is longer than a record can say. -/
theorem sessions_read_clean_iff (path : List Char) (files : List StoredFile)
    (sessions : List VenueSession) (hEmpty : NoSegments (entries files))
    (hSmooth : Machine.Each (fun files session => session.filesAfter files) VenueSession.Smooth
      files sessions) :
    let recovery := read (journalDirectory path (filesAfterAll files sessions)) 1
    (recovery.report.outcome = .clean ∧
        recovery.visited = (sessionRecords files sessions).flatten.map Record.written) ↔
      (sessions.Pairwise fun session other =>
        session.config.instruments = [] ∨ other.config.instruments = []) ∧
      ∀ session ∈ sessions, ∀ instrument ∈ session.config.instruments,
        instrument.symbol.length < 2 ^ 16 := by
  intro recovery
  have hStart : entries files =
      entries files ++ segmentFiles (([] : List (List Record)).map encodeAll) :=
    (List.append_nil _).symm
  obtain ⟨hAll, hTyped, chunks, hFiles, hContents, hBound⟩ :=
    sessions_spec hEmpty hStart (by decide) hSmooth
  rw [List.flatten_nil, List.nil_append] at hContents
  obtain ⟨hSegments, hReadable⟩ : (journalDirectory path (filesAfterAll files
        sessions)).segments.map File.contents = chunks.map encodeAll ∧
      ∀ file ∈ (journalDirectory path (filesAfterAll files sessions)).segments,
        file.readable = true := by
    obtain ⟨writer, hWriter⟩ : ∃ writer : JournalWriter, writer =
        { config := { directory := path }, disk := { files := filesAfterAll files sessions } } :=
      ⟨_, rfl⟩
    have hDirectory : journalDirectory path (filesAfterAll files sessions) = writer.directory := by
      rw [hWriter]
      rfl
    have hListing : writer.disk.listing = entries files ++ segmentFiles (chunks.map encodeAll) := by
      rw [hWriter]
      exact hFiles
    rw [hDirectory]
    exact contents_segments hEmpty (by rw [List.length_map]; exact hBound.le) hListing
  constructor
  · rintro ⟨-, hVisited⟩
    obtain ⟨-, hPlain⟩ := visited_journalDirectory path (filesAfterAll files sessions) 1
    rw [hVisited] at hPlain
    refine ⟨pairwise_of_consecutive hAll (fun record hRecord => (hTyped record hRecord).1)
      (consecutive_of_visited hVisited), fun session hSession instrument hMember => ?_⟩
    obtain ⟨records, hRecords, hRecorded⟩ := forall₂_exists_mem hAll hSession
    obtain ⟨record, hRecord, hType, rfl⟩ := hRecorded.defined instrument hMember
    have hWritten := (hPlain record.written (List.mem_map_of_mem
      (List.mem_flatten.mpr ⟨records, hRecords, hRecord⟩))).1
    exact symbol_of_written hWritten hType
  · rintro ⟨hPairwise, hSymbols⟩
    have hFits : ∀ record ∈ (sessionRecords files sessions).flatten, record.Fits := by
      intro record hRecord
      refine (hTyped record hRecord).fits fun hType => ?_
      obtain ⟨records, hRecords, hMember⟩ := List.mem_flatten.mp hRecord
      obtain ⟨session, hSession, hRecorded⟩ := forall₂_exists_mem hAll.flip hRecords
      exact hSymbols session hSession _
        (VenueSession.Recorded.defines hRecorded record hMember hType)
    have hConsecutive := consecutive_of_pairwise hAll hFits hPairwise
    rw [← hContents] at hFits hConsecutive ⊢
    obtain ⟨hVisited, hClean⟩ := read_encoded rfl hReadable hSegments hFits hConsecutive
    exact ⟨hClean, hVisited⟩

/-- A session that registers one instrument and takes one order. -/
def listingSession : VenueSession where
  config := { instruments := [sampleListing .cancelIncoming] }
  journal := { directory := [] }
  inputs := [⟨1, { type := .newOrder, newOrder := sampleNewOrder 1 1 .buy 1 5 false }, 2, 3⟩]

/-- A session without instruments. -/
def idleSession : VenueSession where
  journal := { directory := [] }

instance : DecidablePred Record.Typed := fun _ => inferInstanceAs (Decidable (Record.Fits _))

/-- Nothing fails on a disk that nobody has said anything else about. -/
theorem smooth_of_defaultDisk
    (hDisk : session.disk = {}) (hStarted : (session.start files).2 = true) (index : Nat)
    (hIndex : (session.run files).engine.journal.map (fun log => log.journal.segmentIndex) =
      some index) (hRoom : index < kMaxSegmentIndex)
    (hTyped : ∀ record ∈ session.records files, record.Typed) : session.Smooth files := by
  refine ⟨?_, hStarted, fun log hLog => ?_, hTyped⟩
  · rw [hDisk]
    exact ⟨rfl, by decide, by decide, by decide, rfl⟩
  · rw [hLog] at hIndex
    have hSame : log.journal.segmentIndex = index := Option.some.inj hIndex
    omega

theorem sessions_read_clean_listing :
    (sessionRecords [] [listingSession, idleSession]).map List.length = [2, 0] ∧
      (read (journalDirectory [] (filesAfterAll [] [listingSession, idleSession]))
        1).report.outcome = .clean := by
  have hListing : listingSession.Smooth [] :=
    smooth_of_defaultDisk rfl (by decide +kernel) 1 (by decide +kernel) (by decide)
      (by decide +kernel)
  have hIdle : idleSession.Smooth (listingSession.filesAfter []) :=
    smooth_of_defaultDisk rfl (by decide +kernel) 2 (by decide +kernel) (by decide)
      (by decide +kernel)
  have hClean := (sessions_read_clean_iff [] [] [listingSession, idleSession] nofun
    ⟨hListing, hIdle, trivial⟩).mpr (by decide)
  exact ⟨by decide +kernel, hClean.1⟩

/-- The second of two sessions numbers its records from one again, which reads as a
gap. -/
theorem second_session_reads_as_gap :
    ¬ ((read (journalDirectory [] (filesAfterAll [] [listingSession, listingSession]))
        1).report.outcome = .clean ∧
      (read (journalDirectory [] (filesAfterAll [] [listingSession, listingSession])) 1).visited =
        (sessionRecords [] [listingSession, listingSession]).flatten.map Record.written) := by
  rintro ⟨-, hVisited⟩
  have hNumbers : ¬ Consecutive 1 (sessionRecords [] [listingSession, listingSession]).flatten := by
    decide +kernel
  generalize filesAfterAll [] [listingSession, listingSession] = files at hVisited
  generalize (sessionRecords [] [listingSession, listingSession]).flatten = records
    at hVisited hNumbers
  exact hNumbers (consecutive_of_visited hVisited)

/-! ## Replaying the directory -/

section Replay

open MatchingEngine

variable {J : Type} [JournalSink J] (replayer : Replayer J)

/-- Read a journal and apply all of it that is recoverable. -/
def Replayer.replay (directory : JournalDirectory) : Replayer J × RecoveryReport :=
  let recovery := read directory 1
  (replayer.applyAll recovery.visited, recovery.report)

/-- Of what a replay reads, only the expected size of a book is not written. -/
theorem Replayer.applyAll_written {records : List Record}
    (hSized : ∀ record ∈ records, record.type = .instrumentDefined →
      record.instrument.expectedRestingOrders = 4096) :
    replayer.applyAll (records.map Record.written) = replayer.applyAll records := by
  rw [applyAll, Machine.run, foldl_map]
  refine foldl_ext _ _ _ fun replayer record hRecord => ?_
  unfold apply Record.written
  cases hType : record.type with
  | instrumentDefined =>
    dsimp only
    rw [← hSized record hRecord hType]
  | _ => rfl

/-- Replaying the closed journal of a run on a disk where nothing fails rebuilds the
market, and the journal reads clean. -/
theorem replay_rebuilds (config : WriterConfig) (disk : Disk) (hDisk : disk.Flawless)
    (hEmpty : NoSegments disk.listing) (risk : Option RiskEngine) (kill : Option KillSwitch)
    (instruments : List Instrument)
    (hSized : ∀ instrument ∈ instruments, instrument.expectedRestingOrders = 4096)
    (events : List Event) (hEvents : ∀ event ∈ events, ∀ instrument now,
      event = .addInstrument instrument now → instrument ∈ instruments)
    (engine : MatchingEngine (Logged JournalWriter))
    (hRun : (start (some { journal := .opened config disk }) risk kill).run events = engine)
    (log : Logged JournalWriter) (hLog : engine.journal = some log) (hTaken : log.AllTaken)
    (hRoom : log.journal.segmentIndex < kMaxSegmentIndex)
    (hFits : ∀ record ∈ log.records, record.Fits) :
    let replayed := Replayer.fresh.replay log.journal.close.directory
    replayed.1.engine.market = engine.market ∧ replayed.2.outcome = .clean := by
  obtain ⟨-, hOpened⟩ := carrying_opened [] config hDisk hEmpty (List.append_nil _).symm (by decide)
  have hStart : Journaling disk.listing config [] instruments
      (start (some { journal := .opened config disk }) risk kill)
      { journal := .opened config disk } :=
    ⟨rfl, rfl, fun _ hNone => absurd hNone List.not_mem_nil, Or.inl ⟨[], [], hOpened, rfl⟩⟩
  obtain ⟨_, hJournaling, -⟩ := hStart.run hEvents
  obtain ⟨_, hLog', hReplay⟩ := replayable_run (JournalWriter.opened config disk) risk kill events
  rw [hRun] at hJournaling hLog' hReplay
  cases hLog.symm.trans hJournaling.journal
  cases hLog.symm.trans hLog'
  obtain ⟨finished, current, hCarrying, hContents⟩ := hJournaling.carrying.resolve_right (by omega)
  have hCount := congrArg List.length hJournaling.numbers
  rw [List.length_map, List.length_range'] at hCount
  have hConsecutive := consecutive_of_sequences hFits (hCount ▸ hJournaling.numbers)
  rw [List.nil_append] at hContents
  rw [← hContents] at hFits hConsecutive
  obtain ⟨-, hVisited, hClean⟩ := read_of_closed hCarrying.close hFits hConsecutive
  have hMarket := (hReplay hTaken).1
  rw [← Replayer.applyAll_written _ fun _ hRecord hType =>
    hSized _ (hJournaling.defines _ hRecord hType), ← hContents, ← hVisited] at hMarket
  exact ⟨hMarket, hClean⟩

def tradedListing : Instrument := { id := ⟨1⟩, symbol := [88], minPrice := 1, maxPrice := 3 }

/-- An offer is amended and then bought in part, by accounts with a risk engine and a kill
switch, into segments of two hundred bytes. -/
def tradedRun : MatchingEngine (Logged JournalWriter) :=
  (start (some { journal := .opened { directory := [], segmentBytes := 200 } {} })
    (some (({} : RiskEngine).configure ⟨1⟩ { maxPosition := 10 })) (some {})).run
      [.addInstrument tradedListing 1, .submit (sampleNewOrder 1 1 .sell 2 5 false) 2,
        .replace (sampleReplace 1 1 3 5) 3, .submit (sampleNewOrder 2 2 .buy 3 3 false) 4]

theorem replay_rebuilds_traded :
    tradedRun.fills.length = 1 ∧ ∃ log ∈ tradedRun.journal, log.journal.segmentIndex = 2 ∧
      (Replayer.fresh.replay log.journal.close.directory).1.engine.market = tradedRun.market ∧
      (Replayer.fresh.replay log.journal.close.directory).2.outcome = .clean := by
  obtain ⟨log, hLog, hSecond, hTaken, hFits⟩ : ∃ log ∈ tradedRun.journal,
      log.journal.segmentIndex = 2 ∧ log.AllTaken ∧ ∀ record ∈ log.records, record.Fits := by
    decide +kernel
  refine ⟨by decide +kernel, log, hLog, hSecond, ?_⟩
  exact replay_rebuilds _ {} ⟨rfl, by decide, by decide, by decide, rfl⟩ (by decide) _ _
    [tradedListing] (by decide) _ (by simp +contextual [eq_comm]) tradedRun rfl log hLog hTaken
    (by rw [hSecond]; decide) hFits

end Replay

end ExchangeCore
