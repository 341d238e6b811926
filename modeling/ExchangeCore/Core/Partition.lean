import ExchangeCore.Core.ClientCommands

/-!
# Instruments can be partitioned across engines

An engine shares its numbering, its buffers and its reused record among all its
instruments.  None of that carries anything from one instrument to another: the
commands addressed to one instrument, run on an engine that has only this
instrument, get the same replies and fills and build the same queues, except that
the engine of its own counts its commands without the gaps the others leave.

The gaps are described by a strictly increasing function from the numbers of the
engine of its own (`solo`) to those of the shared engine (`shared`).  It is extended
by one value with every command, so two functions appear in a step: the one before
and `joined`, which goes on from the numbers both engines have reached.
-/

namespace ExchangeCore

open PriceTime

/-- Follow `f` up to `n`, and count on from `m` after it. -/
def joined (f : Nat → Nat) (n m : Nat) (k : Nat) : Nat := if k ≤ n then f k else m + (k - n)

section Joined

variable {f : Nat → Nat} {n m : Nat}

theorem joined_of_le {k : Nat} (hLe : k ≤ n) : joined f n m k = f k := if_pos hLe

theorem joined_succ (f : Nat → Nat) (n m : Nat) : joined f n m (n + 1) = m + 1 := by
  rw [joined, if_neg (by omega)]
  omega

theorem strictMono_joined (hMono : StrictMono f) (hReached : f n ≤ m) :
    StrictMono (joined f n m) := by
  intro a b hLt
  unfold joined
  by_cases hb : b ≤ n
  · rw [if_pos (by omega), if_pos hb]
    exact hMono hLt
  by_cases ha : a ≤ n
  · have hBelow : f a ≤ f n := hMono.monotone ha
    rw [if_pos ha, if_neg hb]
    omega
  · rw [if_neg ha, if_neg hb]
    omega

end Joined

namespace MatchingEngine

variable {J : Type} [JournalSink J]

/-- The commands addressed to one instrument. -/
def addressedTo (id : InstrumentId) (commands : List TimedCommand) : List TimedCommand :=
  commands.filter fun command => decide (command.1.instrument = id)

/-- What a run shows to those who trade one instrument. -/
def answersTo (id : InstrumentId) (engine : MatchingEngine J) :
    List TimedCommand → List (ClientReply × List Fill)
  | [] => []
  | (command, now) :: commands =>
    if command.instrument = id then
      ((engine.obey now command).2, (engine.obey now command).1.fills) ::
        answersTo id (engine.obey now command).1 commands
    else
      answersTo id (engine.obey now command).1 commands

/-- What the two engines have in common for one instrument, by the numbering `f`. -/
structure Projects (f : Nat → Nat) (id : InstrumentId) (solo shared : MatchingEngine J) :
    Prop where
  unguarded : solo.Unguarded
  unguarded_shared : shared.Unguarded
  housed : solo.Housed
  housed_shared : shared.Housed
  listed : (solo.bookFor id).isSome = true
  mono : StrictMono f
  zero : f 0 = 0
  reached : f solo.sequence ≤ shared.sequence
  book : shared.absBook id = (solo.absBook id).map (Book.renumber f)
  stamps : ∀ book, solo.absBook id = some book → book.Timed (solo.sequence + 1)

section Step

variable {f g : Nat → Nat} {id : InstrumentId} {solo shared : MatchingEngine J}

/-- The books correspond by any numbering that is right about the numbers so far. -/
theorem Projects.book_congr (hProjects : Projects f id solo shared)
    (hAgree : ∀ n ≤ solo.sequence, g n = f n) :
    shared.absBook id = (solo.absBook id).map (Book.renumber g) := by
  rw [hProjects.book]
  refine Option.map_congr fun book hBook => Book.renumber_congr fun side order hMem => ?_
  have hStamp := (hProjects.stamps book hBook).before side order hMem
  exact (hAgree order.sequence (by omega)).symm

variable {command : ClientCommand} (hProjects : Projects f id solo shared)
include hProjects

/-- Queues stay stamped in the order of their numbers. -/
theorem Projects.stamps_obey (now : Int) (hOwn : command.instrument = id) (book : Book)
    (hBook : (solo.obey now command).1.absBook id = some book) :
    book.Timed ((solo.obey now command).1.sequence + 1) := by
  have hCases := obey_cases hProjects.unguarded now command
  generalize solo.obey now command = result at hCases hBook ⊢
  cases hCases with
  | turnedAway engine' reason _ hFrame hBooks =>
    rw [absBook_of_books hBooks] at hBook
    rw [hFrame.sequence]
    exact hProjects.stamps book hBook
  | carriedOut engine' target outcome hTarget _ hOutcome _ _ hSequence hBooks =>
    rw [absBook, ← hOwn, bookFor_of_books hBooks, if_pos rfl] at hBook
    cases hBook
    have hTimed : target.abs.Timed (solo.sequence + 1) :=
      hProjects.stamps target.abs (by rw [absBook, ← hOwn, hTarget]; rfl)
    have hKept := (hProjects.housed _ _ hTarget).1
    have hStep := hKept.timed hTimed [] [] (command.stamped (solo.sequence + 1) now)
      fun stamp hStamp => by cases command <;> cases hStamp <;> exact le_rfl
    rw [← hOutcome, hSequence]
    refine hStep.mono ?_
    cases command with
    | submit command => exact le_rfl
    | cancel command => exact Nat.le_succ _
    | replace command => exact le_rfl

/-- A command to the instrument keeps the engines together, on the extended numbering. -/
theorem Projects.obey_own (now : Int) (hOwn : command.instrument = id) :
    Projects (joined f solo.sequence shared.sequence) id (solo.obey now command).1
      (shared.obey now command).1 := by
  have hZero : joined f solo.sequence shared.sequence 0 = 0 :=
    (joined_of_le (Nat.zero_le _)).trans hProjects.zero
  have hMono := strictMono_joined hProjects.mono hProjects.reached
  have hSolo := obey_cases hProjects.unguarded now command
  have hShared := obey_cases hProjects.unguarded_shared now command
  obtain ⟨-, -, hBook, hSequence⟩ := obey_renumbered hProjects.unguarded
    hProjects.unguarded_shared hProjects.housed hProjects.housed_shared hZero now command
    (fun _ => joined_succ f solo.sequence shared.sequence)
    (hOwn ▸ hProjects.book_congr fun n hLe => joined_of_le hLe)
  refine
    { unguarded := hProjects.unguarded.obey now command
      unguarded_shared := hProjects.unguarded_shared.obey now command
      housed := hSolo.housed hProjects.housed
      housed_shared := hShared.housed hProjects.housed_shared
      listed := (hSolo.isSome_bookFor id).trans hProjects.listed
      mono := hMono
      zero := hZero
      reached := ?_
      book := hOwn ▸ hBook
      stamps := hProjects.stamps_obey now hOwn }
  rcases hSequence with ⟨hSame, hSame'⟩ | ⟨hNext, hNext'⟩
  · rw [hSame, hSame', joined_of_le le_rfl]
    exact hProjects.reached
  · rw [hNext, hNext', joined_succ]

/-- A command to another instrument passes the instrument by. -/
theorem Projects.obey_other (now : Int) (hOther : command.instrument ≠ id) :
    Projects f id solo (shared.obey now command).1 := by
  have hShared := obey_cases hProjects.unguarded_shared now command
  refine
    { hProjects with
      unguarded_shared := hProjects.unguarded_shared.obey now command
      housed_shared := hShared.housed hProjects.housed_shared
      reached := ?_
      book := ?_ }
  · have hReached := hProjects.reached
    rcases hShared.sequence with hSame | hNext <;> omega
  · rw [absBook, hShared.bookFor_of_ne hOther.symm]
    exact hProjects.book

/-- A run on the shared engine and what it is for one instrument. -/
theorem Projects.run (commands : List TimedCommand) :
    ∃ g, (∀ n ≤ solo.sequence, g n = f n) ∧
      Projects g id (solo.after (addressedTo id commands)) (shared.after commands) ∧
      answersTo id shared commands =
        (solo.answers (addressedTo id commands)).map fun answer =>
          (answer.1.renumber g, answer.2) := by
  induction commands generalizing f solo shared with
  | nil => exact ⟨f, fun _ _ => rfl, hProjects, rfl⟩
  | cons timed commands ih =>
    obtain ⟨command, now⟩ := timed
    by_cases hOwn : command.instrument = id
    · have hStep := hProjects.obey_own now hOwn
      obtain ⟨g, hAgree, hFinal, hAnswers⟩ := ih hStep
      -- The final numbering is right about this command's number too.
      have hBelow : solo.sequence ≤ (solo.obey now command).1.sequence := by
        rcases (obey_cases hProjects.unguarded now command).sequence with h | h <;> omega
      have hEarlier : ∀ n ≤ solo.sequence, g n = f n := fun n hLe =>
        (hAgree n (hLe.trans hBelow)).trans (joined_of_le hLe)
      have hNumber : (solo.obey now command).1.sequence = solo.sequence + 1 →
          g (solo.sequence + 1) = shared.sequence + 1 := fun hNext => by
        rw [hAgree _ hNext.ge, joined_succ]
      obtain ⟨hReply, hFills, -⟩ := obey_renumbered hProjects.unguarded
        hProjects.unguarded_shared hProjects.housed hProjects.housed_shared hFinal.zero now
        command hNumber (hOwn ▸ hProjects.book_congr hEarlier)
      have hFilter : addressedTo id ((command, now) :: commands) =
          (command, now) :: addressedTo id commands :=
        List.filter_cons_of_pos (decide_eq_true hOwn)
      refine ⟨g, hEarlier, hFilter ▸ hFinal, ?_⟩
      rw [hFilter, answersTo, if_pos hOwn, answers, List.map_cons, hReply, hFills, hAnswers]
    · obtain ⟨g, hAgree, hFinal, hAnswers⟩ := ih (hProjects.obey_other now hOwn)
      have hFilter : addressedTo id ((command, now) :: commands) = addressedTo id commands :=
        List.filter_cons_of_neg (by simpa using hOwn)
      refine ⟨g, hAgree, hFilter ▸ hFinal, ?_⟩
      rw [hFilter, answersTo, if_neg hOwn, hAnswers]

end Step

/-! ## Engines before trading begins -/

/-- An engine with nothing attached and these instruments registered, in order, at the
given readings of the clock. -/
def listing (instruments : List (Instrument × Int)) : MatchingEngine J :=
  (start none none none).run (instruments.map fun entry => .addInstrument entry.1 entry.2)

/-- Nothing is attached, every book is empty, and every instrument was fit to be
registered. -/
structure Untraded (engine : MatchingEngine J) : Prop where
  journal : engine.journal = none
  risk : engine.risk = none
  kill : engine.kill = none
  book : ∀ id book, engine.bookFor id = some book →
    book.abs = { instrument := book.instrument } ∧ 0 < engine.sequence ∧
      book.instrument.id.valid = true ∧ book.instrument.symbol.isEmpty = false

section Untraded

variable {engine : MatchingEngine J}

theorem Untraded.unguarded (hUntraded : engine.Untraded) : engine.Unguarded := by
  refine ⟨fun journal hJournal => ?_, hUntraded.risk, hUntraded.kill⟩
  rw [hUntraded.journal] at hJournal
  contradiction

/-- Without a journal an instrument that is fit and free is registered, and any other
leaves the engine as it is. -/
theorem addInstrument_of_journal (hJournal : engine.journal = none) (instrument : Instrument)
    (now : Int) :
    (engine.addInstrument instrument now).1 =
      if instrument.id.valid = true ∧ instrument.symbol.isEmpty = false ∧
          engine.bookFor instrument.id = none ∧ engine.symbols.lookup instrument.symbol = none then
        { engine with sequence := engine.sequence + 1 }.register instrument
      else engine := by
  have hAppend : ∀ record, { engine with sequence := engine.sequence + 1 }.append record now =
      ({ engine with sequence := engine.sequence + 1 }, true) := by
    intro record
    simp only [append, hJournal]
  unfold addInstrument
  dsimp only
  rw [hAppend]
  cases instrument.id.valid <;> cases instrument.symbol.isEmpty <;>
    cases engine.bookFor instrument.id <;> cases engine.symbols.lookup instrument.symbol <;> rfl

variable {instrument : Instrument} {instruments : List (Instrument × Int)}

theorem Untraded.addInstrument (hUntraded : engine.Untraded)
    (hTick : 0 < instrument.tickSize) (now : Int) :
    (engine.addInstrument instrument now).1.Untraded := by
  rw [addInstrument_of_journal hUntraded.journal]
  split
  · next hFit =>
      refine ⟨hUntraded.journal, hUntraded.risk, hUntraded.kill, fun id book hBook => ?_⟩
      rw [bookFor, register, bookFor_insert] at hBook
      split at hBook
      · cases hBook
        exact ⟨OrderBook.abs_create hTick _, Nat.succ_pos _, hFit.1, hFit.2.1⟩
      · obtain ⟨hAbs, -, hId, hSymbol⟩ := hUntraded.book id book hBook
        exact ⟨hAbs, Nat.succ_pos _, hId, hSymbol⟩
  · exact hUntraded

omit [JournalSink J] in
theorem untraded_start : (start none none none : MatchingEngine J).Untraded := by
  refine ⟨rfl, rfl, rfl, fun id book hBook => ?_⟩
  have hNone : (start none none none : MatchingEngine J).bookFor id = none := AList.lookup_empty id
  rw [hNone] at hBook
  contradiction

section

variable (hTicked : ∀ entry ∈ instruments, 0 < entry.1.tickSize)
include hTicked

theorem ticked_listing :
    ∀ event ∈ instruments.map (fun entry => Event.addInstrument entry.1 entry.2), event.Ticked := by
  intro event hEvent
  obtain ⟨entry, hEntry, rfl⟩ := List.mem_map.mp hEvent
  exact hTicked entry hEntry

theorem housed_listing : (listing instruments : MatchingEngine J).Housed :=
  (housed_start none none none).run (ticked_listing hTicked)

theorem untraded_listing : (listing instruments : MatchingEngine J).Untraded := by
  unfold listing
  generalize hStart : (start none none none : MatchingEngine J) = engine
  have hUntraded : engine.Untraded := hStart ▸ untraded_start
  clear hStart
  induction instruments generalizing engine with
  | nil => exact hUntraded
  | cons entry instruments ih =>
    exact ih (fun other hOther => hTicked other (List.mem_cons_of_mem _ hOther)) _
      (hUntraded.addInstrument (hTicked entry List.mem_cons_self) entry.2)

end

/-- The engine of one instrument. -/
theorem listing_singleton (hValid : instrument.id.valid = true)
    (hSymbol : instrument.symbol.isEmpty = false) (now : Int) :
    (listing [(instrument, now)] : MatchingEngine J).sequence = 1 ∧
      (listing [(instrument, now)] : MatchingEngine J).bookFor instrument.id =
        some (OrderBook.create instrument instrument.expectedRestingOrders) := by
  have hRegistered : (listing [(instrument, now)] : MatchingEngine J) =
      { start none none none with sequence := 1 }.register instrument :=
    (addInstrument_of_journal rfl instrument now).trans
      (if_pos ⟨hValid, hSymbol, AList.lookup_empty _, AList.lookup_empty _⟩)
  rw [hRegistered]
  refine ⟨rfl, ?_⟩
  rw [bookFor, register, bookFor_insert, if_pos rfl]

/-- Before trading begins, the two engines correspond. -/
theorem projects_listing (hTicked : ∀ entry ∈ instruments, 0 < entry.1.tickSize)
    (hListed : (listing instruments : MatchingEngine J).findInstrument instrument.id =
      some instrument) (now : Int) :
    ∃ f, Projects f instrument.id (listing [(instrument, now)] : MatchingEngine J)
      (listing instruments) := by
  have hUntraded := untraded_listing (J := J) hTicked
  obtain ⟨book, hBook, hInstrument⟩ := Option.map_eq_some_iff.mp hListed
  have hTick : 0 < instrument.tickSize := by
    obtain ⟨q, free, hRep, -⟩ := (housed_listing hTicked _ _ hBook).1.sound
    rw [← hInstrument]
    exact hRep.tick_pos
  have hTickedSolo : ∀ entry ∈ [(instrument, now)], 0 < entry.1.tickSize := by
    intro entry hEntry
    rw [List.mem_singleton.mp hEntry]
    exact hTick
  obtain ⟨hAbs, hPos, hValid, hSymbol⟩ := hUntraded.book _ _ hBook
  rw [hInstrument] at hAbs hValid hSymbol
  obtain ⟨hSequence, hSolo⟩ := listing_singleton (J := J) hValid hSymbol now
  -- Number 1 is the registration of the instrument; the shared engine has come further.
  refine ⟨joined id 0 ((listing instruments : MatchingEngine J).sequence - 1),
    { unguarded := (untraded_listing hTickedSolo).unguarded
      unguarded_shared := hUntraded.unguarded
      housed := housed_listing hTickedSolo
      housed_shared := housed_listing hTicked
      listed := by rw [hSolo]; rfl
      mono := strictMono_joined strictMono_id (Nat.zero_le _)
      zero := rfl
      reached := ?_
      book := ?_
      stamps := ?_ }⟩
  · rw [hSequence, joined_succ]
    omega
  · rw [absBook, absBook, hBook, hSolo, Option.map_some, Option.map_some, Option.map_some, hAbs,
      OrderBook.abs_create hTick]
    rfl
  · intro after hAfter
    rw [absBook, hSolo, Option.map_some, OrderBook.abs_create hTick] at hAfter
    rw [← Option.some.inj hAfter]
    exact Book.timed_empty instrument _

end Untraded

/-- For every run on an engine with any instruments and every instrument among them:
run on an engine that has only this instrument, the commands addressed to it get the
same replies and fills and leave the same queues, up to a strictly increasing
renumbering of the commands.  (In the source the numbers are words, so this is about
fewer than `2 ^ 64` commands.) -/
theorem instruments_partition (instruments : List (Instrument × Int))
    (hTicked : ∀ entry ∈ instruments, 0 < entry.1.tickSize) (instrument : Instrument)
    (hListed : (listing instruments : MatchingEngine J).findInstrument instrument.id =
      some instrument) (registeredAt : Int) (commands : List TimedCommand) :
    ∃ f : Nat → Nat, StrictMono f ∧
      answersTo instrument.id (listing instruments : MatchingEngine J) commands =
        ((listing [(instrument, registeredAt)] : MatchingEngine J).answers
          (addressedTo instrument.id commands)).map (fun answer =>
            (answer.1.renumber f, answer.2)) ∧
      ∃ book own, ((listing instruments : MatchingEngine J).after commands).bookFor instrument.id =
          some book ∧
        ((listing [(instrument, registeredAt)] : MatchingEngine J).after
          (addressedTo instrument.id commands)).bookFor instrument.id = some own ∧
        ∀ side, book.sideOrders side = (own.sideOrders side).map (Order.renumber f) := by
  obtain ⟨start, hStart⟩ := projects_listing hTicked hListed registeredAt
  obtain ⟨f, -, hFinal, hAnswers⟩ := hStart.run commands
  refine ⟨f, hFinal.mono, hAnswers, ?_⟩
  rcases absBook_cases hFinal.book with ⟨hNone, -⟩ | ⟨own, book, hOwn, hBook, hAbs⟩
  · have hListed' := hFinal.listed
    rw [hNone] at hListed'
    contradiction
  · refine ⟨book, own, hBook, hOwn, fun side => ?_⟩
    rw [← OrderBook.queue_abs, ← OrderBook.queue_abs, hAbs, Book.queue_renumber]

/-- Two instruments, of which the first is traded. -/
def pairListing : List (Instrument × Int) :=
  [(sampleListing .allow, 0), ({ sampleListing .allow with id := ⟨2⟩, symbol := [89] }, 0)]

/-- An order of the other instrument between two of the first, under the same id. -/
def interleavedCommands : List TimedCommand :=
  [(.submit (sampleNewOrder 1 1 .buy 2 5 false), 10),
    (.submit { sampleNewOrder 1 1 .buy 3 5 false with instrument := ⟨2⟩ }, 11),
    (.submit (sampleNewOrder 2 2 .sell 2 3 false), 12),
    (.replace (sampleReplace 1 1 1 9), 13)]

theorem instruments_partition_interleaved :
    (∀ entry ∈ pairListing, 0 < entry.1.tickSize) ∧
      (listing pairListing : MatchingEngine Empty).findInstrument (sampleListing .allow).id =
        some (sampleListing .allow) ∧
      ∃ f : Nat → Nat, StrictMono f ∧
        answersTo (sampleListing .allow).id (listing pairListing : MatchingEngine Empty)
            interleavedCommands =
          ((listing [(sampleListing .allow, 0)] : MatchingEngine Empty).answers
            (addressedTo (sampleListing .allow).id interleavedCommands)).map (fun answer =>
              (answer.1.renumber f, answer.2)) ∧
        ∃ book own, ((listing pairListing : MatchingEngine Empty).after interleavedCommands).bookFor
            (sampleListing .allow).id = some book ∧
          ((listing [(sampleListing .allow, 0)] : MatchingEngine Empty).after
            (addressedTo (sampleListing .allow).id interleavedCommands)).bookFor
              (sampleListing .allow).id = some own ∧
          ∀ side, book.sideOrders side = (own.sideOrders side).map (Order.renumber f) := by
  have hTicked : ∀ entry ∈ pairListing, 0 < entry.1.tickSize := by decide
  have hListed : (listing pairListing : MatchingEngine Empty).findInstrument
      (sampleListing .allow).id = some (sampleListing .allow) := by decide +kernel
  exact ⟨hTicked, hListed, instruments_partition pairListing hTicked (sampleListing .allow)
    hListed 0 interleavedCommands⟩

end MatchingEngine
end ExchangeCore
