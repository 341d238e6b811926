import ExchangeCore.Protocol.DepthFrames
import ExchangeCore.Protocol.GapDetector
import ExchangeCore.VenueSessions

/-!
# The numbers of the market data feed

The venue numbers its datagrams 1, 2, ... without a hole: trades and book updates
draw from one counter, and nothing else does (`Venue.Feeding`).  A subscriber reads
the number of a datagram from its header and shows it to a `GapDetector`, whose count
of missing numbers is then the count of lost datagrams.
-/

namespace ExchangeCore

open Protocol List

namespace Protocol

/-- The number in a datagram's header. -/
def feedNumber (datagram : List UInt8) : Nat :=
  (readHeader ⟨datagram.take FrameHeader.kSize, false⟩).1.sequence

/-- A number that fits its word is read as it was written. -/
theorem feedNumber_frame (type : MessageType) {sequence : Nat} (hSequence : sequence < 2 ^ 64)
    {payload : List UInt8} (hPayload : payload.length < 2 ^ 16) :
    feedNumber (frame type sequence payload) = sequence := by
  obtain ⟨header, hHeader⟩ : ∃ header : HeaderFields,
      header = ⟨payload.length, type.code, kProtocolVersion, sequence⟩ := ⟨_, rfl⟩
  have hBytes : frame type sequence payload = header.bytes ++ payload := by
    rw [hHeader, frame, HeaderFields.bytes, append_assoc, append_assoc, append_assoc]
    rfl
  have hFits : header.Fits := by
    rw [hHeader]
    exact ⟨hPayload, hSequence⟩
  have hRead : readHeader ⟨header.bytes ++ [], false⟩ = (header, ⟨[], false⟩) :=
    parses_header.reads ⟨hFits, rfl⟩ []
  rw [feedNumber, hBytes, take_left' header.length_bytes, ← append_nil header.bytes,
    hRead, hHeader]

end Protocol

namespace Venue

/-- A venue that has handled the messages of its connections. -/
def serve (venue : Venue) (inputs : List VenueInput) : Venue :=
  inputs.foldl (fun venue input =>
    venue.handle input.connection input.message input.now input.answered) venue

/-- The datagrams so far carry the numbers 1, 2, ... up to the counter. -/
def Feeding (venue : Venue) : Prop :=
  venue.feedSequence < 2 ^ 64 → venue.published.map feedNumber = List.range' 1 venue.feedSequence

section Feeding

variable {venue : Venue} {connection : Nat} {now : Int}

theorem Feeding.of_eq {venue' : Venue} (hFeeding : venue.Feeding)
    (hSequence : venue'.feedSequence = venue.feedSequence)
    (hPublished : venue'.published = venue.published) : venue'.Feeding := by
  unfold Feeding at hFeeding ⊢
  rw [hSequence, hPublished]
  exact hFeeding

theorem Feeding.publish (hFeeding : venue.Feeding) {encode : Nat → List UInt8}
    (hEncode : ∀ number < 2 ^ 64, feedNumber (encode number) = number) :
    (venue.publish encode).Feeding := by
  intro hBound
  have hNext : venue.feedSequence + 1 < 2 ^ 64 := hBound
  show (venue.published ++ [encode (venue.feedSequence + 1)]).map feedNumber =
    List.range' 1 (venue.feedSequence + 1)
  rw [map_append, hFeeding (by omega), map_singleton, hEncode _ hNext,
    List.range'_concat, Nat.one_mul, Nat.add_comm 1]

theorem Feeding.sendSession (hFeeding : venue.Feeding) (bytes : List UInt8) :
    (venue.sendSession connection bytes).Feeding := by
  unfold Venue.sendSession
  split
  · exact hFeeding.of_eq rfl rfl
  · exact hFeeding

theorem Feeding.foldl {A : Type} {update : Venue → A → Venue}
    (hUpdate : ∀ venue item, venue.Feeding → (update venue item).Feeding)
    (hFeeding : venue.Feeding) (items : List A) : (items.foldl update venue).Feeding := by
  induction items generalizing venue with
  | nil => exact hFeeding
  | cons item items ih => exact ih (hUpdate venue item hFeeding)

variable (hFeeding : venue.Feeding)
include hFeeding

theorem Feeding.listenTo (notice : Notice) : (venue.listenTo connection now notice).Feeding := by
  cases notice with
  | fills sequence fills =>
    refine Feeding.foldl (fun venue fill hBefore => ?_) hFeeding fills
    refine (hBefore.sendSession _).publish fun number hNumber => ?_
    refine feedNumber_frame .trade hNumber ?_
    simp [writeFill, ByteWriter.u64, ByteWriter.i64, ByteWriter.enumeration, ByteWriter.u8,
      ByteWriter.boolean]
  | orderAccepted => exact hFeeding.sendSession _
  | orderRejected => exact hFeeding.sendSession _
  | orderCancelled => exact hFeeding.sendSession _
  | orderReplaced => exact hFeeding.sendSession _

theorem Feeding.publishMarketData (instrument : InstrumentId) :
    (venue.publishMarketData instrument).Feeding := by
  unfold Venue.publishMarketData
  split
  · exact hFeeding
  split
  · refine hFeeding.publish fun number hNumber => feedNumber_frame .topOfBook hNumber ?_
    simp [writeTopOfBook, ByteWriter.u64, ByteWriter.i64]
  refine hFeeding.publish fun number hNumber => feedNumber_frame .depthSnapshot hNumber ?_
  have hMax : kMaxDepthLevels = 256 := rfl
  rw [length_writeDepth]
  omega

theorem Feeding.report
    (engine : MatchingEngine (Logged JournalWriter)) (instrument : InstrumentId) :
    (venue.report connection now engine instrument).Feeding := by
  have hEngine : ({ venue with engine := engine } : Venue).Feeding := hFeeding.of_eq rfl rfl
  have hHeard : (engine.notices.foldl
      (fun (venue : Venue) notice => venue.listenTo connection now notice)
      { venue with engine := engine }).Feeding :=
    Feeding.foldl (fun _ notice hBefore => hBefore.listenTo notice) hEngine _
  unfold Venue.report
  dsimp only
  split
  · exact hHeard.publishMarketData instrument
  · exact hHeard

theorem Feeding.handle (message : Message) (answered : Int) :
    (venue.handle connection message now answered).Feeding := by
  have hCounted : ({ venue with commandsProcessed := venue.commandsProcessed + 1 } :
      Venue).Feeding := hFeeding.of_eq rfl rfl
  unfold Venue.handle
  dsimp only
  split
  · exact hCounted.report _ _
  · exact hCounted.report _ _
  · exact hCounted.report _ _
  · exact hCounted

theorem Feeding.serve (inputs : List VenueInput) : (venue.serve inputs).Feeding :=
  Feeding.foldl (fun _ _ hBefore => hBefore.handle _ _) hFeeding inputs

/-- Nothing is published before the venue is open. -/
theorem Feeding.register (clock : Nat → Int)
    (instruments : List Instrument) : (venue.register clock instruments).1.Feeding := by
  induction instruments generalizing venue clock with
  | nil => exact hFeeding
  | cons instrument instruments ih =>
    unfold Venue.register
    dsimp only
    split
    · exact hFeeding.of_eq rfl rfl
    · refine ih ?_ _
      exact hFeeding.of_eq rfl rfl

theorem Feeding.openJournal (disk : Disk) : (venue.openJournal disk).1.Feeding := by
  unfold Venue.openJournal
  split
  · exact hFeeding
  dsimp only
  split
  · exact hFeeding.of_eq rfl rfl
  · exact hFeeding.of_eq rfl rfl

theorem Feeding.listen (feed gateway : CallResult) : (venue.listen feed gateway).1.Feeding := by
  unfold Venue.listen
  split
  · exact hFeeding.of_eq rfl rfl
  split
  · exact hFeeding.of_eq rfl rfl
  · exact hFeeding

theorem Feeding.start (disk : Disk) (risk : RiskEngine)
    (kill : KillSwitch) (clock : Nat → Int) (feed gateway : CallResult) :
    (venue.start disk risk kill clock feed gateway).1.Feeding := by
  have hOpened := hFeeding.openJournal disk
  have hAttached : ((venue.openJournal disk).1.attach risk kill).Feeding := hOpened.of_eq rfl rfl
  have hRegistered := hAttached.register clock (venue.openJournal disk).1.config.instruments
  unfold Venue.start
  dsimp only
  split
  · exact hOpened
  split
  · exact hRegistered
  · exact hRegistered.listen feed gateway

end Feeding

/-- A venue from its creation through its messages. -/
def opened (config : VenueConfig) (disk : Disk) (risk : RiskEngine) (kill : KillSwitch)
    (clock : Nat → Int) (feed gateway : CallResult) (inputs : List VenueInput) : Venue :=
  (({ config := config } : Venue).start disk risk kill clock feed gateway).1.serve inputs

/-- One number for each datagram. -/
theorem length_published {venue : Venue} (hFeeding : venue.Feeding)
    (hBound : venue.feedSequence < 2 ^ 64) : venue.published.length = venue.feedSequence := by
  have hLength := congrArg List.length (hFeeding hBound)
  rw [length_map, length_range'] at hLength
  exact hLength

/-- For every start value and every sequence of observed numbers, in any order and
with any loss and duplication: the accepted numbers increase, the counters add up to
the distance the expectation has moved, and the missing count is the number of those
passed that were never accepted.  A subscriber of a venue that receives `kept` and
then `last`, in feed order, counts as missing the datagrams lost before `last`. -/
theorem feed_losses_counted :
    (∀ first < 2 ^ 64, ∀ sequences : List Nat, (∀ sequence ∈ sequences, sequence < 2 ^ 64 - 1) →
      (({ expected := first } : GapDetector).accepted sequences).Pairwise (· < ·) ∧
        (let detector := ({ expected := first } : GapDetector).observeAll sequences
        first + (detector.inOrder + detector.gaps + detector.missing) = detector.expected ∧
        detector.missing = ((Finset.Ico first detector.expected).filter
          (· ∉ ({ expected := first } : GapDetector).accepted sequences)).card)) ∧
    ∀ (config : VenueConfig) (disk : Disk) (risk : RiskEngine) (kill : KillSwitch)
      (clock : Nat → Int) (feed gateway : CallResult) (inputs : List VenueInput)
      (before kept after : List (List UInt8)) (last : List UInt8),
      (opened config disk risk kill clock feed gateway inputs).feedSequence < 2 ^ 64 - 1 →
      (opened config disk risk kill clock feed gateway inputs).published =
        before ++ last :: after → kept.Sublist before →
      (({} : GapDetector).observeAll ((kept ++ [last]).map feedNumber)).missing =
        before.length - kept.length := by
  have hModulus : Word64.modulus = 2 ^ 64 := rfl
  constructor
  · intro first hFirst sequences hSequences
    have hTracked := (GapDetector.tracked_start first hFirst).run hSequences
    rw [List.nil_append] at hTracked
    refine ⟨hTracked.increasing, ?_, hTracked.missing_eq⟩
    have hBalance := hTracked.balance
    omega
  · intro config disk risk kill clock feed gateway inputs before kept after last hFeed hPublished
      hKept
    have hNew : ({ config := config } : Venue).Feeding := fun _ => rfl
    have hFeeding : (opened config disk risk kill clock feed gateway inputs).Feeding :=
      (Feeding.start hNew disk risk kill clock feed gateway).serve inputs
    have hNumbers := hFeeding (by omega)
    have hLength := length_published hFeeding (by omega)
    generalize opened config disk risk kill clock feed gateway inputs = venue at *
    rw [hPublished, List.length_append, List.length_cons] at hLength
    -- Up to `last`, the feed is 1, 2, ... without a hole.
    have hUpTo : (before ++ [last]).map feedNumber = List.range' 1 (before.length + 1) := by
      rw [hPublished, List.append_cons, List.map_append, ← hLength,
        show before.length + (after.length + 1) = before.length + 1 + after.length by omega,
        ← List.range'_append_1] at hNumbers
      exact (List.append_inj hNumbers (by simp)).1
    have hLast : feedNumber last = before.length + 1 := by
      rw [List.map_append, List.range'_concat, List.map_singleton] at hUpTo
      have hTail := (List.append_inj' hUpTo rfl).2
      rw [List.singleton_inj] at hTail
      omega
    have hSublist : ((kept ++ [last]).map feedNumber).Sublist
        (List.range' 1 (before.length + 1)) := by
      rw [← hUpTo]
      exact (hKept.append (List.Sublist.refl _)).map _
    rw [List.map_append, List.map_singleton, hLast] at hSublist ⊢
    have hRange : (List.range' 1 (before.length + 1)).Pairwise (· < ·) :=
      List.pairwise_lt_range' 1 Nat.one_pos
    have hMissing := GapDetector.missing_of_increasing 1 (hRange.sublist hSublist)
      (fun number hNumber => (List.mem_range'_1.mp (hSublist.subset hNumber)).1) (by omega)
    rw [List.length_map] at hMissing
    refine hMissing.trans ?_
    omega

/-- Two bids and a sale that meets them: two book updates, two trades and an update. -/
def busyVenue : Venue :=
  opened { instruments := [sampleListing .allow] } {} {} {} (fun _ => 0) .done .done
    [⟨1, { type := .newOrder, newOrder := sampleNewOrder 1 1 .buy 2 5 false }, 0, 0⟩,
      ⟨1, { type := .newOrder, newOrder := sampleNewOrder 2 1 .buy 2 5 false }, 0, 0⟩,
      ⟨2, { type := .newOrder, newOrder := sampleNewOrder 3 2 .sell 2 8 false }, 0, 0⟩]

/-- The second and third of its five datagrams are lost. -/
theorem feed_losses_counted_busy :
    busyVenue.feedSequence = 5 ∧
      (({ expected := 5 } : GapDetector).observeAll [5, 8, 6, 8, 9]).missing = 2 ∧
      ((({ expected := 5 } : GapDetector).accepted [5, 8, 6, 8, 9]).Pairwise (· < ·) ∧
        (let detector := ({ expected := 5 } : GapDetector).observeAll [5, 8, 6, 8, 9]
        5 + (detector.inOrder + detector.gaps + detector.missing) = detector.expected ∧
        detector.missing = ((Finset.Ico 5 detector.expected).filter
          (· ∉ ({ expected := 5 } : GapDetector).accepted [5, 8, 6, 8, 9])).card)) ∧
      (({} : GapDetector).observeAll ((busyVenue.published.take 1 ++
          [busyVenue.published.getD 3 []]).map feedNumber)).missing =
        (busyVenue.published.take 3).length - (busyVenue.published.take 1).length := by
  have hFive : busyVenue.feedSequence = 5 := by decide +kernel
  have hSplit : busyVenue.published = busyVenue.published.take 3 ++
      busyVenue.published.getD 3 [] :: busyVenue.published.drop 4 := by decide +kernel
  have hBound : busyVenue.feedSequence < 2 ^ 64 - 1 := by
    rw [hFive]
    decide
  exact ⟨hFive, by decide, feed_losses_counted.1 5 (by decide) [5, 8, 6, 8, 9] (by decide),
    feed_losses_counted.2 _ _ _ _ _ _ _ _ _ _ _ _ hBound hSplit
      (List.take_sublist_take_left (by decide))⟩

end Venue
end ExchangeCore
