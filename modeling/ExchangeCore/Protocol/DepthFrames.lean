import ExchangeCore.Protocol.WireCodec

/-!
# Frames of depth snapshots

A depth snapshot is the one message whose size depends on what it says.  The encoder
cuts each side at `kMaxDepthLevels`, the decoder refuses a payload above
`FrameHeader.kMaxPayload`, and the two bounds do not agree: two sides of 256 levels
take 10252 bytes where 8192 are allowed.
-/

namespace ExchangeCore
namespace Protocol

theorem length_writeSide (levels : List DepthLevel) :
    (writeSide levels).length = 2 + 20 * min levels.length kMaxDepthLevels := by
  unfold writeSide
  rw [List.length_append, length_flatMap_writeLevel, List.length_take]
  simp only [ByteWriter.u16, ByteWriter.length_put]
  omega

theorem length_writeDepth (depth : DepthSnapshot) :
    (writeDepth depth).length = 12 + 20 * (min depth.bids.length kMaxDepthLevels +
      min depth.asks.length kMaxDepthLevels) := by
  unfold writeDepth
  rw [List.length_append, List.length_append, length_writeSide, length_writeSide]
  simp only [ByteWriter.u64, ByteWriter.length_put]
  omega

/-- The numbers of a snapshot fit the words that hold them. -/
def DepthWords (depth : DepthSnapshot) : Prop :=
  depth.instrument.value < 2 ^ 64 ∧ (∀ level ∈ depth.bids, LevelFits level) ∧
    ∀ level ∈ depth.asks, LevelFits level

instance : DecidablePred DepthWords := fun depth =>
  inferInstanceAs (Decidable (depth.instrument.value < 2 ^ 64 ∧ _ ∧ _))

/-- The levels of a snapshot that the encoder writes. -/
def sentDepth (sequence : Nat) (depth : DepthSnapshot) : DepthSnapshot where
  instrument := depth.instrument
  sequence := sequence
  bids := depth.bids.take kMaxDepthLevels
  asks := depth.asks.take kMaxDepthLevels

theorem writeSide_take (levels : List DepthLevel) :
    writeSide (levels.take kMaxDepthLevels) = writeSide levels := by
  have hCount : min (levels.take kMaxDepthLevels).length kMaxDepthLevels =
      min levels.length kMaxDepthLevels := by
    rw [List.length_take]
    omega
  unfold writeSide
  dsimp only
  rw [hCount, List.take_take, Nat.min_eq_left (Nat.min_le_right _ _)]

section Sent

variable (sequence : Nat) (depth : DepthSnapshot)

/-- The message a snapshot is sent as. -/
def depthMessage : Message where
  type := .depthSnapshot
  sequence := sequence
  depth := sentDepth sequence depth

theorem encodeDepth_eq :
    encodeDepth sequence depth = encodeMessage (depthMessage sequence depth) := by
  have hPayload : writeDepth (sentDepth sequence depth) = writeDepth depth := by
    unfold writeDepth sentDepth
    rw [writeSide_take, writeSide_take]
  show frame .depthSnapshot sequence (writeDepth depth) =
    frame .depthSnapshot sequence (writeDepth (sentDepth sequence depth))
  rw [hPayload]

theorem length_payload_depthMessage :
    (writePayload (depthMessage sequence depth)).length =
      12 + 20 * (min depth.bids.length kMaxDepthLevels +
        min depth.asks.length kMaxDepthLevels) := by
  show (writeDepth (sentDepth sequence depth)).length = _
  rw [length_writeDepth]
  simp only [sentDepth, List.length_take]
  omega

variable {depth}

theorem payloadFits_depthMessage (hWords : DepthWords depth) :
    (depthMessage sequence depth).PayloadFits := by
  have hSide : ∀ levels : List DepthLevel, (∀ level ∈ levels, LevelFits level) →
      SideFits (levels.take kMaxDepthLevels) := by
    intro levels hLevels
    refine ⟨?_, fun level hLevel => hLevels level (List.mem_of_mem_take hLevel)⟩
    rw [List.length_take]
    exact Nat.min_le_left _ _
  exact ⟨hWords.1, hSide _ hWords.2.1, hSide _ hWords.2.2⟩

end Sent

/-- A frame of more than the decoder admits is unreadable, whatever its type. -/
theorem decode_of_oversized {message : Message} (hSequence : message.sequence < 2 ^ 64)
    (hLong : FrameHeader.kMaxPayload < (writePayload message).length)
    (hLength : (writePayload message).length < 2 ^ 16) :
    (decode (encodeMessage message)).status = .unreadable := by
  have hHeader : (encodedHeader message).Fits := ⟨hLength, hSequence⟩
  have hType : MessageType.ofCode (encodedHeader message).type = some message.type :=
    message.type.ofCode_code
  have hRefused : ((encodedHeader message).version ≠ kProtocolVersion ||
      decide ((encodedHeader message).payloadLength > FrameHeader.kMaxPayload)) = true := by
    simp [encodedHeader, hLong]
  rw [encodeMessage_eq, decode_bytes hHeader, hType]
  dsimp only
  rw [if_pos hRefused]

/-- The snapshot comes back: the instrument, the number, and the first levels of each
side. -/
def ComesBack (sequence : Nat) (depth : DepthSnapshot) : Prop :=
  (decode (encodeDepth sequence depth)).status = .ok ∧
    (decode (encodeDepth sequence depth)).message.type = .depthSnapshot ∧
    (decode (encodeDepth sequence depth)).message.sequence = sequence ∧
    (decode (encodeDepth sequence depth)).message.depth =
      { instrument := depth.instrument
        sequence := sequence
        bids := depth.bids.take (min 256 depth.bids.length)
        asks := depth.asks.take (min 256 depth.asks.length) }

/-- For every depth snapshot: what the encoder writes decodes to it, cut at 256 levels a
side, exactly if the two sides together are cut to no more than 409 levels. -/
theorem depth_comesBack_iff (sequence : Nat) (hSequence : sequence < 2 ^ 64)
    (depth : DepthSnapshot) (hWords : DepthWords depth) :
    ComesBack sequence depth ↔
      min 256 depth.bids.length + min 256 depth.asks.length ≤ 409 := by
  have hMax : kMaxDepthLevels = 256 := rfl
  have hPayload : FrameHeader.kMaxPayload = 8192 := rfl
  have hLength := length_payload_depthMessage sequence depth
  unfold ComesBack
  rw [encodeDepth_eq]
  constructor
  · rintro ⟨hOk, -⟩
    by_contra hMany
    rw [decode_of_oversized hSequence (by omega) (by omega)] at hOk
    contradiction
  · intro hFew
    have hSent : (depthMessage sequence depth).Fits :=
      ⟨hSequence, payloadFits_depthMessage sequence hWords, by omega⟩
    have hDecoded := decode_encodeMessage hSent []
    rw [List.append_nil] at hDecoded
    rw [hDecoded]
    refine ⟨rfl, rfl, rfl, ?_⟩
    have hTake : ∀ levels : List DepthLevel,
        levels.take (min 256 levels.length) = levels.take 256 := by
      intro levels
      rw [← List.take_take, List.take_length]
    rw [hTake, hTake]
    rfl

/-- As many levels of one lot on both sides. -/
def evenSnapshot (levels : Nat) : DepthSnapshot where
  instrument := ⟨1⟩
  bids := List.replicate levels { price := 1, quantity := 1, orderCount := 1 }
  asks := List.replicate levels { price := 2, quantity := 1, orderCount := 1 }

theorem depth_comesBack_two :
    DepthWords (evenSnapshot 2) ∧
      (ComesBack 7 (evenSnapshot 2) ↔
        min 256 (evenSnapshot 2).bids.length + min 256 (evenSnapshot 2).asks.length ≤ 409) := by
  have hWords : DepthWords (evenSnapshot 2) := by decide
  exact ⟨hWords, depth_comesBack_iff 7 (by decide) (evenSnapshot 2) hWords⟩

/-- A full snapshot of 256 levels a side is refused by the decoder. -/
theorem full_snapshot_unreadable :
    (decode (encodeDepth 7 (evenSnapshot 256))).status = .unreadable ∧
      ¬ ComesBack 7 (evenSnapshot 256) := by
  have hUnreadable : (decode (encodeDepth 7 (evenSnapshot 256))).status = .unreadable := by
    have hLength := length_payload_depthMessage 7 (evenSnapshot 256)
    have hLevels : (evenSnapshot 256).bids.length = 256 ∧ (evenSnapshot 256).asks.length = 256 :=
      ⟨List.length_replicate, List.length_replicate⟩
    have hMax : kMaxDepthLevels = 256 := rfl
    have hPayload : FrameHeader.kMaxPayload = 8192 := rfl
    rw [hLevels.1, hLevels.2] at hLength
    rw [encodeDepth_eq]
    exact decode_of_oversized (by decide) (by omega) (by omega)
  refine ⟨hUnreadable, fun hBack => ?_⟩
  have hOk := hBack.1
  rw [hUnreadable] at hOk
  cases hOk

end Protocol
end ExchangeCore
