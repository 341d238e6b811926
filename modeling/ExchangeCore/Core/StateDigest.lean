import ExchangeCore.Core.EngineRun
import ExchangeCore.Util.ByteCodec

/-!
# The state digest

The fingerprint of `src/core/state_digest.cpp`: the engine's sequence number, and
for every instrument in id order its id, the number of resting orders and nine
fields of each of them, in matching order.  `digestInput` is the stream of bytes
that goes into it, so the digest is a fold over that stream (`digest_eq`).

The stream can be read back: it begins with words of a fixed width, and the count in
front of a book's orders says where they end.  Two engines with the same
instruments that feed the same stream therefore have the same number and books
that agree order by order in the fields that are fed (`readBack`).
-/

namespace ExchangeCore

open PriceTime ByteWriter List

/-- The running fingerprint of `include/xc/util/digest.hpp`. -/
structure Digest where
  state : UInt64 := 1469598103934665603
  deriving DecidableEq

namespace Digest

def prime : UInt64 := 1099511628211

variable (digest : Digest)

def feedByte (byte : UInt8) : Digest :=
  ⟨(digest.state ^^^ byte.toUInt64) * prime⟩

/-- A word, least significant byte first. -/
def feed (value : Nat) : Digest :=
  (List.range 8).foldl
    (fun digest i => digest.feedByte (UInt8.ofNat ((value >>> (8 * i)) &&& 0xFF))) digest

/-- A signed word is fed as the unsigned one with the same bits. -/
def feedSigned (value : Int) : Digest :=
  digest.feed (value % Word64.modulus).toNat

def feedOrder (order : Order) : Digest :=
  let digest := digest.feed order.id.value
  let digest := digest.feed order.account.value
  let digest := digest.feedByte (ByteEnum.toByte order.side)
  let digest := digest.feedByte (ByteEnum.toByte order.type)
  let digest := digest.feedByte (ByteEnum.toByte order.tif)
  let digest := digest.feedSigned order.price
  let digest := digest.feed order.quantity
  let digest := digest.feed order.remaining
  digest.feed order.sequence

def feedBook (book : OrderBook) : Digest :=
  let digest := digest.feed book.instrument.id.value
  let digest := digest.feed book.restingOrderCount
  book.restingOrders.foldl feedOrder digest

/-- A stream of bytes. -/
def feedAll (bytes : List UInt8) : Digest := bytes.foldl feedByte digest

end Digest

/-- The fingerprint of an order book. -/
def OrderBook.digest (book : OrderBook) : UInt64 := (({} : Digest).feedBook book).state

/-- The fingerprint of an engine. -/
def MatchingEngine.digest {J : Type} (engine : MatchingEngine J) : UInt64 :=
  (engine.instrumentOrder.foldl (fun digest id =>
      match engine.bookFor id with
      | none => digest
      | some book => digest.feedBook book)
    (({} : Digest).feed engine.sequence)).state

/-! ## The stream -/

def Order.digestInput (order : Order) : List UInt8 :=
  u64 order.id.value ++ (u64 order.account.value ++
    (enumeration order.side ++ (enumeration order.type ++
      (enumeration order.tif ++ (i64 order.price ++
        (u64 order.quantity ++ (u64 order.remaining ++
          u64 order.sequence)))))))

def OrderBook.digestInput (book : OrderBook) : List UInt8 :=
  u64 book.instrument.id.value ++ (u64 book.restingOrderCount ++
    book.restingOrders.flatMap Order.digestInput)

/-- What an instrument contributes, nothing if it has no book. -/
def MatchingEngine.bookInput {J : Type} (engine : MatchingEngine J) (id : InstrumentId) :
    List UInt8 :=
  ((engine.bookFor id).map OrderBook.digestInput).getD []

/-- Every byte an engine feeds to its digest. -/
def MatchingEngine.digestInput {J : Type} (engine : MatchingEngine J) : List UInt8 :=
  u64 engine.sequence ++ engine.instrumentOrder.flatMap engine.bookInput

namespace Digest

variable (digest : Digest)

@[simp] theorem feedAll_append (bytes later : List UInt8) :
    digest.feedAll (bytes ++ later) = (digest.feedAll bytes).feedAll later :=
  foldl_append

theorem feed_eq (value : Nat) : digest.feed value = digest.feedAll (u64 value) := by
  rw [feed, feedAll, u64, put, foldl_map]

theorem feedSigned_eq (value : Int) :
    digest.feedSigned value = digest.feedAll (i64 value) :=
  feed_eq digest _

theorem feedByte_eq {E : Type} [ByteEnum E] (value : E) :
    digest.feedByte (ByteEnum.toByte value) = digest.feedAll (enumeration value) := rfl

theorem feedOrder_eq (order : Order) :
    digest.feedOrder order = digest.feedAll order.digestInput := by
  simp only [feedOrder, Order.digestInput, feedAll_append, feed_eq, feedSigned_eq, feedByte_eq]

theorem foldl_feedOrder (orders : List Order) :
    orders.foldl feedOrder digest = digest.feedAll (orders.flatMap Order.digestInput) := by
  induction orders generalizing digest with
  | nil => rfl
  | cons order orders ih =>
    rw [foldl_cons, ih, feedOrder_eq, flatMap_cons, feedAll_append]

theorem feedBook_eq (book : OrderBook) :
    digest.feedBook book = digest.feedAll book.digestInput := by
  simp only [feedBook, OrderBook.digestInput, feedAll_append, feed_eq, foldl_feedOrder]

end Digest

/-- The digest is the fingerprint of the stream and of nothing else. -/
theorem MatchingEngine.digest_eq {J : Type} (engine : MatchingEngine J) :
    engine.digest = (({} : Digest).feedAll engine.digestInput).state := by
  have hBooks : ∀ (ids : List InstrumentId) (digest : Digest), ids.foldl (fun digest id =>
            match engine.bookFor id with
            | none => digest
            | some book => digest.feedBook book) digest =
        digest.feedAll (ids.flatMap engine.bookInput) := by
    intro ids
    induction ids with
    | nil => exact fun _ => rfl
    | cons id ids ih =>
      intro digest
      rw [foldl_cons, ih, flatMap_cons, Digest.feedAll_append]
      unfold bookInput
      cases engine.bookFor id with
      | none => rfl
      | some book => exact congrArg (Digest.feedAll · _) (digest.feedBook_eq book)
  rw [digest, hBooks, Digest.feed_eq, digestInput, Digest.feedAll_append]

/-! ## Reading the stream back -/

/-- The numbers of an order fit the words that hold them. -/
def Order.FitsWords (order : Order) : Prop :=
  order.id.value < 2 ^ 64 ∧ order.account.value < 2 ^ 64 ∧ SignedWord order.price ∧
    order.quantity < 2 ^ 64 ∧ order.remaining < 2 ^ 64 ∧ order.sequence < 2 ^ 64

instance (order : Order) : Decidable order.FitsWords := inferInstanceAs (Decidable (_ ∧ _))

def OrderBook.FitsWords (book : OrderBook) : Prop :=
  book.restingOrders.length < 2 ^ 64 ∧ ∀ order ∈ book.restingOrders, order.FitsWords

instance (book : OrderBook) : Decidable book.FitsWords := inferInstanceAs (Decidable (_ ∧ _))

/-- The numbers of an engine's state fit the words that hold them. -/
def MatchingEngine.FitsWords {J : Type} (engine : MatchingEngine J) : Prop :=
  engine.sequence < 2 ^ 64 ∧
    ∀ id ∈ engine.instrumentOrder, ∀ book ∈ engine.bookFor id, book.FitsWords

instance {J : Type} (engine : MatchingEngine J) : Decidable engine.FitsWords :=
  inferInstanceAs (Decidable (_ ∧ _))

/-- The part of an order that is fed. -/
def Order.digested (order : Order) : Order :=
  { order with instrument := {}, acceptedAt := 0, postOnly := false }

section ReadBack

theorem u64_injective {x y : Nat} (hx : x < 2 ^ 64) (hy : y < 2 ^ 64)
    (hEq : u64 x = u64 y) : x = y :=
  put_injective (hx.trans_eq (by decide)) (hy.trans_eq (by decide)) hEq

theorem i64_injective {x y : Int} (hx : SignedWord x) (hy : SignedWord y)
    (hEq : i64 x = i64 y) : x = y := by
  have hWord : ∀ z : Int, (z % Word64.modulus).toNat < 2 ^ 64 := by
    intro z
    have hModulus : (Word64.modulus : Int) = 2 ^ 64 := by decide
    have hLow := Int.emod_nonneg z (show (Word64.modulus : Int) ≠ 0 by decide)
    have hHigh := Int.emod_lt_of_pos z (show (0 : Int) < Word64.modulus by decide)
    omega
  have hSame := u64_injective (hWord x) (hWord y) hEq
  have hReadX := (Word64.toSigned_eq_iff (hWord x)).mpr ⟨hx, rfl⟩
  have hReadY := (Word64.toSigned_eq_iff (hWord y)).mpr ⟨hy, rfl⟩
  rw [← hReadX, ← hReadY, hSame]

theorem enumeration_injective {E : Type} [ByteEnum E] {x y : E}
    (hEq : enumeration x = enumeration y) : x = y := by
  rw [← ByteEnum.ofByte_toByte x, singleton_inj.mp hEq, ByteEnum.ofByte_toByte]

theorem Order.length_digestInput (order : Order) : order.digestInput.length = 51 := by
  simp [Order.digestInput, u64, i64, enumeration, u8]

/-- Nine fields, each of a width of its own. -/
theorem Order.digested_of_input {order order' : Order} (hFits : order.FitsWords)
    (hFits' : order'.FitsWords) (hInput : order.digestInput = order'.digestInput) :
    order.digested = order'.digested := by
  obtain ⟨hId, hAccount, hPrice, hQuantity, hRemaining, hSequence⟩ := hFits
  obtain ⟨hId', hAccount', hPrice', hQuantity', hRemaining', hSequence'⟩ := hFits'
  unfold Order.digestInput at hInput
  obtain ⟨hIds, hInput⟩ := append_inj hInput (by simp [u64])
  obtain ⟨hAccounts, hInput⟩ := append_inj hInput (by simp [u64])
  obtain ⟨hSides, hInput⟩ := append_inj hInput rfl
  obtain ⟨hTypes, hInput⟩ := append_inj hInput rfl
  obtain ⟨hTifs, hInput⟩ := append_inj hInput rfl
  obtain ⟨hPrices, hInput⟩ := append_inj hInput (by simp [i64, u64])
  obtain ⟨hQuantities, hInput⟩ := append_inj hInput (by simp [u64])
  obtain ⟨hRemainders, hSequences⟩ := append_inj hInput (by simp [u64])
  have hSameId : order.id = order'.id :=
    congrArg Id.mk (u64_injective hId hId' hIds)
  have hSameAccount : order.account = order'.account :=
    congrArg Id.mk (u64_injective hAccount hAccount' hAccounts)
  unfold Order.digested
  rw [hSameId, hSameAccount, enumeration_injective hSides, enumeration_injective hTypes,
    enumeration_injective hTifs, i64_injective hPrice hPrice' hPrices,
    u64_injective hQuantity hQuantity' hQuantities,
    u64_injective hRemaining hRemaining' hRemainders, u64_injective hSequence hSequence' hSequences]

/-- As many orders on both sides, read one after the other. -/
theorem digested_of_orders {orders orders' : List Order} {later later' : List UInt8}
    (hLength : orders.length = orders'.length) (hFits : ∀ order ∈ orders, order.FitsWords)
    (hFits' : ∀ order ∈ orders', order.FitsWords)
    (hInput : orders.flatMap Order.digestInput ++ later =
      orders'.flatMap Order.digestInput ++ later') :
    orders.map Order.digested = orders'.map Order.digested ∧ later = later' := by
  induction orders generalizing orders' with
  | nil =>
    obtain rfl := length_eq_zero_iff.mp hLength.symm
    exact ⟨rfl, hInput⟩
  | cons order orders ih =>
    cases orders' with
    | nil => contradiction
    | cons order' orders' =>
      rw [flatMap_cons, flatMap_cons, append_assoc, append_assoc] at hInput
      obtain ⟨hFirst, hRest⟩ := append_inj hInput
        (order.length_digestInput.trans order'.length_digestInput.symm)
      have hOrder := Order.digested_of_input (hFits order mem_cons_self)
        (hFits' order' mem_cons_self) hFirst
      obtain ⟨hOrders, hLater⟩ := ih (Nat.succ.inj hLength)
        (fun o ho => hFits o (mem_cons_of_mem _ ho))
        (fun o ho => hFits' o (mem_cons_of_mem _ ho)) hRest
      exact ⟨by rw [map_cons, map_cons, hOrder, hOrders], hLater⟩

end ReadBack

/-- The count that is fed is the number of orders that follow. -/
theorem OrderBook.Sound.restingOrderCount {book : OrderBook} (hSound : book.Sound) :
    book.restingOrderCount = book.restingOrders.length := by
  obtain ⟨q, free, hRep, -⟩ := hSound
  rw [OrderBook.restingOrderCount, hRep.index_size, hRep.live, OrderBook.restingOrders,
    length_append, hRep.sideOrders_eq, hRep.sideOrders_eq, OrderBook.viewQueue,
    OrderBook.viewQueue, length_map, length_map]

/-- A book's stream says where it ends. -/
theorem OrderBook.digested_of_input {book book' : OrderBook} (hSound : book.Sound)
    (hSound' : book'.Sound) (hFits : book.FitsWords) (hFits' : book'.FitsWords)
    {later later' : List UInt8} (hInput : book.digestInput ++ later = book'.digestInput ++ later') :
    book.restingOrders.map Order.digested = book'.restingOrders.map Order.digested ∧
      later = later' := by
  unfold OrderBook.digestInput at hInput
  rw [append_assoc, append_assoc, append_assoc, append_assoc] at hInput
  obtain ⟨-, hInput⟩ := append_inj hInput (by simp [u64])
  obtain ⟨hCounts, hInput⟩ := append_inj hInput (by simp [u64])
  rw [hSound.restingOrderCount, hSound'.restingOrderCount] at hCounts
  exact digested_of_orders (u64_injective hFits.1 hFits'.1 hCounts) hFits.2 hFits'.2 hInput

namespace MatchingEngine

variable {J : Type} {engine engine' : MatchingEngine J}

/-- The same instruments are configured, with the same terms. -/
structure SameInstruments (engine engine' : MatchingEngine J) : Prop where
  order : engine.instrumentOrder = engine'.instrumentOrder
  instrument : ∀ id, engine.findInstrument id = engine'.findInstrument id

/-- Both engines have a book for the instrument, or neither has. -/
theorem SameInstruments.cases (hSame : SameInstruments engine engine') (id : InstrumentId) :
    (engine.bookFor id = none ∧ engine'.bookFor id = none) ∨
      ∃ book book', engine.bookFor id = some book ∧ engine'.bookFor id = some book' ∧
        book.instrument = book'.instrument := by
  have hInstrument := hSame.instrument id
  unfold findInstrument at hInstrument
  cases hBook : engine.bookFor id with
  | none =>
    rw [hBook, Option.map_none, eq_comm, Option.map_eq_none_iff] at hInstrument
    exact Or.inl ⟨rfl, hInstrument⟩
  | some book =>
    rw [hBook, Option.map_some, eq_comm, Option.map_eq_some_iff] at hInstrument
    obtain ⟨book', hBook', hEq⟩ := hInstrument
    exact Or.inr ⟨book, book', rfl, hBook', hEq.symm⟩

/-- Equal streams are equal numbers and, book by book, equal fed fields. -/
theorem readBack (hHoused : engine.Housed) (hHoused' : engine'.Housed) (hFits : engine.FitsWords)
    (hFits' : engine'.FitsWords) (hSame : SameInstruments engine engine')
    (hInput : engine.digestInput = engine'.digestInput) :
    engine.sequence = engine'.sequence ∧
      ∀ id ∈ engine.instrumentOrder, ∀ book book', engine.bookFor id = some book →
        engine'.bookFor id = some book' →
        book.restingOrders.map Order.digested = book'.restingOrders.map Order.digested := by
  unfold digestInput at hInput
  obtain ⟨hSequence, hBooks⟩ := append_inj hInput (by simp [u64])
  refine ⟨u64_injective hFits.1 hFits'.1 hSequence, ?_⟩
  have hFitsBooks := hFits.2
  have hFitsBooks' := hFits'.2
  rw [← hSame.order] at hBooks hFitsBooks'
  -- Instrument by instrument: where one stream has a book, so has the other.
  generalize engine.instrumentOrder = ids at hBooks hFitsBooks hFitsBooks' ⊢
  induction ids with
  | nil => exact fun id hId => absurd hId not_mem_nil
  | cons first ids ih =>
    rw [flatMap_cons, flatMap_cons] at hBooks
    have hRest : ∀ ids : List InstrumentId, ∀ engine : MatchingEngine J,
        (∀ id ∈ first :: ids, ∀ book ∈ engine.bookFor id, book.FitsWords) →
        ∀ id ∈ ids, ∀ book ∈ engine.bookFor id, book.FitsWords :=
      fun ids engine hAll id hId => hAll id (mem_cons_of_mem _ hId)
    rcases hSame.cases first with ⟨hNone, hNone'⟩ | ⟨book, book', hBook, hBook', -⟩
    · have hLater : ids.flatMap engine.bookInput = ids.flatMap engine'.bookInput := by
        simp only [bookInput, hNone, hNone', Option.map_none, Option.getD_none,
          nil_append] at hBooks
        exact hBooks
      intro id hId other other' hOther hOther'
      rcases mem_cons.mp hId with rfl | hId
      · rw [hNone] at hOther
        contradiction
      · exact ih hLater (hRest ids engine hFitsBooks) (hRest ids engine' hFitsBooks') id hId
          other other' hOther hOther'
    · have hFirst : engine.bookInput first = book.digestInput := by
        rw [bookInput, hBook]
        rfl
      have hFirst' : engine'.bookInput first = book'.digestInput := by
        rw [bookInput, hBook']
        rfl
      rw [hFirst, hFirst'] at hBooks
      obtain ⟨hOrders, hLater⟩ := OrderBook.digested_of_input (hHoused _ _ hBook).1.sound
        (hHoused' _ _ hBook').1.sound (hFitsBooks first mem_cons_self book hBook)
        (hFitsBooks' first mem_cons_self book' hBook') hBooks
      intro id hId other other' hOther hOther'
      rcases mem_cons.mp hId with rfl | hId
      · rw [hBook] at hOther
        rw [hBook'] at hOther'
        rw [← Option.some.inj hOther, ← Option.some.inj hOther']
        exact hOrders
      · exact ih hLater (hRest ids engine hFitsBooks) (hRest ids engine' hFitsBooks') id hId
          other other' hOther hOther'

end MatchingEngine
end ExchangeCore
