import ExchangeCore.Core.Types
import ExchangeCore.Lib.LittleEndian
import ExchangeCore.Lib.Parsing

/-!
# Byte codec

The byte writer and reader of `include/xc/util/byte_codec.hpp`.  The writer's
operations are the bytes they append.  The reader holds the bytes that are left
and its failure flag; a read that runs past the end fails and yields zero.

Each read is the inverse of one write, in the strong sense of `Parses`: it reads
what the write produces, with anything behind it, and accepts nothing else.

The journal and the wire share the codes of the enumerations and the commands that
fit the width of their fields.
-/

namespace ExchangeCore

open List LittleEndian

/-- An enumeration that travels as one byte, with its highest valid code. -/
class ByteEnum (E : Type) where
  toByte : E → UInt8
  ofByte : UInt8 → E
  highest : UInt8
  toByte_le : ∀ value, toByte value ≤ highest
  ofByte_toByte : ∀ value, ofByte (toByte value) = value
  toByte_ofByte : ∀ byte, byte ≤ highest → toByte (ofByte byte) = byte

/-- An enumeration given by its values in the order of their codes, from zero. -/
@[reducible] def ByteEnum.ofValues {E : Type} [DecidableEq E] [Inhabited E] (values : List E)
    (hDistinct : values.Nodup) (hAll : ∀ value, value ∈ values) (hFew : values.length ≤ 256) :
    ByteEnum E where
  toByte value := UInt8.ofNat (values.idxOf value)
  ofByte byte := values.getD byte.toNat default
  highest := UInt8.ofNat (values.length - 1)
  toByte_le value := by
    have hIndex := idxOf_lt_length_iff.mpr (hAll value)
    rw [UInt8.le_iff_toNat_le, UInt8.toNat_ofNat', UInt8.toNat_ofNat']
    omega
  ofByte_toByte value := by
    have hIndex := idxOf_lt_length_iff.mpr (hAll value)
    rw [UInt8.toNat_ofNat', Nat.mod_eq_of_lt (by omega), getD_eq_getElem _ _ hIndex,
      getElem_idxOf]
  toByte_ofByte byte hByte := by
    have hSome := length_pos_of_mem (hAll default)
    have hNat := UInt8.le_iff_toNat_le.mp hByte
    rw [UInt8.toNat_ofNat', Nat.mod_eq_of_lt (by omega)] at hNat
    rw [getD_eq_getElem _ _ (by omega), hDistinct.idxOf_getElem, UInt8.ofNat_toNat]

namespace ByteWriter

def put (value width : Nat) : List UInt8 :=
  (List.range width).map fun i => UInt8.ofNat ((value >>> (8 * i)) &&& 0xFF)

def u8 (value : UInt8) : List UInt8 := [value]

def u16 (value : Nat) : List UInt8 := put value 2

def u32 (value : Nat) : List UInt8 := put value 4

def u64 (value : Nat) : List UInt8 := put value 8

/-- Signed values travel as their unsigned representation. -/
def i64 (value : Int) : List UInt8 := u64 (value % Word64.modulus).toNat

def boolean (value : Bool) : List UInt8 := u8 (if value then 1 else 0)

def enumeration {E : Type} [ByteEnum E] (value : E) : List UInt8 := u8 (ByteEnum.toByte value)

/-- A 16-bit length followed by the bytes.  The length is cut to 16 bits, the bytes
are not. -/
def string (value : List UInt8) : List UInt8 := u16 (value.length % 2 ^ 16) ++ value

theorem put_eq (value width : Nat) : put value width = toBytes width value :=
  map_shiftRight_eq_toBytes width value

@[simp] theorem length_put (value width : Nat) : (put value width).length = width := by
  rw [put_eq, length_toBytes]

/-- Every list of bytes is a number. -/
theorem exists_eq_put (bytes : List UInt8) :
    ∃ value, value < 256 ^ bytes.length ∧ bytes = put value bytes.length :=
  ⟨ofBytes bytes, ofBytes_lt bytes, by
    rw [put_eq, toBytes_ofBytes]⟩

theorem put_injective {width x y : Nat} (hx : x < 256 ^ width) (hy : y < 256 ^ width)
    (hEq : put x width = put y width) : x = y := by
  rw [put_eq, put_eq] at hEq
  exact toBytes_injective hx hy hEq

end ByteWriter

abbrev ByteReader (α : Type) : Type := StickyParser UInt8 α

namespace ByteReader

/-- Ask for bytes to be there.  Anything but enough of them is a failure. -/
def request (bytes : Nat) : ByteReader Bool := fun cursor =>
  if cursor.failed || decide (cursor.rest.length < bytes) then
    (false, { cursor with failed := true })
  else (true, cursor)

/-- The number whose bytes come first, which are consumed. -/
def assemble (width : Nat) : ByteReader Nat := fun cursor =>
  ((cursor.rest.take width).zipIdx.foldl
      (fun value entry => value ||| entry.1.toNat <<< (8 * entry.2)) 0,
    { cursor with rest := cursor.rest.drop width })

def take (width : Nat) : ByteReader Nat := do
  if ← request width then assemble width else return 0

/-- False once any read has run past the end or rejected a value. -/
def ok : ByteReader Bool := fun cursor => (!cursor.failed, cursor)

def remaining : ByteReader Nat := fun cursor =>
  (if cursor.failed then 0 else cursor.rest.length, cursor)

def u8 : ByteReader UInt8 := do
  if ← request 1 then
    fun cursor => (cursor.rest.headD 0, { cursor with rest := cursor.rest.tail })
  else return 0

def u16 : ByteReader Nat := take 2

def u32 : ByteReader Nat := take 4

def u64 : ByteReader Nat := take 8

def i64 : ByteReader Int := do return Word64.toSigned (← take 8)

/-- Any byte other than 0 and 1 fails. -/
def boolean : ByteReader Bool := do
  let value ← u8
  if value > 1 then StickyParser.fail false else return value == 1

def string : ByteReader (List UInt8) := do
  let length ← u16
  if ← request length then
    fun cursor => (cursor.rest.take length, { cursor with rest := cursor.rest.drop length })
  else return []

def enumeration (E : Type) [ByteEnum E] : ByteReader E := do
  let value ← u8
  if value > ByteEnum.highest E then StickyParser.fail (ByteEnum.ofByte 0)
  else return ByteEnum.ofByte value

/-! ## Each read inverts a write -/

open StickyParser

theorem request_of_le {width : Nat} {input : List UInt8} (hLong : width ≤ input.length) :
    request width ⟨input, false⟩ = (true, ⟨input, false⟩) := by
  unfold request
  rw [if_neg]
  simpa using hLong

/-- A guarded read of a fixed number of bytes: it takes that many, whatever they
are, or fails. -/
theorem parses_request {α : Type} {width : Nat} {read : ByteReader α} {otherwise : α}
    {f : List UInt8 → α} (hRead : ∀ bytes rest, bytes.length = width →
      read ⟨bytes ++ rest, false⟩ = (f bytes, ⟨rest, false⟩)) :
    Parses (do if ← request width then read else return otherwise)
      (fun result used => used.length = width ∧ result = f used) where
  reads := by
    rintro result used ⟨hLength, rfl⟩ rest
    rw [bind_apply, request_of_le (by rw [length_append]; omega)]
    exact hRead used rest hLength
  sound := by
    intro input hEnd
    rw [bind_apply] at hEnd ⊢
    by_cases hShort : input.length < width
    · have hFails : request width ⟨input, false⟩ = (false, ⟨input, true⟩) := by
        unfold request
        rw [if_pos (by simp [hShort])]
      rw [hFails] at hEnd
      cases hEnd
    have hTaken : (input.take width).length = width := by
      rw [length_take]
      omega
    have hRun := hRead (input.take width) (input.drop width) hTaken
    rw [take_append_drop] at hRun
    rw [request_of_le (Nat.le_of_not_lt hShort)]
    show ∃ used, (used.length = width ∧ (read ⟨input, false⟩).1 = f used) ∧
      input = used ++ (read ⟨input, false⟩).2.rest
    rw [hRun]
    exact ⟨input.take width, ⟨hTaken, rfl⟩, (take_append_drop width input).symm⟩
  sticky := by
    intro input
    have hFails : request width ⟨input, true⟩ = (false, ⟨input, true⟩) := by
      unfold request
      rw [if_pos (by simp)]
    rw [bind_apply, hFails]
    rfl

theorem parses_u8 : Parses u8 (fun value used => used = ByteWriter.u8 value) := by
  refine (parses_request (f := fun bytes => bytes.headD 0) ?_).congr ?_
  · intro bytes rest hLength
    obtain ⟨byte, rfl⟩ := length_eq_one_iff.mp hLength
    rfl
  · intro value used
    constructor
    · rintro ⟨hLength, rfl⟩
      obtain ⟨byte, rfl⟩ := length_eq_one_iff.mp hLength
      rfl
    · rintro rfl
      exact ⟨rfl, rfl⟩

theorem parses_take (width : Nat) :
    Parses (take width)
      (fun value used => value < 256 ^ width ∧ used = ByteWriter.put value width) := by
  refine (parses_request (f := ofBytes) ?_).congr ?_
  · intro bytes rest hLength
    subst hLength
    unfold assemble
    rw [take_left, drop_left, foldl_shiftLeft_eq_ofBytes]
  · intro value used
    rw [ByteWriter.put_eq]
    constructor
    · rintro ⟨rfl, rfl⟩
      exact ⟨ofBytes_lt used, (toBytes_ofBytes used).symm⟩
    · rintro ⟨hLt, rfl⟩
      exact ⟨length_toBytes width value, (ofBytes_toBytes hLt).symm⟩

theorem takes_take (width : Nat) : Takes (take width) width := by
  intro input hLong
  unfold take
  rw [bind_apply, request_of_le hLong]
  rfl

theorem takes_u8 : Takes u8 1 := by
  intro input hLong
  unfold u8
  rw [bind_apply, request_of_le hLong, drop_one]
  rfl

theorem parses_u16 : Parses u16 (fun value used => value < 2 ^ 16 ∧ used = ByteWriter.u16 value) :=
  parses_take 2

theorem parses_u32 : Parses u32 (fun value used => value < 2 ^ 32 ∧ used = ByteWriter.u32 value) :=
  parses_take 4

theorem parses_u64 : Parses u64 (fun value used => value < 2 ^ 64 ∧ used = ByteWriter.u64 value) :=
  parses_take 8

theorem parses_i64 :
    Parses i64 (fun value used => SignedWord value ∧ used = ByteWriter.i64 value) := by
  refine (parses_u64.bind fun word => Parses.pure (Word64.toSigned word)).congr ?_
  intro value used
  constructor
  · rintro ⟨word, first, second, ⟨hLt, hFirst⟩, ⟨hValue, hSecond⟩, hUsed⟩
    obtain ⟨hSigned, hWord⟩ := (Word64.toSigned_eq_iff hLt).mp hValue.symm
    refine ⟨hSigned, ?_⟩
    rw [hUsed, hFirst, hSecond, append_nil, ByteWriter.i64, ← hWord]
  · rintro ⟨hSigned, rfl⟩
    generalize hWord : (value % Word64.modulus).toNat = word
    have hLt : word < Word64.modulus := by
      have hPos : (0 : Int) < Word64.modulus := Int.natCast_pos.mpr Word64.modulus_pos
      have hLow := Int.emod_nonneg value hPos.ne'
      have hHigh := Int.emod_lt_of_pos value hPos
      omega
    refine ⟨word, ByteWriter.u64 word, [], ⟨hLt, rfl⟩, ⟨?_, rfl⟩, ?_⟩
    · exact ((Word64.toSigned_eq_iff hLt).mpr ⟨hSigned, hWord.symm⟩).symm
    · rw [ByteWriter.i64, hWord, append_nil]

/-- A byte that is checked before it is turned into a value. -/
theorem parses_checked {α : Type} (highest : UInt8) (otherwise : α) (f : UInt8 → α)
    (g : α → UInt8) (hValid : ∀ value, g value ≤ highest) (hLeft : ∀ value, f (g value) = value)
    (hRight : ∀ byte, byte ≤ highest → g (f byte) = byte) :
    Parses (do
        let byte ← u8
        if byte > highest then StickyParser.fail otherwise else return f byte)
      (fun value used => used = ByteWriter.u8 (g value)) := by
  have hNext : ∀ byte, Parses
      (if byte > highest then StickyParser.fail otherwise else return f byte : ByteReader α)
      (fun value used => byte ≤ highest ∧ value = f byte ∧ used = []) := by
    intro byte
    by_cases hByte : byte ≤ highest
    · rw [if_neg (UInt8.not_lt.mpr hByte)]
      exact (Parses.pure (f byte)).congr fun value used => by simp [hByte]
    · rw [if_pos (UInt8.not_le.mp hByte)]
      exact (Parses.fail otherwise).congr fun value used => by simp [hByte]
  refine (parses_u8.bind hNext).congr fun value used => ?_
  constructor
  · rintro ⟨byte, first, second, rfl, ⟨hByte, rfl, rfl⟩, rfl⟩
    rw [hRight byte hByte, append_nil]
  · rintro rfl
    exact ⟨g value, _, [], rfl, ⟨hValid value, (hLeft value).symm, rfl⟩, (append_nil _).symm⟩

theorem parses_boolean : Parses boolean (fun value used => used = ByteWriter.boolean value) := by
  refine parses_checked 1 false (fun byte => byte == 1) (fun value => if value then 1 else 0)
    (by decide) (by decide) fun byte hByte => ?_
  have hNat : byte.toNat ≤ 1 := UInt8.le_iff_toNat_le.mp hByte
  obtain hZero | hOne : byte.toNat = 0 ∨ byte.toNat = 1 := by omega
  · obtain rfl : byte = 0 := UInt8.toNat_inj.mp hZero
    rfl
  · obtain rfl : byte = 1 := UInt8.toNat_inj.mp hOne
    rfl

theorem parses_enumeration (E : Type) [ByteEnum E] :
    Parses (enumeration E) (fun value used => used = ByteWriter.enumeration value) :=
  parses_checked (ByteEnum.highest E) (ByteEnum.ofByte 0) ByteEnum.ofByte ByteEnum.toByte
    ByteEnum.toByte_le ByteEnum.ofByte_toByte ByteEnum.toByte_ofByte

theorem parses_string :
    Parses string
      (fun value used => value.length < 2 ^ 16 ∧ used = ByteWriter.string value) := by
  have hBody : ∀ length, Parses (do
      if ← request length then
        (fun cursor => (cursor.rest.take length,
          { cursor with rest := cursor.rest.drop length }) : ByteReader (List UInt8))
      else return [])
      (fun value used => used.length = length ∧ value = used) := by
    intro length
    refine parses_request (f := fun used => used) fun bytes rest hLength => ?_
    subst hLength
    rw [take_left, drop_left]
  refine (parses_u16.bind hBody).congr fun value used => ?_
  constructor
  · rintro ⟨length, first, second, ⟨hLt, rfl⟩, ⟨rfl, rfl⟩, rfl⟩
    refine ⟨hLt, ?_⟩
    rw [ByteWriter.string, Nat.mod_eq_of_lt hLt]
  · rintro ⟨hLt, rfl⟩
    refine ⟨value.length, _, value, ⟨hLt, rfl⟩, ⟨rfl, rfl⟩, ?_⟩
    rw [ByteWriter.string, Nat.mod_eq_of_lt hLt]

end ByteReader

/-! ## The venue's data as bytes -/

instance : ByteEnum Side :=
  .ofValues [.buy, .sell] (by decide) (fun value => by cases value <;> decide) (by decide)

instance : ByteEnum OrderType :=
  .ofValues [.limit, .market] (by decide) (fun value => by cases value <;> decide) (by decide)

instance : ByteEnum TimeInForce :=
  .ofValues [.day, .immediateOrCancel, .fillOrKill, .goodTilCancelled] (by decide)
    (fun value => by cases value <;> decide) (by decide)

instance : ByteEnum SelfTradePolicy :=
  .ofValues [.allow, .cancelIncoming, .cancelResting, .cancelBoth, .decrementBoth] (by decide)
    (fun value => by cases value <;> decide) (by decide)

instance : ByteEnum RejectReason :=
  .ofValues [.none, .unknownInstrument, .unknownOrder, .duplicateOrderId, .invalidPrice,
    .invalidQuantity, .invalidSide, .fillOrKillUnfillable, .postOnlyWouldCross, .selfTrade,
    .riskLimit, .priceCollar, .halted, .rateLimit] (by decide)
    (fun value => by cases value <;> decide) (by decide)

def NewOrder.Fits (command : NewOrder) : Prop :=
  command.id.value < 2 ^ 64 ∧ command.account.value < 2 ^ 64 ∧
    command.instrument.value < 2 ^ 64 ∧ SignedWord command.price ∧ command.quantity < 2 ^ 64

def CancelOrder.Fits (command : CancelOrder) : Prop :=
  command.id.value < 2 ^ 64 ∧ command.account.value < 2 ^ 64 ∧ command.instrument.value < 2 ^ 64

def ReplaceOrder.Fits (command : ReplaceOrder) : Prop :=
  command.id.value < 2 ^ 64 ∧ command.account.value < 2 ^ 64 ∧
    command.instrument.value < 2 ^ 64 ∧ SignedWord command.newPrice ∧
    command.newQuantity < 2 ^ 64

end ExchangeCore
