/-!
# Parsers with a sticky failure

A parser walks over a list of tokens.  It does not stop when something is wrong:
it sets a flag, goes on with default values, and whoever asked looks at the flag
at the end.

`Parses m R` is the whole meaning of such a parser: `R value used` relates a value
to the tokens it is read from.  It goes through binds, so the relation of a
parser is assembled from those of its parts, and it is enough to know that no
token list is read as a proper part of another (`Parses.eq_of_prefix`).
-/

namespace ExchangeCore

/-- The tokens that are left, and whether some read has failed. -/
structure Cursor (τ : Type) where
  rest : List τ
  failed : Bool := false
  deriving DecidableEq

/-- Everything was read and nothing failed. -/
def Cursor.fullyConsumed {τ : Type} (cursor : Cursor τ) : Bool :=
  !cursor.failed && cursor.rest.isEmpty

def StickyParser (τ α : Type) : Type := Cursor τ → α × Cursor τ

namespace StickyParser

variable {τ α β : Type}

instance : Monad (StickyParser τ) where
  pure value := fun cursor => (value, cursor)
  bind m f := fun cursor => f (m cursor).1 (m cursor).2

/-- Give up, with a value to go on with. -/
def fail (value : α) : StickyParser τ α := fun cursor => (value, { cursor with failed := true })

variable (value : α) (cursor : Cursor τ)

theorem pure_apply : (pure value : StickyParser τ α) cursor = (value, cursor) := rfl

theorem bind_apply (m : StickyParser τ α) (f : α → StickyParser τ β) (cursor : Cursor τ) :
    (m >>= f) cursor = f (m cursor).1 (m cursor).2 := rfl

theorem bind_assoc {γ : Type} (m : StickyParser τ α) (f : α → StickyParser τ β)
    (g : β → StickyParser τ γ) : (m >>= f) >>= g = m >>= fun value => f value >>= g := rfl

theorem pure_bind (f : α → StickyParser τ β) : pure value >>= f = f value := rfl

/-- First a value, then what is read in its light. -/
def Then (R : α → List τ → Prop) (S : α → β → List τ → Prop) (result : β) (used : List τ) : Prop :=
  ∃ value first second, R value first ∧ S value result second ∧ used = first ++ second

variable {R : α → List τ → Prop} {m : StickyParser τ α}

theorem Then.intro {S : α → β → List τ → Prop} {value : α} {result : β}
    {first second : List τ} (hFirst : R value first) (hSecond : S value result second) :
    Then R S result (first ++ second) :=
  ⟨value, first, second, hFirst, hSecond, rfl⟩

/-- The parser reads exactly what the relation says and leaves the rest, and once
something has failed it stays failed. -/
structure Parses (m : StickyParser τ α) (R : α → List τ → Prop) : Prop where
  reads : ∀ {value used}, R value used → ∀ rest, m ⟨used ++ rest, false⟩ = (value, ⟨rest, false⟩)
  sound : ∀ input, (m ⟨input, false⟩).2.failed = false →
    ∃ used, R (m ⟨input, false⟩).1 used ∧ input = used ++ (m ⟨input, false⟩).2.rest
  sticky : ∀ input, (m ⟨input, true⟩).2.failed = true

namespace Parses

variable {R' : α → List τ → Prop}

theorem congr (hParses : Parses m R) (hIff : ∀ value used, R value used ↔ R' value used) :
    Parses m R' where
  reads := fun h => hParses.reads ((hIff _ _).mpr h)
  sound := fun input h => by
    obtain ⟨used, hUsed, hInput⟩ := hParses.sound input h
    exact ⟨used, (hIff _ _).mp hUsed, hInput⟩
  sticky := hParses.sticky

theorem pure :
    Parses (Pure.pure value : StickyParser τ α)
      (fun value' used => value' = value ∧ used = []) where
  reads := by
    rintro value' used ⟨rfl, rfl⟩ rest
    rfl
  sound := fun _ _ => ⟨[], ⟨rfl, rfl⟩, rfl⟩
  sticky := fun _ => rfl

theorem fail : Parses (StickyParser.fail value : StickyParser τ α) (fun _ _ => False) where
  reads := fun h => h.elim
  sound := fun _ h => absurd h (by simp [StickyParser.fail])
  sticky := fun _ => rfl

end Parses

/-! ## Parsers that may give up

A parser may also come to no value at all without having failed.  Then only what it
reads when it does come to a value is described. -/

/-- The parser reads exactly what the relation says, or comes to no value. -/
structure ParsesSome (m : StickyParser τ (Option α)) (R : α → List τ → Prop) : Prop where
  reads : ∀ {value used}, R value used → ∀ rest,
    m ⟨used ++ rest, false⟩ = (some value, ⟨rest, false⟩)
  sound : ∀ {input value rest}, m ⟨input, false⟩ = (some value, ⟨rest, false⟩) →
    ∃ used, R value used ∧ input = used ++ rest
  sticky : ∀ input, (m ⟨input, true⟩).2.failed = true

namespace ParsesSome

variable {m : StickyParser τ (Option α)} {R' : α → List τ → Prop}

theorem congr (hParses : ParsesSome m R) (hIff : ∀ value used, R value used ↔ R' value used) :
    ParsesSome m R' where
  reads := fun h => hParses.reads ((hIff _ _).mpr h)
  sound := fun h => by
    obtain ⟨used, hUsed, hInput⟩ := hParses.sound h
    exact ⟨used, (hIff _ _).mp hUsed, hInput⟩
  sticky := hParses.sticky

theorem pure :
    ParsesSome (Pure.pure (some value) : StickyParser τ (Option α))
      (fun value' used => value' = value ∧ used = []) where
  reads := by
    rintro value' used ⟨rfl, rfl⟩ rest
    rfl
  sound := by
    intro input value' rest hRun
    cases hRun
    exact ⟨[], ⟨rfl, rfl⟩, rfl⟩
  sticky := fun _ => rfl

variable {first : StickyParser τ α} {S : α → β → List τ → Prop}

/-- A value that is always there, as part of a larger one. -/
theorem map (hFirst : Parses first R) (f : α → β) :
    ParsesSome (do let value ← first; return some (f value))
      (fun result used => ∃ value, R value used ∧ result = f value) where
  reads := by
    rintro result used ⟨value, hUsed, rfl⟩ rest
    rw [bind_apply, hFirst.reads hUsed]
    rfl
  sound := by
    intro input result rest hRun
    rw [bind_apply, pure_apply] at hRun
    obtain ⟨hResult, hCursor⟩ := Prod.mk.inj hRun
    have hUsed := hFirst.sound input (by rw [hCursor])
    rw [hCursor] at hUsed
    obtain ⟨used, hUsed, hInput⟩ := hUsed
    exact ⟨used, ⟨_, hUsed, (Option.some.inj hResult).symm⟩, hInput⟩
  sticky := hFirst.sticky

/-- First a value that may not be there; without it there is none in the end. -/
theorem bindSome (hFirst : ParsesSome m R) {f : Option α → StickyParser τ (Option β)}
    (hNone : f none = Pure.pure none) (hNext : ∀ value, ParsesSome (f (some value)) (S value)) :
    ParsesSome (m >>= f) (Then R S) where
  reads := by
    rintro result used ⟨value, front, back, hFront, hBack, rfl⟩ rest
    rw [bind_apply, List.append_assoc, hFirst.reads hFront]
    exact (hNext value).reads hBack rest
  sound := by
    intro input result rest hRun
    rw [bind_apply] at hRun
    obtain ⟨found, ⟨left, failed⟩, hFound⟩ :
      ∃ found cursor, m ⟨input, false⟩ = (found, cursor) := ⟨_, _, rfl⟩
    rw [hFound] at hRun
    cases found with
    | none =>
      rw [hNone] at hRun
      cases hRun
    | some value =>
      cases failed with
      | true =>
        have hFailed := (hNext value).sticky left
        rw [hRun] at hFailed
        cases hFailed
      | false =>
        obtain ⟨front, hFront, hInput⟩ := hFirst.sound hFound
        obtain ⟨back, hBack, hLeft⟩ := (hNext value).sound hRun
        refine ⟨front ++ back, .intro hFront hBack, ?_⟩
        rw [List.append_assoc, ← hLeft]
        exact hInput
  sticky := by
    intro input
    rw [bind_apply]
    obtain ⟨found, ⟨left, failed⟩, hFound⟩ :
      ∃ found cursor, m ⟨input, true⟩ = (found, cursor) := ⟨_, _, rfl⟩
    have hFailed := hFirst.sticky input
    rw [hFound] at hFailed ⊢
    obtain rfl : failed = true := hFailed
    cases found with
    | none => rw [hNone, pure_apply]
    | some value => exact (hNext value).sticky left

/-- A value that is always there is one that may not be there, but is. -/
theorem iff_parses :
    ParsesSome (do let value ← first; return some value) R ↔ Parses first R := by
  constructor
  · intro hSome
    refine ⟨fun hUsed rest => ?_, fun input hEnd => ?_, hSome.sticky⟩
    · have hRun := hSome.reads hUsed rest
      rw [bind_apply, pure_apply] at hRun
      obtain ⟨hValue, hCursor⟩ := Prod.mk.inj hRun
      exact Prod.ext (Option.some.inj hValue) hCursor
    · have hCursor : (first ⟨input, false⟩).2 = ⟨(first ⟨input, false⟩).2.rest, false⟩ :=
        congrArg (Cursor.mk _) hEnd
      exact hSome.sound (congrArg (Prod.mk (some _)) hCursor)
  · exact fun hFirst => (map hFirst id).congr fun value used => by simp

theorem bind (hFirst : Parses first R) {f : α → StickyParser τ (Option β)}
    (hNext : ∀ value, ParsesSome (f value) (S value)) :
    ParsesSome (first >>= f) (Then R S) :=
  (iff_parses.mpr hFirst).bindSome (f := fun found => found.elim (Pure.pure none) f) rfl hNext

/-- Coming to a value with everything read is reading all of it. -/
theorem fullyConsumed_iff (hParses : ParsesSome m R) (input : List τ) (value : α) :
    (∃ cursor, m ⟨input, false⟩ = (some value, cursor) ∧ cursor.fullyConsumed = true) ↔
      R value input := by
  constructor
  · rintro ⟨⟨rest, failed⟩, hRun, hDone⟩
    simp only [Cursor.fullyConsumed, Bool.and_eq_true, Bool.not_eq_true', List.isEmpty_iff] at hDone
    obtain ⟨rfl, rfl⟩ := hDone
    obtain ⟨used, hUsed, hInput⟩ := hParses.sound hRun
    rw [List.append_nil] at hInput
    rw [hInput]
    exact hUsed
  · intro hValue
    have hRun := hParses.reads hValue []
    rw [List.append_nil] at hRun
    exact ⟨_, hRun, rfl⟩

end ParsesSome

/-! ## Putting parsers together -/

namespace Parses

variable {f : α → StickyParser τ β} {write : α → List τ} {K G : β → Prop} {rest : β → List τ}

theorem bind (hParses : Parses m R) {S : α → β → List τ → Prop}
    (hNext : ∀ value, Parses (f value) (S value)) : Parses (m >>= f) (Then R S) :=
  ParsesSome.iff_parses.mp
    (ParsesSome.bind hParses fun value => ParsesSome.iff_parses.mpr (hNext value))

/-- Field by field: `K` is what the fields read so far say of the result, and the next
one is a part of it. -/
theorem field {F : α → Prop}
    (hFirst : Parses m fun value used => F value ∧ used = write value) (part : β → α)
    (hNext : ∀ value, Parses (f value) fun result used =>
      (K result ∧ part result = value) ∧ G result ∧ used = rest result) :
    Parses (m >>= f) fun result used =>
      K result ∧ (F (part result) ∧ G result) ∧ used = write (part result) ++ rest result := by
  refine (hFirst.bind hNext).congr fun result used => ?_
  constructor
  · rintro ⟨value, _, _, ⟨hF, rfl⟩, ⟨⟨hK, rfl⟩, hG, rfl⟩, rfl⟩
    exact ⟨hK, ⟨hF, hG⟩, rfl⟩
  · rintro ⟨hK, ⟨hF, hG⟩, rfl⟩
    exact .intro ⟨hF, rfl⟩ ⟨⟨hK, rfl⟩, hG, rfl⟩

/-- A field whose type has no values that do not fit. -/
theorem anyField (hFirst : Parses m fun value used => used = write value) (part : β → α)
    (hNext : ∀ value, Parses (f value) fun result used =>
      (K result ∧ part result = value) ∧ G result ∧ used = rest result) :
    Parses (m >>= f) fun result used =>
      K result ∧ G result ∧ used = write (part result) ++ rest result := by
  have hFits : Parses m fun value used => True ∧ used = write value :=
    hFirst.congr fun _ _ => by rw [true_and]
  exact (hFits.field part hNext).congr fun _ _ => by rw [true_and]

/-- The fields determine the result. -/
theorem done {value : α} {K : α → Prop} (hOnly : ∀ result, K result ↔ result = value) :
    Parses (Pure.pure value : StickyParser τ α) fun result used =>
      K result ∧ True ∧ used = [] :=
  (pure value).congr fun result used => by rw [hOnly, true_and]

/-- A value in front of a body, cut off at its size. -/
theorem front {F : α → Prop} (hParses : Parses m fun value used => F value ∧ used = write value)
    {value : α} (hFits : F value) {size : Nat} (hSize : (write value).length = size)
    (body : List τ) :
    (write value ++ body).length = size + body.length ∧
      m ⟨(write value ++ body).take size, false⟩ = (value, ⟨[], false⟩) ∧
      (write value ++ body).drop size = body := by
  refine ⟨by rw [List.length_append, hSize], ?_, List.drop_left' hSize⟩
  rw [List.take_left' hSize, ← List.append_nil (write value)]
  exact hParses.reads ⟨hFits, rfl⟩ []

/-- Nothing that can be read is a proper part of something else that can. -/
theorem eq_of_prefix (hParses : Parses m R) {value value' : α} {used rest : List τ}
    (hShort : R value used) (hLong : R value' (used ++ rest)) : rest = [] := by
  have hRun := hParses.reads hLong []
  rw [List.append_nil, hParses.reads hShort rest] at hRun
  exact congrArg (fun run => Cursor.rest (Prod.snd run)) hRun

/-- Reading a list to its end, with nothing failing, is reading all of it. -/
theorem fullyConsumed_iff (hParses : Parses m R) (input : List τ) :
    (m ⟨input, false⟩).2.fullyConsumed = true ↔ R (m ⟨input, false⟩).1 input := by
  rw [← (ParsesSome.iff_parses.mpr hParses).fullyConsumed_iff]
  constructor
  · exact fun hDone => ⟨_, rfl, hDone⟩
  · rintro ⟨cursor, hRun, hDone⟩
    cases hRun
    exact hDone

end Parses

/-- The parser takes so many tokens, whatever they are, if they are there. -/
def Takes (m : StickyParser τ α) (count : Nat) : Prop :=
  ∀ input, count ≤ input.length → (m ⟨input, false⟩).2 = ⟨input.drop count, false⟩

theorem takes_pure : Takes (pure value : StickyParser τ α) 0 := fun _ _ => rfl

theorem Takes.bind {f : α → StickyParser τ β} {first second : Nat}
    (hFirst : Takes m first) (hNext : ∀ value, Takes (f value) second) :
    Takes (m >>= f) (first + second) := by
  intro input hLong
  rw [bind_apply, hFirst input (by omega), hNext _ _ (by rw [List.length_drop]; omega),
    List.drop_drop]

/-- So there is a value in front of every list that is long enough. -/
theorem Takes.exists_value {count : Nat}
    (hTakes : Takes m count) (hParses : Parses m R) {input : List τ}
    (hLong : count ≤ input.length) : ∃ value used rest, R value used ∧ used ++ rest = input := by
  obtain ⟨used, hUsed, hInput⟩ := hParses.sound input (by rw [hTakes input hLong])
  exact ⟨_, used, _, hUsed, hInput.symm⟩

end StickyParser
end ExchangeCore
