/-!
# Framing a stream

A stream arrives in pieces that have nothing to do with the frames in it.  A reader
keeps what it has not used, adds the next piece and takes as many frames as there
are.

`Framing` is what makes this work: a verdict other than "not all there yet" stands
whatever arrives later, and a frame uses up something.  Then taking frames piece by
piece is taking them from the whole stream (`foldlM_feed`), and what becomes of
the stream is what becomes of its frames, one after the other (`map_drain`).
-/

namespace ExchangeCore

inductive Verdict (τ α : Type) where
  | incomplete
  | unreadable
  | frame (value : α) (rest : List τ)

/-- How the frame at the front of a stream is found. -/
structure Framing (τ α : Type) where
  next : List τ → Verdict τ α
  next_nil : next [] = .incomplete
  /-- Frames are not empty. -/
  shrinks : ∀ {data value rest}, next data = .frame value rest → rest.length < data.length
  /-- A frame stays the first one. -/
  frame_append : ∀ {data value rest}, next data = .frame value rest →
    ∀ more, next (data ++ more) = .frame value (rest ++ more)
  /-- What cannot be read cannot be read later either. -/
  unreadable_append : ∀ {data}, next data = .unreadable → ∀ more, next (data ++ more) = .unreadable

namespace Framing

variable {τ α σ : Type} (framing : Framing τ α)

/-- All frames of a stream, and whether something unreadable follows them.  There
are no more frames than bytes. -/
def frames : Nat → List τ → List α × Bool
  | 0, _ => ([], false)
  | fuel + 1, data =>
    match framing.next data with
    | .incomplete => ([], false)
    | .unreadable => ([], true)
    | .frame value rest =>
      let (values, unreadable) := frames fuel rest
      (value :: values, unreadable)

variable (accept : σ → α → Except σ σ) (refuse : σ → σ)

/-- Take frames from the front as long as they are accepted.  An error is the state
in which nothing more is taken. -/
def drain : Nat → σ → List τ → Except σ (σ × List τ)
  | 0, state, data => .ok (state, data)
  | fuel + 1, state, data =>
    match framing.next data with
    | .incomplete => .ok (state, data)
    | .unreadable => .error (refuse state)
    | .frame value rest => do
      let state ← accept state value
      drain fuel state rest

def drainAll (state : σ) (data : List τ) : Except σ (σ × List τ) :=
  framing.drain accept refuse data.length state data

/-- Add a piece to what was left, and take the frames that are there now. -/
def feed (held : σ × List τ) (piece : List τ) : Except σ (σ × List τ) :=
  framing.drainAll accept refuse held.1 (held.2 ++ piece)

variable {accept refuse}

variable (accept refuse) in
/-- Draining a stream is accepting its frames. -/
theorem map_drain (fuel : Nat) (state : σ) (data : List τ) :
    Prod.fst <$> framing.drain accept refuse fuel state data = (do
      let state ← (framing.frames fuel data).1.foldlM accept state
      if (framing.frames fuel data).2 then .error (refuse state) else .ok state) := by
  induction fuel generalizing state data with
  | zero => rfl
  | succ fuel ih =>
    rw [drain, frames]
    cases framing.next data with
    | incomplete => rfl
    | unreadable => rfl
    | frame value rest =>
      dsimp only
      rw [List.foldlM_cons]
      cases accept state value with
      | error state => rfl
      | ok state => exact ih state rest

variable {data : List τ}

/-- More passes than there are bytes change nothing. -/
theorem drain_of_le {fuel : Nat} (hFuel : data.length ≤ fuel) (state : σ) :
    framing.drain accept refuse fuel state data = framing.drainAll accept refuse state data := by
  suffices hSame : ∀ more, ∀ data : List τ, data.length ≤ more → ∀ state,
      framing.drain accept refuse (more + 1) state data =
        framing.drain accept refuse more state data by
    obtain ⟨excess, rfl⟩ := Nat.exists_eq_add_of_le hFuel
    induction excess with
    | zero => rfl
    | succ excess ih =>
      rw [← Nat.add_assoc, hSame _ data (Nat.le_add_right _ _)]
      exact ih (Nat.le_add_right _ _)
  intro more
  induction more with
  | zero =>
    intro data hData state
    obtain rfl := List.length_eq_zero_iff.mp (Nat.le_zero.mp hData)
    rw [drain, drain, framing.next_nil]
  | succ more ih =>
    intro data hData state
    rw [drain, drain]
    cases hNext : framing.next data with
    | incomplete => rfl
    | unreadable => rfl
    | frame value rest =>
      have hLess := framing.shrinks hNext
      dsimp only
      cases accept state value with
      | error state => rfl
      | ok state => exact ih rest (by omega) state

/-- One frame, then the others. -/
theorem drainAll_frame {rest : List τ} {value : α} (hNext : framing.next data = .frame value rest)
    (state : σ) :
    framing.drainAll accept refuse state data = (do
      let state ← accept state value
      framing.drainAll accept refuse state rest) := by
  have hLess := framing.shrinks hNext
  obtain ⟨fuel, hFuel⟩ : ∃ fuel, data.length = fuel + 1 := ⟨data.length - 1, by omega⟩
  rw [drainAll, hFuel, drain, hNext]
  dsimp only
  cases accept state value with
  | error state => rfl
  | ok state => exact framing.drain_of_le (by omega) state

theorem drainAll_incomplete (hNext : framing.next data = .incomplete) (state : σ) :
    framing.drainAll accept refuse state data = .ok (state, data) := by
  rw [← framing.drain_of_le (Nat.le_succ _), drain, hNext]

theorem drainAll_unreadable (hNext : framing.next data = .unreadable) (state : σ) :
    framing.drainAll accept refuse state data = .error (refuse state) := by
  rw [← framing.drain_of_le (Nat.le_succ _), drain, hNext]

/-- Where a stream is cut does not matter. -/
theorem drainAll_append (state : σ) (data more : List τ) :
    framing.drainAll accept refuse state (data ++ more) = (do
      let held ← framing.drainAll accept refuse state data
      framing.feed accept refuse held more) := by
  -- By the length of what comes first; each frame of it is a frame of the whole.
  induction hLength : data.length using Nat.strongRecOn generalizing state data with
  | ind length ih =>
    cases hNext : framing.next data with
    | incomplete => rw [framing.drainAll_incomplete hNext]; rfl
    | unreadable =>
      rw [framing.drainAll_unreadable hNext,
        framing.drainAll_unreadable (framing.unreadable_append hNext more)]
      rfl
    | frame value rest =>
      rw [framing.drainAll_frame hNext, framing.drainAll_frame (framing.frame_append hNext more)]
      cases accept state value with
      | error state => rfl
      | ok state => exact ih _ (hLength ▸ framing.shrinks hNext) state rest rfl

variable (accept refuse) in
/-- Piece by piece is all at once. -/
theorem foldlM_feed (state : σ) (data : List τ) (pieces : List (List τ)) :
    (do
      let held ← framing.drainAll accept refuse state data
      pieces.foldlM (framing.feed accept refuse) held) =
    framing.drainAll accept refuse state (data ++ pieces.flatten) := by
  induction pieces generalizing data with
  | nil =>
    rw [List.flatten_nil, List.append_nil]
    exact bind_pure _
  | cons piece pieces ih =>
    rw [List.flatten_cons, ← List.append_assoc, ← ih, framing.drainAll_append]
    simp only [List.foldlM_cons, bind_assoc]

end Framing
end ExchangeCore
