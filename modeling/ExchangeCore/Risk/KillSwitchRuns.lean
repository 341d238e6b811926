import Mathlib.Data.List.DropRight
import ExchangeCore.Lib.Machine
import ExchangeCore.Risk.KillSwitch

/-!
# What trips the kill switch

Calls of the kill switch as events of a run.  An account is halted in the end exactly if
its history asks for it (`Trips`): since it was last resumed it was halted explicitly, or
rejected so many times with nothing accepted in between.  While the account is open its
counter is the length of the run of rejects the history ends with (`Explains`); while it
is halted the counter is frozen, and only a resume gets it going again.
-/

namespace ExchangeCore

open List

/-- A call that concerns one account. -/
inductive HaltEvent
  | halt (account : AccountId) (reason : HaltReason) (now : Int)
  | resume (account : AccountId)
  | reject (account : AccountId) (now : Int)
  | accept (account : AccountId)
  deriving DecidableEq

namespace HaltEvent

def account : HaltEvent → AccountId
  | halt account _ _ | resume account | reject account _ | accept account => account

def isReject (account : AccountId) : HaltEvent → Bool
  | reject other _ => decide (other = account)
  | _ => false

/-- Since the account was last resumed, it was halted explicitly, or rejected as often as
the threshold says with nothing accepted in between. -/
def Trips (threshold : Nat) (account : AccountId) (events : List HaltEvent) : Prop :=
  ∃ since, since <:+ events ∧ .resume account ∉ since ∧
    ((∃ reason now, .halt account reason now ∈ since) ∨
      ∃ between, between <+: since ∧ .accept account ∉ between ∧
        threshold ≤ between.countP (isReject account))

/-- The rejects at the end of a history that no accept or resume comes after. -/
def streak (account : AccountId) (events : List HaltEvent) : Nat :=
  (events.rtakeWhile fun event => event ≠ .accept account ∧ event ≠ .resume account).countP
    (isReject account)

section History

variable {account : AccountId} {threshold : Nat} {events back : List HaltEvent}
  {event : HaltEvent}

theorem streak_concat : streak account (events ++ [event]) =
    if event ≠ .accept account ∧ event ≠ .resume account then
      streak account events + (isReject account event).toNat
    else 0 := by
  simp only [streak, rtakeWhile_concat, decide_eq_true_eq]
  split
  · rw [countP_append, countP_singleton]
    cases isReject account event <;> rfl
  · rfl

theorem countP_le_streak (hBack : back <:+ events) (hAccept : .accept account ∉ back)
    (hResume : .resume account ∉ back) :
    back.countP (isReject account) ≤ streak account events := by
  induction events using List.reverseRecOn generalizing back with
  | nil => rw [suffix_nil.mp hBack]; rfl
  | append_singleton events event ih =>
    rcases suffix_concat_iff.mp hBack with rfl | ⟨front, rfl, hFront⟩
    · exact Nat.zero_le _
    rw [mem_append, mem_singleton, not_or] at hAccept hResume
    rw [streak_concat, if_pos ⟨Ne.symm hAccept.2, Ne.symm hResume.2⟩, countP_append,
      countP_singleton]
    have hLe := ih hFront hAccept.1 hResume.1
    cases isReject account event
    · exact hLe
    · exact Nat.succ_le_succ hLe

theorem trips_of_le_streak (hMany : threshold ≤ streak account events) :
    Trips threshold account events := by
  have hOpen : ∀ {event}, event ∈ events.rtakeWhile (fun event =>
      decide (event ≠ .accept account ∧ event ≠ .resume account)) →
      event ≠ .accept account ∧ event ≠ .resume account := by
    intro event hMem
    simpa only [decide_eq_true_eq] using mem_rtakeWhile_imp hMem
  exact ⟨_, rtakeWhile_suffix _ _, fun hMem => (hOpen hMem).2 rfl,
    Or.inr ⟨_, prefix_rfl, fun hMem => (hOpen hMem).1 rfl, hMany⟩⟩

/-- Neither an empty history trips nor one that ends with a resume. -/
theorem exists_of_trips (hThreshold : 0 < threshold) (hTrips : Trips threshold account events) :
    events ≠ [] ∧ events.getLast? ≠ some (.resume account) := by
  obtain ⟨since, hSince, hResume, hWhy⟩ := hTrips
  have hSome : since ≠ [] := by
    rintro rfl
    rcases hWhy with ⟨reason, now, hMem⟩ | ⟨between, hPrefix, -, hMany⟩
    · cases hMem
    · rw [prefix_nil.mp hPrefix] at hMany
      exact absurd hMany (Nat.not_le.mpr hThreshold)
  obtain ⟨front, rfl⟩ := hSince
  refine ⟨append_ne_nil_of_right_ne_nil _ hSome, fun hLast => ?_⟩
  rw [List.getLast?_append_of_ne_nil _ hSome] at hLast
  exact hResume (mem_of_getLast? hLast)

/-- One event more: the history trips if it did before, or the event is a halt, or it
completes a run of rejects. -/
theorem trips_concat (hThreshold : 0 < threshold) (hEvent : event ≠ .resume account) :
    Trips threshold account (events ++ [event]) ↔ Trips threshold account events ∨
      (∃ reason now, event = .halt account reason now) ∨
      threshold ≤ streak account (events ++ [event]) := by
  have hNone : ∀ {since : List HaltEvent}, .resume account ∉ since ++ [event] ↔
      .resume account ∉ since := by
    intro since
    simp [Ne.symm hEvent]
  constructor
  · rintro ⟨since, hSince, hResume, hWhy⟩
    rcases suffix_concat_iff.mp hSince with rfl | ⟨since, rfl, hSuffix⟩
    · exact absurd rfl (exists_of_trips hThreshold ⟨[], nil_suffix, hResume, hWhy⟩).1
    rcases hWhy with ⟨reason, now, hMem⟩ | ⟨between, hPrefix, hAccept, hMany⟩
    · rcases mem_append.mp hMem with hMem | hMem
      · exact Or.inl ⟨since, hSuffix, hNone.mp hResume, Or.inl ⟨reason, now, hMem⟩⟩
      · exact Or.inr (Or.inl ⟨reason, now, (mem_singleton.mp hMem).symm⟩)
    rcases prefix_concat_iff.mp hPrefix with rfl | hPrefix
    · exact Or.inr (Or.inr (hMany.trans (countP_le_streak hSince hAccept hResume)))
    · exact Or.inl ⟨since, hSuffix, hNone.mp hResume, Or.inr ⟨between, hPrefix, hAccept, hMany⟩⟩
  · rintro (⟨since, hSince, hResume, hWhy⟩ | ⟨reason, now, rfl⟩ | hMany)
    · refine ⟨since ++ [event], suffix_concat_iff.mpr (Or.inr ⟨since, rfl, hSince⟩),
        hNone.mpr hResume, hWhy.imp ?_ ?_⟩
      · exact fun ⟨reason, now, hMem⟩ => ⟨reason, now, mem_append_left _ hMem⟩
      · exact fun ⟨between, hPrefix, hRest⟩ =>
          ⟨between, hPrefix.trans (prefix_append _ _), hRest⟩
    · exact ⟨_, suffix_append _ _, by simp, Or.inl ⟨reason, now, by simp⟩⟩
    · exact trips_of_le_streak hMany

end History

end HaltEvent

namespace KillSwitch

open HaltEvent

def apply (kill : KillSwitch) : HaltEvent → KillSwitch
  | .halt account reason now => kill.haltAccount account reason now
  | .resume account => kill.resumeAccount account
  | .reject account now => kill.recordReject account now
  | .accept account => kill.recordAccept account

def run (kill : KillSwitch) (events : List HaltEvent) : KillSwitch :=
  Machine.run apply kill events

/-- What a call does to the entry of its account. -/
def next (threshold : Nat) (entry : AccountHalt) : HaltEvent → AccountHalt
  | .halt _ reason now => { entry with state := { halted := true, reason := reason, since := now } }
  | .resume _ => {}
  | .reject _ now =>
    if entry.state.halted then entry
    else
      { consecutiveRejects := entry.consecutiveRejects + 1
        state :=
          if entry.consecutiveRejects + 1 ≥ threshold then
            { halted := true, reason := .repeatedRejects, since := now }
          else entry.state }
  | .accept _ => { entry with consecutiveRejects := 0 }

section Runs

variable {kill : KillSwitch} {account : AccountId} {events : List HaltEvent} {event : HaltEvent}
  {threshold : Nat} {entry : AccountHalt}

theorem haltOf_setHalt (kill : KillSwitch) (other : AccountId) (entry : AccountHalt)
    (account : AccountId) : (kill.setHalt other entry).haltOf account =
      if other = account then entry else kill.haltOf account := by
  unfold haltOf setHalt
  by_cases hOwn : other = account
  · rw [hOwn, if_pos rfl, AList.lookup_insert]
    rfl
  · rw [if_neg hOwn, AList.lookup_insert_ne (Ne.symm hOwn)]

/-- A call changes the entry of its own account and no other. -/
theorem haltOf_apply (hThreshold : 0 < kill.autoTripThreshold) (event : HaltEvent)
    (account : AccountId) : (kill.apply event).haltOf account =
      if event.account = account then next kill.autoTripThreshold (kill.haltOf account) event
      else kill.haltOf account := by
  -- every call stores the next entry, except where that is the entry it found
  have hStores : kill.apply event = kill.setHalt event.account
        (next kill.autoTripThreshold (kill.haltOf event.account) event) ∨
      kill.apply event = kill ∧ next kill.autoTripThreshold (kill.haltOf event.account) event =
        kill.haltOf event.account := by
    cases event with
    | halt other reason now => exact Or.inl rfl
    | resume other => exact Or.inl rfl
    | reject other now =>
      simp only [apply, recordReject, if_neg hThreshold.ne', next, HaltEvent.account]
      by_cases hHalted : (kill.haltOf other).state.halted = true
      · exact Or.inr ⟨if_pos hHalted, if_pos hHalted⟩
      · exact Or.inl ((if_neg hHalted).trans (congrArg _ (if_neg hHalted).symm))
    | accept other =>
      simp only [apply, recordAccept, HaltEvent.account, next, haltOf]
      cases kill.accounts.lookup other with
      | none => exact Or.inr ⟨rfl, rfl⟩
      | some entry => exact Or.inl rfl
  by_cases hOwn : event.account = account
  · rw [if_pos hOwn, ← hOwn]
    rcases hStores with hStores | ⟨hStores, hNext⟩
    · rw [hStores, haltOf_setHalt, if_pos rfl]
    · rw [hStores, hNext]
  rw [if_neg hOwn]
  rcases hStores with hStores | ⟨hStores, -⟩
  · rw [hStores, haltOf_setHalt, if_neg hOwn]
  · rw [hStores]

theorem threshold_apply (kill : KillSwitch) (event : HaltEvent) :
    (kill.apply event).autoTripThreshold = kill.autoTripThreshold := by
  cases event with
  | reject other now =>
    simp only [apply, recordReject]
    split
    · rfl
    · split <;> rfl
  | accept other =>
    simp only [apply, recordAccept]
    split <;> rfl
  | _ => rfl

theorem threshold_run (kill : KillSwitch) (events : List HaltEvent) :
    (kill.run events).autoTripThreshold = kill.autoTripThreshold := by
  induction events generalizing kill with
  | nil => rfl
  | cons event events ih => exact (ih _).trans (threshold_apply kill event)

theorem run_concat : kill.run (events ++ [event]) = (kill.run events).apply event :=
  foldl_concat ..

/-- So its own events decide, in the order in which they come. -/
theorem haltOf_run (hThreshold : 0 < kill.autoTripThreshold) :
    (kill.run events).haltOf account = (kill.run
      (events.filter fun event => decide (event.account = account))).haltOf account := by
  induction events using List.reverseRecOn with
  | nil => rfl
  | append_singleton events event ih =>
    have hApply : ∀ events, (kill.run (events ++ [event])).haltOf account =
        if event.account = account then
          next kill.autoTripThreshold ((kill.run events).haltOf account) event
        else (kill.run events).haltOf account := by
      intro events
      rw [run_concat, haltOf_apply (threshold_run kill events ▸ hThreshold), threshold_run]
    rw [hApply, filter_append, ih]
    by_cases hOwn : event.account = account
    · rw [filter_singleton, decide_eq_true hOwn, cond_true, hApply]
    · rw [filter_singleton, decide_eq_false hOwn, if_neg hOwn]
      exact congrArg (fun events => (kill.run events).haltOf account) (append_nil _).symm

theorem accountHalted_eq (kill : KillSwitch) (account : AccountId) :
    kill.accountHalted account = (kill.haltOf account).state.halted := by
  unfold accountHalted haltOf
  cases kill.accounts.lookup account <;> rfl

/-- The entry says what the history asks for; while the account is open, its counter is the
run of rejects the history ends with. -/
structure Explains (threshold : Nat) (account : AccountId) (events : List HaltEvent)
    (entry : AccountHalt) : Prop where
  halted_iff : entry.state.halted = true ↔ Trips threshold account events
  rejects_eq : entry.state.halted = false → entry.consecutiveRejects = streak account events

section

variable (hExplains : Explains threshold account events entry)
include hExplains

/-- An event that is neither a halt nor a resume and adds no reject. -/
theorem Explains.quiet (hThreshold : 0 < threshold) (hResume : event ≠ .resume account)
    (hHalt : ∀ reason now, event ≠ .halt account reason now)
    (hFewer : streak account (events ++ [event]) ≤ streak account events) :
    entry.state.halted = true ↔ Trips threshold account (events ++ [event]) := by
  rw [hExplains.halted_iff, trips_concat hThreshold hResume]
  constructor
  · exact Or.inl
  · rintro (hTrips | ⟨reason, now, rfl⟩ | hMany)
    · exact hTrips
    · exact absurd rfl (hHalt reason now)
    · exact trips_of_le_streak (hMany.trans hFewer)

theorem Explains.other (hThreshold : 0 < threshold) (hOther : event.account ≠ account) :
    Explains threshold account (events ++ [event]) entry := by
  have hNe : ∀ {own : HaltEvent}, own.account = account → event ≠ own := by
    rintro own hOwn rfl
    exact hOther hOwn
  have hStreak : streak account (events ++ [event]) = streak account events := by
    rw [streak_concat, if_pos ⟨hNe rfl, hNe rfl⟩]
    cases event with
    | reject other now => exact congrArg _ (congrArg Bool.toNat (decide_eq_false hOther))
    | _ => rfl
  exact ⟨hExplains.quiet hThreshold (hNe rfl) (fun _ _ => hNe rfl) hStreak.le,
    fun hOpen => (hExplains.rejects_eq hOpen).trans hStreak.symm⟩

theorem Explains.next (hThreshold : 0 < threshold) (hOwn : event.account = account) :
    Explains threshold account (events ++ [event]) (next threshold entry event) := by
  cases event with
  | halt other reason now =>
    obtain rfl : other = account := hOwn
    refine ⟨iff_of_true rfl ?_, nofun⟩
    exact (trips_concat hThreshold (by nofun)).mpr (Or.inr (Or.inl ⟨reason, now, rfl⟩))
  | resume other =>
    obtain rfl : other = account := hOwn
    refine ⟨iff_of_false nofun fun hTrips => (exists_of_trips hThreshold hTrips).2 (by simp), ?_⟩
    intro _
    rw [streak_concat, if_neg fun hNe => hNe.2 rfl]
    rfl
  | accept other =>
    obtain rfl : other = account := hOwn
    have hNone : streak other (events ++ [.accept other]) = 0 := by
      rw [streak_concat, if_neg fun hNe => hNe.1 rfl]
    exact ⟨hExplains.quiet hThreshold (by nofun) (by nofun) (hNone ▸ Nat.zero_le _),
      fun _ => hNone.symm⟩
  | reject other now =>
    obtain rfl : other = account := hOwn
    have hTrips : Trips threshold other (events ++ [.reject other now]) ↔ _ :=
      trips_concat hThreshold (by nofun)
    simp only [KillSwitch.next]
    split
    · next hHalted =>
        refine ⟨iff_of_true hHalted ?_, fun hOpen => absurd (hOpen ▸ hHalted) nofun⟩
        exact hTrips.mpr (Or.inl (hExplains.halted_iff.mp hHalted))
    next hOpen =>
    have hStreak : streak other (events ++ [.reject other now]) = entry.consecutiveRejects + 1 := by
      rw [streak_concat, if_pos ⟨nofun, nofun⟩, hExplains.rejects_eq (Bool.eq_false_iff.mpr hOpen)]
      exact congrArg _ (congrArg Bool.toNat (decide_eq_true rfl))
    refine ⟨?_, fun _ => hStreak.symm⟩
    rw [hTrips, or_iff_right fun hTrips => hOpen (hExplains.halted_iff.mpr hTrips),
      or_iff_right (by simp), hStreak]
    split
    · next hMany => exact iff_of_true rfl hMany
    · next hFew => exact iff_of_false hOpen hFew

end

theorem explains_run (hThreshold : 0 < kill.autoTripThreshold)
    (hFresh : kill.haltOf account = {}) (events : List HaltEvent) :
    Explains kill.autoTripThreshold account events ((kill.run events).haltOf account) := by
  induction events using List.reverseRecOn with
  | nil =>
    show Explains _ _ _ (kill.haltOf account)
    rw [hFresh]
    exact ⟨iff_of_false nofun fun hTrips => (exists_of_trips hThreshold hTrips).1 rfl, fun _ => rfl⟩
  | append_singleton events event ih =>
    rw [run_concat, haltOf_apply (threshold_run kill events ▸ hThreshold), threshold_run]
    by_cases hOwn : event.account = account
    · rw [if_pos hOwn]
      exact ih.next hThreshold hOwn
    · rw [if_neg hOwn]
      exact ih.other hThreshold hOwn

/-- A halted account keeps its state until it is halted explicitly or resumed. -/
theorem state_run (hThreshold : 0 < kill.autoTripThreshold)
    (hHalted : kill.accountHalted account = true) (hResume : .resume account ∉ events)
    (hHalt : ∀ reason now, .halt account reason now ∉ events) :
    (kill.run events).accountState account = kill.accountState account := by
  rw [accountHalted_eq] at hHalted
  induction events generalizing kill with
  | nil => rfl
  | cons event events ih =>
    have hState : (kill.apply event).accountState account = kill.accountState account := by
      unfold accountState
      rw [haltOf_apply hThreshold]
      split
      · next hOwn =>
          cases event with
          | halt other reason now =>
            obtain rfl : other = account := hOwn
            exact absurd mem_cons_self (hHalt reason now)
          | resume other =>
            obtain rfl : other = account := hOwn
            exact absurd mem_cons_self hResume
          | reject other now => rw [next, if_pos hHalted]
          | accept other => rfl
      · rfl
    refine (ih (threshold_apply kill event ▸ hThreshold) ?_ ?_ ?_).trans hState
    · exact (congrArg HaltState.halted hState).trans hHalted
    · exact fun hMem => hResume (mem_cons_of_mem _ hMem)
    · exact fun reason now hMem => hHalt reason now (mem_cons_of_mem _ hMem)

end Runs

/-- An account is halted exactly if its own history trips it; the calls about other
accounts have no influence; and the time of the call that halted it stands until it is
halted explicitly again or resumed. -/
theorem accountHalted_iff_trips (kill : KillSwitch) (account : AccountId)
    (hThreshold : 0 < kill.autoTripThreshold) (hFresh : kill.haltOf account = {})
    (events : List HaltEvent) :
    ((kill.run events).accountHalted account = true ↔
      Trips kill.autoTripThreshold account events) ∧
    (kill.run events).haltOf account = (kill.run
      (events.filter fun event => decide (event.account = account))).haltOf account ∧
    ∀ front event back now, events = front ++ event :: back →
      ((∃ reason, event = .halt account reason now) ∨
        event = .reject account now ∧ (kill.run front).accountHalted account = false ∧
          (kill.run (front ++ [event])).accountHalted account = true) →
      .resume account ∉ back → (∀ reason later, .halt account reason later ∉ back) →
      ((kill.run events).accountState account).since = now := by
  refine ⟨?_, haltOf_run hThreshold, ?_⟩
  · rw [accountHalted_eq]
    exact (explains_run hThreshold hFresh events).halted_iff
  · rintro front event back now rfl hTripped hResume hHalt
    have hFront := threshold_run kill front ▸ hThreshold
    have hEntry := haltOf_apply hFront event account
    have hAfter := threshold_apply (kill.run front) event ▸ hFront
    have hSplit : kill.run (front ++ event :: back) = ((kill.run front).apply event).run back :=
      List.foldl_append
    rw [hSplit]
    rcases hTripped with ⟨reason, rfl⟩ | ⟨rfl, hOpen, hHalted⟩
    · have hState : ((kill.run front).apply (.halt account reason now)).haltOf account = _ :=
        hEntry.trans (if_pos rfl)
      rw [state_run hAfter (by rw [accountHalted_eq, hState]; rfl) hResume hHalt]
      exact congrArg (HaltState.since ∘ AccountHalt.state) hState
    rw [run_concat] at hHalted
    rw [state_run hAfter hHalted hResume hHalt]
    rw [accountHalted_eq] at hOpen hHalted
    rw [HaltEvent.account, if_pos rfl, next, if_neg (Bool.eq_false_iff.mp hOpen)] at hEntry
    rw [hEntry] at hHalted
    unfold accountState
    rw [hEntry]
    dsimp only at hHalted ⊢
    split at hHalted
    · next hMany => rw [if_pos hMany]
    · exact absurd (hOpen ▸ hHalted) nofun

theorem accountHalted_iff_trips_second_reject :
    Trips 2 ⟨1⟩ [.reject ⟨1⟩ 10, .accept ⟨2⟩, .reject ⟨1⟩ 30, .accept ⟨1⟩] ∧
    ((KillSwitch.run { autoTripThreshold := 2 }
      [.reject ⟨1⟩ 10, .accept ⟨2⟩, .reject ⟨1⟩ 30, .accept ⟨1⟩]).accountState ⟨1⟩).since = 30 := by
  have hHalts := accountHalted_iff_trips { autoTripThreshold := 2 } ⟨1⟩ (by decide) rfl
    [.reject ⟨1⟩ 10, .accept ⟨2⟩, .reject ⟨1⟩ 30, .accept ⟨1⟩]
  exact ⟨hHalts.1.mp rfl, hHalts.2.2 [.reject ⟨1⟩ 10, .accept ⟨2⟩] (.reject ⟨1⟩ 30) [.accept ⟨1⟩]
    30 rfl (Or.inr ⟨rfl, rfl, rfl⟩) (by simp) (by simp)⟩

end KillSwitch
end ExchangeCore
