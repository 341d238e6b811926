import ExchangeCore.Lib.CellRate
import ExchangeCore.Lib.Machine
import ExchangeCore.Risk.RiskEngine

/-!
# The message rate of an account

`consumeRateBudget` is the generic cell rate algorithm with an interval of one second
divided by the account's rate, rounded down, and a tolerance of one interval for each
message of the burst but the first.

Rounding down is what the limiter enforces: the configured rate is the enforced one
exactly if it divides one second into whole nanoseconds (`rateEnforced_iff`).  For that
interval it is the exact sliding window (`consumeRateBudget_exact`).
-/

namespace ExchangeCore

open CellRate

namespace AccountLimits

variable (limits : AccountLimits)

/-- A burst of zero counts as one. -/
def burst : Nat :=
  if limits.messageBurst = 0 then 1 else limits.messageBurst

/-- Nanoseconds from one message to the next. -/
def interval : Nat := 1000000000 / limits.maxMessagesPerSecond

def tolerance : Int := (limits.burst - 1 : Nat) * (limits.interval : Int)

theorem burst_pos : 0 < limits.burst := by
  unfold burst
  split
  · exact Nat.one_pos
  · next hBurst => exact Nat.pos_of_ne_zero hBurst

theorem tolerance_eq : limits.tolerance = (limits.burst - 1 : Int) * limits.interval := by
  rw [tolerance, Int.natCast_sub limits.burst_pos, Nat.cast_one]

theorem tolerance_nonneg : 0 ≤ limits.tolerance :=
  mul_nonneg (Int.natCast_nonneg _) (Int.natCast_nonneg _)

end AccountLimits

namespace RiskEngine

/-! ## One message -/

variable {state : AccountState} {risk : RiskEngine} {account : AccountId}

theorem consumeRateBudget_eq (hRate : 0 < state.limits.maxMessagesPerSecond) (now : Int) :
    consumeRateBudget state now =
      match next state.limits.interval state.limits.tolerance state.theoreticalArrival
        now with
      | none => (state, false)
      | some arrival => ({ state with theoreticalArrival := arrival }, true) := by
  unfold consumeRateBudget next
  dsimp only
  rw [if_neg hRate.ne']
  show (if now < state.theoreticalArrival - state.limits.tolerance then _ else _) = _
  split <;> rfl

/-- Within the source's widths the unbounded numbers of the model are its words. -/
theorem consumeRateBudget_fits {now : Int}
    (hRate : 0 < state.limits.maxMessagesPerSecond) (hBurst : state.limits.messageBurst < 2 ^ 32)
    (hNow : 0 ≤ now ∧ now < 2 ^ 62) (hArrival : 0 ≤ state.theoreticalArrival)
    (hWord : SignedWord state.theoreticalArrival) :
    SignedWord state.limits.tolerance ∧
      SignedWord (state.theoreticalArrival - state.limits.tolerance) ∧
      0 ≤ (consumeRateBudget state now).1.theoreticalArrival ∧
      SignedWord (consumeRateBudget state now).1.theoreticalArrival := by
  have hInterval : (state.limits.interval : Int) ≤ 1000000000 := by
    exact_mod_cast Nat.div_le_self _ _
  have hSmall : (state.limits.burst : Int) ≤ 2 ^ 32 - 1 := by
    unfold AccountLimits.burst
    split <;> omega
  have hTolerance : state.limits.tolerance ≤ (2 ^ 32 - 2) * 1000000000 := by
    rw [AccountLimits.tolerance_eq]
    exact mul_le_mul (by omega) hInterval (Int.natCast_nonneg _) (by norm_num)
  have hNonneg := state.limits.tolerance_nonneg
  have hPositive := Int.natCast_nonneg state.limits.interval
  unfold SignedWord at hWord ⊢
  refine ⟨by omega, by omega, ?_⟩
  rw [consumeRateBudget_eq hRate]
  cases hNext : next state.limits.interval state.limits.tolerance
      state.theoreticalArrival now with
  | none => exact ⟨hArrival, hWord⟩
  | some arrival =>
    obtain ⟨hOnTime, hPushed⟩ := next_eq_some_iff.mp hNext
    show 0 ≤ arrival ∧ -2 ^ 63 ≤ arrival ∧ arrival < 2 ^ 63
    rcases max_cases now state.theoreticalArrival with ⟨hMax, -⟩ | ⟨hMax, -⟩ <;> omega

theorem checkCollar_ne_rateLimit (risk : RiskEngine) (command : NewOrder) :
    risk.checkCollar command ≠ .rateLimit := by
  unfold checkCollar
  cases risk.instruments.lookup command.instrument with
  | none => nofun
  | some state =>
    dsimp only
    repeat' split
    all_goals nofun

theorem checkLimits_ne_rateLimit (state : AccountState) (command : NewOrder) :
    checkLimits state command ≠ .rateLimit := by
  unfold checkLimits
  dsimp only
  repeat' split
  all_goals nofun

/-- The rate is the only reason to reject a message for its rate. -/
theorem check_eq_rateLimit_iff {command : NewOrder}
    (hFind : risk.find command.account = some state) (now : Int) :
    (risk.check command now).2 = .rateLimit ↔ (consumeRateBudget state now).2 = false := by
  unfold check
  rw [hFind]
  dsimp only
  cases hAdmitted : (consumeRateBudget state now).2 with
  | false => simp
  | true =>
    simp only [Bool.not_true, Bool.false_eq_true, if_false, Bool.true_eq_false, iff_false]
    split
    · exact checkCollar_ne_rateLimit _ _
    · exact checkLimits_ne_rateLimit _ _

/-- Only its own messages are charged to an account. -/
theorem find_check (hFind : risk.find account = some state) (command : NewOrder) (now : Int) :
    (risk.check command now).1.find account =
      some (if command.account = account then (consumeRateBudget state now).1 else state) := by
  by_cases hOwn : command.account = account
  · rw [risk.check_of_find (hOwn ▸ hFind), if_pos hOwn, find_setState, if_pos hOwn.symm]
  rw [if_neg hOwn]
  rcases risk.check_fst command now with hSame | ⟨other, -, hSame⟩
  · rw [hSame]
    exact hFind
  · rw [hSame, find_setState, if_neg (Ne.symm hOwn)]
    exact hFind

/-! ## Any number of messages -/

/-- The times of an account's messages that are not rejected for their rate, in a
sequence of checks. -/
def passed (account : AccountId) (risk : RiskEngine) : List (NewOrder × Int) → List Int
  | [] => []
  | (command, now) :: calls =>
    if command.account = account ∧ (risk.check command now).2 ≠ .rateLimit then
      now :: passed account (risk.check command now).1 calls
    else passed account (risk.check command now).1 calls

/-- The times of an account's messages. -/
def sentBy (account : AccountId) (calls : List (NewOrder × Int)) : List Int :=
  (calls.filter fun call => decide (call.1.account = account)).map Prod.snd

/-- The account's own messages decide, whatever others send between them. -/
theorem passed_eq
    (hFind : risk.find account = some state) (hRate : 0 < state.limits.maxMessagesPerSecond)
    (calls : List (NewOrder × Int)) :
    passed account risk calls =
      admitted state.limits.interval state.limits.tolerance state.theoreticalArrival
        (sentBy account calls) := by
  induction calls generalizing risk state with
  | nil => rfl
  | cons call calls ih =>
    obtain ⟨command, now⟩ := call
    have hNext := find_check hFind command now
    unfold passed
    by_cases hOwn : command.account = account
    · have hSent : sentBy account ((command, now) :: calls) = now :: sentBy account calls := by
        simp [sentBy, hOwn]
      have hReason := check_eq_rateLimit_iff (hOwn ▸ hFind) now
      rw [if_pos hOwn, consumeRateBudget_eq hRate] at hNext
      rw [consumeRateBudget_eq hRate] at hReason
      rw [hSent]
      cases hCell : next state.limits.interval state.limits.tolerance
          state.theoreticalArrival now with
      | none =>
        rw [hCell] at hNext hReason
        rw [if_neg fun hBoth => hBoth.2 (hReason.mpr rfl), admitted_of_none hCell]
        exact ih hNext hRate
      | some arrival =>
        rw [hCell] at hNext hReason
        have hPasses : (risk.check command now).2 ≠ .rateLimit :=
          fun hRejected => absurd (hReason.mp hRejected) nofun
        rw [if_pos ⟨hOwn, hPasses⟩, admitted_of_some hCell]
        exact congrArg (now :: ·) (ih hNext hRate)
    · have hSent : sentBy account ((command, now) :: calls) = sentBy account calls := by
        simp [sentBy, hOwn]
      rw [if_neg hOwn] at hNext
      rw [hSent, if_neg fun hBoth => hOwn hBoth.1]
      exact ih hNext hRate

/-- Calls at times that do not decrease, from zero to below `2 ^ 62`. -/
def Arrivals (calls : List (NewOrder × Int)) : Prop :=
  (calls.map Prod.snd).Pairwise (· ≤ ·) ∧ ∀ time ∈ calls.map Prod.snd, 0 ≤ time ∧ time < 2 ^ 62

instance (calls : List (NewOrder × Int)) : Decidable (Arrivals calls) :=
  inferInstanceAs (Decidable (_ ∧ _))

/-- No closed window of any length lets more messages of the account pass than the burst
and the configured rate allow. -/
def RateEnforced (risk : RiskEngine) (account : AccountId) (limits : AccountLimits) : Prop :=
  ∀ calls, Arrivals calls → ∀ (start : Int) (length : Nat), (passed account risk calls).countP
        (fun time => decide (start ≤ time ∧ time ≤ start + length)) ≤
      limits.burst + length * limits.maxMessagesPerSecond / 1000000000

/-- A rate that divides a second is enforced. -/
theorem rateEnforced_of_dvd
    (hFind : risk.find account = some state) (hRate : 0 < state.limits.maxMessagesPerSecond)
    (hDvd : state.limits.maxMessagesPerSecond ∣ 1000000000) :
    RateEnforced risk account state.limits := by
  intro calls _ start length
  rw [passed_eq hFind hRate]
  obtain ⟨count, hCount⟩ : ∃ count, (admitted state.limits.interval
      state.limits.tolerance state.theoreticalArrival (sentBy account calls)).countP
        (fun time => decide (start ≤ time ∧ time ≤ start + length)) = count := ⟨_, rfl⟩
  have hSecond : state.limits.interval * state.limits.maxMessagesPerSecond = 1000000000 :=
    Nat.div_mul_cancel hDvd
  have hWindow := window_bound (Int.natCast_nonneg state.limits.interval)
    state.limits.tolerance_nonneg start (Int.natCast_nonneg length) (sentBy account calls) hCount
  rw [AccountLimits.tolerance_eq] at hWindow
  -- Beyond the burst, each message costs a whole interval of the window.
  have hSpaced : (count - state.limits.burst) * state.limits.interval ≤ length := by
    rcases Nat.le_total count state.limits.burst with hFew | hMany
    · rw [Nat.sub_eq_zero_of_le hFew, Nat.zero_mul]
      exact Nat.zero_le _
    · zify [hMany]
      linarith
  have hScaled : (count - state.limits.burst) * 1000000000 ≤
      length * state.limits.maxMessagesPerSecond := by
    calc (count - state.limits.burst) * 1000000000
        = (count - state.limits.burst) * state.limits.interval *
            state.limits.maxMessagesPerSecond := by rw [Nat.mul_assoc, hSecond]
      _ ≤ length * state.limits.maxMessagesPerSecond := Nat.mul_le_mul_right _ hSpaced
  have hDiv := (Nat.le_div_iff_mul_le (by decide : 0 < 1000000000)).mpr hScaled
  rw [hCount]
  omega

section

variable (account) (limits : AccountLimits)

/-- A burst of an account's messages at one time and one an interval later. -/
def burstCalls (now : Int) : List (NewOrder × Int) :=
  (List.replicate limits.burst now ++ [now + limits.interval]).map
    fun time => ({ account := account }, time)

theorem times_burstCalls (now : Int) :
    (burstCalls account limits now).map Prod.snd =
      List.replicate limits.burst now ++ [now + (limits.interval : Int)] := by
  rw [burstCalls, List.map_map]
  exact List.map_id _

theorem sentBy_burstCalls (now : Int) :
    sentBy account (burstCalls account limits now) =
      List.replicate limits.burst now ++ [now + (limits.interval : Int)] := by
  have hOwn : (burstCalls account limits now).filter
      (fun call => decide (call.1.account = account)) = burstCalls account limits now := by
    refine List.filter_eq_self.mpr fun call hCall => ?_
    obtain ⟨time, -, rfl⟩ := List.mem_map.mp hCall
    exact decide_eq_true rfl
  rw [sentBy, hOwn, times_burstCalls]

theorem arrivals_burstCalls {now : Int}
    (hNow : 0 ≤ now ∧ now + 1000000000 < 2 ^ 62) : Arrivals (burstCalls account limits now) := by
  have hInterval : (limits.interval : Int) ≤ 1000000000 := by
    exact_mod_cast Nat.div_le_self _ _
  unfold Arrivals
  rw [times_burstCalls]
  constructor
  · rw [List.pairwise_append]
    refine ⟨List.pairwise_replicate.mpr (Or.inr le_rfl), List.pairwise_singleton _ _, ?_⟩
    intro earlier hEarlier later hLater
    rw [List.eq_of_mem_replicate hEarlier, List.mem_singleton.mp hLater]
    omega
  · intro time hTime
    rcases List.mem_append.mp hTime with hBurst | hLast
    · rw [List.eq_of_mem_replicate hBurst]
      omega
    · rw [List.mem_singleton.mp hLast]
      omega

end

/-- One that does not is exceeded, by one message in the shortest window. -/
theorem not_rateEnforced_of_not_dvd (hFind : risk.find account = some state)
    (hRate : 0 < state.limits.maxMessagesPerSecond)
    (hArrival : 0 ≤ state.theoreticalArrival ∧ state.theoreticalArrival + 1000000000 < 2 ^ 62)
    (hNot : ¬ state.limits.maxMessagesPerSecond ∣ 1000000000) :
    ¬ RateEnforced risk account state.limits := by
  intro hEnforced
  have hBound := hEnforced _ (arrivals_burstCalls account state.limits hArrival)
    state.theoreticalArrival state.limits.interval
  rw [passed_eq hFind hRate, sentBy_burstCalls, admitted_burst
    (Int.natCast_nonneg _) (by rw [AccountLimits.tolerance_eq]) le_rfl] at hBound
  have hAll : (List.replicate state.limits.burst state.theoreticalArrival ++
      [state.theoreticalArrival + (state.limits.interval : Int)]).countP
        (fun time => decide (state.theoreticalArrival ≤ time ∧
          time ≤ state.theoreticalArrival + (state.limits.interval : Int))) =
      state.limits.burst + 1 := by
    rw [List.countP_append, List.countP_replicate]
    simp
  -- The interval was rounded down, so it is worth less than one message.
  have hShort : state.limits.interval * state.limits.maxMessagesPerSecond < 1000000000 :=
    lt_of_le_of_ne (Nat.div_mul_le_self _ _) fun hEq => hNot ⟨_, by rw [Nat.mul_comm, hEq]⟩
  rw [hAll, Nat.div_eq_of_lt hShort] at hBound
  omega

/-- For every account with a rate limit, at any time that leaves a second before the end
of time: the configured rate is enforced over every sequence of checks and every window
exactly if it divides one second. -/
theorem rateEnforced_iff (risk : RiskEngine) (account : AccountId) (state : AccountState)
    (hFind : risk.find account = some state) (hRate : 0 < state.limits.maxMessagesPerSecond)
    (hArrival : 0 ≤ state.theoreticalArrival ∧ state.theoreticalArrival + 1000000000 < 2 ^ 62) :
    RateEnforced risk account state.limits ↔
      state.limits.maxMessagesPerSecond ∣ 1000000000 := by
  constructor
  · intro hEnforced
    by_contra hNot
    exact not_rateEnforced_of_not_dvd hFind hRate hArrival hNot hEnforced
  · exact rateEnforced_of_dvd hFind hRate

/-- An account limited to so many messages per second, without a burst. -/
def limitedTo (rate : Nat) : RiskEngine :=
  ({} : RiskEngine).configure ⟨1⟩ { maxMessagesPerSecond := rate }

theorem find_limitedTo (rate : Nat) :
    (limitedTo rate).find ⟨1⟩ = some { limits := { maxMessagesPerSecond := rate } } := by
  rw [limitedTo, configure, find_setState, if_pos rfl]
  rfl

theorem rateEnforced_iff_thousand :
    RateEnforced (limitedTo 1000) ⟨1⟩ { maxMessagesPerSecond := 1000 } ↔ 1000 ∣ 1000000000 :=
  rateEnforced_iff (limitedTo 1000) ⟨1⟩ _ (find_limitedTo 1000) (by decide) (by decide)

/-- Three messages a second: two pass within a third of a second, where one may.  Two
thousand million: any number pass at once. -/
theorem rate_exceeded :
    ¬ RateEnforced (limitedTo 3) ⟨1⟩ { maxMessagesPerSecond := 3 } ∧
      passed ⟨1⟩ (limitedTo 3) [({ account := ⟨1⟩ }, 0), ({ account := ⟨1⟩ }, 333333333)] =
        [0, 333333333] ∧
      1 + 333333333 * 3 / 1000000000 = 1 ∧
      passed ⟨1⟩ (limitedTo 2000000000) (List.replicate 9 ({ account := ⟨1⟩ }, 0)) =
        List.replicate 9 0 := by
  have hPassed : passed ⟨1⟩ (limitedTo 3)
      [({ account := ⟨1⟩ }, 0), ({ account := ⟨1⟩ }, 333333333)] =
      [0, 333333333] := by decide +kernel
  refine ⟨fun hEnforced => ?_, hPassed, by decide, by decide +kernel⟩
  have hBound := hEnforced _ (by decide : Arrivals [({ account := ⟨1⟩ }, 0),
    ({ account := ⟨1⟩ }, 333333333)]) 0 333333333
  rw [hPassed] at hBound
  contradiction

/-! ## Against the whole history -/

/-- One message of an account, with the times of those that were admitted. -/
def budgetStep (history : AccountState × List Int) (now : Int) : AccountState × List Int :=
  ((consumeRateBudget history.1 now).1,
    if (consumeRateBudget history.1 now).2 then history.2 ++ [now] else history.2)

/-- The account and its admitted messages after messages at these times. -/
def budgetRun (state : AccountState) (times : List Int) : AccountState × List Int :=
  Machine.run budgetStep (state, []) times

/-- The arrival time is a word that stands for the admitted messages. -/
structure Budgeted (limits : AccountLimits) (history : AccountState × List Int) : Prop where
  limits_eq : history.1.limits = limits
  nonneg : 0 ≤ history.1.theoreticalArrival
  word : SignedWord history.1.theoreticalArrival
  encodes : CellRate.Encodes limits.interval history.1.theoreticalArrival history.2

section Budget

variable {limits : AccountLimits} {history : AccountState × List Int} {now : Int}

theorem Budgeted.step (hBudgeted : Budgeted limits history)
    (hRate : 0 < limits.maxMessagesPerSecond) (hBurst : limits.messageBurst < 2 ^ 32)
    (hNow : 0 ≤ now ∧ now < 2 ^ 62) : Budgeted limits (budgetStep history now) := by
  obtain ⟨rfl, hNonneg, hWord, hEncodes⟩ := hBudgeted
  obtain ⟨-, -, hNonneg', hWord'⟩ := consumeRateBudget_fits hRate hBurst hNow hNonneg hWord
  refine ⟨(consumeRateBudget_spec history.1 now).1, hNonneg', hWord', ?_⟩
  unfold budgetStep
  rw [consumeRateBudget_eq hRate]
  cases hNext : next history.1.limits.interval history.1.limits.tolerance
      history.1.theoreticalArrival now with
  | none => exact hEncodes
  | some arrival =>
    obtain ⟨-, rfl⟩ := next_eq_some_iff.mp hNext
    exact hEncodes.push hNow.1

theorem Budgeted.admits_iff (hBudgeted : Budgeted limits history)
    (hRate : 0 < limits.maxMessagesPerSecond) (hNow : 0 ≤ now) :
    (consumeRateBudget history.1 now).2 = true ↔
      ∀ time later, time :: later <:+ history.2 →
        ((time :: later).length + 1 - limits.burst : Int) * limits.interval ≤ now - time := by
  obtain ⟨rfl, -, -, hEncodes⟩ := hBudgeted
  have hTolerance := history.1.limits.tolerance_nonneg
  have hOnTime : (consumeRateBudget history.1 now).2 = true ↔
      history.1.theoreticalArrival ≤ now + history.1.limits.tolerance := by
    rw [consumeRateBudget_eq hRate, next]
    by_cases hEarly : now < history.1.theoreticalArrival - history.1.limits.tolerance
    · rw [if_pos hEarly]
      exact iff_of_false nofun (by omega)
    · rw [if_neg hEarly]
      exact iff_of_true rfl (by omega)
  rw [hOnTime, hEncodes _ (by omega), AccountLimits.tolerance_eq]
  refine forall_congr' fun time => forall_congr' fun later => imp_congr_right fun _ => ?_
  constructor
  · intro hBound
    linarith
  · intro hBound
    linarith

end Budget

/-- For every account with a rate limit, messages at any times from zero to below `2 ^ 62`,
and one more: it is admitted exactly if, for every admitted message, the messages admitted
from that one on and this one are, beyond the burst, an interval apart on average.  A
message that is not admitted changes nothing, and nothing leaves the range of a word. -/
theorem consumeRateBudget_exact (state : AccountState) (hFresh : state.theoreticalArrival = 0)
    (hRate : 0 < state.limits.maxMessagesPerSecond) (hBurst : state.limits.messageBurst < 2 ^ 32)
    (times : List Int) (now : Int) (hTimes : ∀ time ∈ now :: times, 0 ≤ time ∧ time < 2 ^ 62) :
    let history := budgetRun state times
    ((consumeRateBudget history.1 now).2 = true ↔ ∀ time later, time :: later <:+ history.2 →
        ((time :: later).length + 1 - state.limits.burst : Int) * state.limits.interval ≤
          now - time) ∧
      ((consumeRateBudget history.1 now).2 = false →
        (consumeRateBudget history.1 now).1 = history.1) ∧
      SignedWord state.limits.tolerance ∧
      SignedWord (history.1.theoreticalArrival - state.limits.tolerance) ∧
      SignedWord (consumeRateBudget history.1 now).1.theoreticalArrival := by
  intro history
  obtain ⟨hNow, hEarlier⟩ := List.forall_mem_cons.mp hTimes
  have hStart : Budgeted state.limits (state, []) := by
    refine ⟨rfl, hFresh.ge, ?_, ?_⟩
    · rw [hFresh]
      decide
    · rw [hFresh]
      exact CellRate.encodes_nil
  have hBudgeted : Budgeted state.limits history :=
    ((Machine.each_of_forall hEarlier).always hStart fun _ _ hBefore hTime =>
      hBefore.step hRate hBurst hTime).final
  have hAdmits := hBudgeted.admits_iff hRate hNow.1
  obtain ⟨hLimits, hNonneg, hWord, -⟩ := hBudgeted
  rw [← hLimits] at hRate hBurst ⊢ hAdmits
  obtain ⟨hTolerance, hDifference, -, hNext⟩ :=
    consumeRateBudget_fits hRate hBurst hNow hNonneg hWord
  refine ⟨hAdmits, fun hRefused => ?_, hTolerance, hDifference, hNext⟩
  rw [consumeRateBudget_eq hRate] at hRefused ⊢
  split at hRefused
  · rfl
  · cases hRefused

/-- Two at once, and then one every quarter of a second. -/
def fourASecond : AccountState :=
  { limits := { maxMessagesPerSecond := 4, messageBurst := 2 } }

theorem consumeRateBudget_exact_four :
    (budgetRun fourASecond [0, 0, 1]).2 = [0, 0] ∧
      ((consumeRateBudget (budgetRun fourASecond [0, 0, 1]).1 250000000).2 = true ↔
        ∀ time later, time :: later <:+ (budgetRun fourASecond [0, 0, 1]).2 →
          ((time :: later).length + 1 - fourASecond.limits.burst : Int) *
            fourASecond.limits.interval ≤ 250000000 - time) :=
  ⟨by decide, (consumeRateBudget_exact fourASecond rfl (by decide) (by decide) [0, 0, 1] 250000000
    (by decide)).1⟩

end RiskEngine
end ExchangeCore
