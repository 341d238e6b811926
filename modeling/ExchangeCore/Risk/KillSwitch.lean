import Mathlib.Data.List.AList
import ExchangeCore.Core.Types

/-!
# The kill switch

Halts of the whole venue and of single accounts, as `src/risk/kill_switch.cpp`
has them.  A halt blocks new orders and is never lifted by anything but a
resume.
-/

namespace ExchangeCore

inductive HaltReason
  | none
  | manual
  | repeatedRejects
  | riskBreach
  deriving DecidableEq, Inhabited

structure HaltState where
  halted : Bool := false
  reason : HaltReason := .none
  since : Int := 0
  deriving DecidableEq, Inhabited

structure AccountHalt where
  state : HaltState := {}
  consecutiveRejects : Nat := 0
  deriving DecidableEq, Inhabited

structure KillSwitch where
  venue : HaltState := {}
  accounts : AList fun _ : AccountId => AccountHalt := ∅
  autoTripThreshold : Nat := 0
  deriving DecidableEq

namespace KillSwitch

variable (kill : KillSwitch)

def haltVenue (reason : HaltReason) (now : Int) : KillSwitch :=
  { kill with venue := { halted := true, reason := reason, since := now } }

def resumeVenue : KillSwitch :=
  { kill with venue := {} }

section

variable (account : AccountId)

/-- The account's entry, created if it is new. -/
def haltOf : AccountHalt :=
  (kill.accounts.lookup account).getD {}

def setHalt (halt : AccountHalt) : KillSwitch :=
  { kill with accounts := kill.accounts.insert account halt }

def haltAccount (reason : HaltReason) (now : Int) : KillSwitch :=
  kill.setHalt account
    { kill.haltOf account with state := { halted := true, reason := reason, since := now } }

/-- Resuming clears the run of rejects as well. -/
def resumeAccount : KillSwitch :=
  kill.setHalt account {}

def accountState : HaltState :=
  (kill.haltOf account).state

def accountHalted : Bool :=
  (kill.accounts.lookup account).any fun halt => halt.state.halted

def blocksNewOrders : Bool :=
  kill.venue.halted || kill.accountHalted account

end

def setAutoTripThreshold (consecutiveRejects : Nat) : KillSwitch :=
  { kill with autoTripThreshold := consecutiveRejects }

def recordReject (account : AccountId) (now : Int) : KillSwitch :=
  if kill.autoTripThreshold = 0 then
    kill
  else
    let halt := kill.haltOf account
    if halt.state.halted then
      kill
    else
      let rejects := halt.consecutiveRejects + 1
      kill.setHalt account
        { consecutiveRejects := rejects
          state :=
            if rejects ≥ kill.autoTripThreshold then
              { halted := true, reason := .repeatedRejects, since := now }
            else halt.state }

def recordAccept (account : AccountId) : KillSwitch :=
  match kill.accounts.lookup account with
  | none => kill
  | some halt => kill.setHalt account { halt with consecutiveRejects := 0 }

def consecutiveRejects (account : AccountId) : Nat :=
  (kill.haltOf account).consecutiveRejects

end KillSwitch
end ExchangeCore
