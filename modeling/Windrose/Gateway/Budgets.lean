/-
  Gateway/Budgets.lean --- the scan of a request's budgets, and their release.

  Source: services/ai-gateway/app/domain/budgets.py (BudgetEngine.preflight, release).

  The windows that govern a request are read in order, and the last one that is used up is
  the one that `preflight` names.  A ledger that does not answer fails closed.
-/
import Windrose.Foundation.Double
import Windrose.Gateway.Chat

set_option autoImplicit false

namespace Windrose.Gateway

open Windrose.Foundation

/-! ## Budgets -/

namespace Budget

/-- `limit_cents * pct / 100`. -/
def percent (b : Budget) (pct : Int) : Rat := trueDiv (b.limitCents * pct) 100

end Budget

namespace BudgetEngine

/-- `LedgerUnavailable` fails closed. -/
def failClosed {α : Type} (p : ChatProg α) : ChatProg α :=
  p.tryCatch fun e => .raise (if e = .ledgerUnavailable then .app .dependencyUnavailable else e)

/-- The scan of `preflight`: the last window that is used up, and whether one degrades. -/
def scan : List GoverningWindow → Option GoverningWindow → Bool →
    ChatProg (Option GoverningWindow × Bool)
  | [], exhausted, degrading => .done (exhausted, degrading)
  | gw :: windows, exhausted, degrading => do
      let spent ← askChat (.usage gw.ledgerKey)
      if gw.budget.limitCents ≤ spent.1 then scan windows (some gw) degrading
      else if gw.budget.percent gw.budget.degradePct ≤ spent.1 then scan windows exhausted true
      else scan windows exhausted degrading

def releaseAll : List Reservation → ChatProg Unit
  | [] => .done ()
  | r :: reservations => do
      askChat (.release r.governing.ledgerKey r.reservationID)
      releaseAll reservations

end BudgetEngine

end Windrose.Gateway
