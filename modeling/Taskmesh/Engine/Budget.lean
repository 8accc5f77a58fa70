import Taskmesh.Engine.Governor

/-!
# Promotion with another budget

A promotion pass with its budget as a parameter, the permits it grants in order, and the passes a call
runs until no continuation is owed. The governor's own pass has the budget `promotionBudget`. A loop with
no budget at all goes on until nothing is runnable.
-/

namespace Taskmesh

namespace Governor

variable (g : Governor)

/-- One promotion pass within `budget` grants. -/
def promoteWithin (budget : Nat) (s : GovernedState) (nowMs : Nat) : GovernedState × TransitionEffects :=
  let first := g.terminalizeWaitCycle s {}
  let pass := g.promoteLoop nowMs budget first.state first.effects first.removed
  let last := g.lastScan pass
  let more := last.removed || (pass.exhausted && hasRunnable last.state g.policy)
  ({ last.state with promotionPending := more }, { last.effects with moreRunnable := more })

theorem promoteWithin_promotionBudget (s : GovernedState) (nowMs : Nat) :
    g.promoteWithin promotionBudget s nowMs = g.promote s nowMs := rfl

/-- The grants of the loop, in order. -/
def loopGrants (nowMs : Nat) : Nat → GovernedState → List GrantRequest
  | 0, _ => []
  | slots + 1, s =>
    match g.promoteStep nowMs s with
    | (_, none) => []
    | (s, some grant) => grant :: loopGrants nowMs slots s

/-- The grants of one pass, in order. -/
def passGrants (budget : Nat) (s : GovernedState) (nowMs : Nat) : List GrantRequest :=
  g.loopGrants nowMs budget (g.terminalizeWaitCycle s {}).state

/-- The passes of a call that nothing interleaves with, until no continuation is owed: the final state
and the grants of all passes in order. `none` when they are not over within `fuel` passes. -/
def runPasses (budget sampledMs : Nat) : Nat → GovernedState → Option (GovernedState × List GrantRequest)
  | 0, _ => none
  | fuel + 1, s =>
    let s := s.commitTime sampledMs
    let grants := g.passGrants budget s s.commitWatermarkMs
    let (s', effects) := g.promoteWithin budget s s.commitWatermarkMs
    if effects.moreRunnable then
      (runPasses budget sampledMs fuel s').map fun (final, rest) => (final, grants ++ rest)
    else some (s', grants)

/-- The grant loop without a budget. -/
inductive GrantsAll (nowMs : Nat) : GovernedState → List GrantRequest → GovernedState → Prop
  | done {s : GovernedState} (h : g.promoteStep nowMs s = (s, none)) : GrantsAll nowMs s [] s
  | grant {s s₁ s' : GovernedState} {grant : GrantRequest} {rest : List GrantRequest}
      (h : g.promoteStep nowMs s = (s₁, some grant)) (more : GrantsAll nowMs s₁ rest s') :
      GrantsAll nowMs s (grant :: rest) s'

/-- The one pass of a call without a budget: a scan, the whole loop, and the scan after a change. It owes
no continuation unless that scan ends another request. -/
inductive RunsUnlimited (sampledMs : Nat) (s : GovernedState) : List GrantRequest → GovernedState → Prop
  | pass {grants : List GrantRequest} {granted : GovernedState} {effects : TransitionEffects} {last : CycleScan}
      (loop : g.GrantsAll (s.commitTime sampledMs).commitWatermarkMs
        (g.terminalizeWaitCycle (s.commitTime sampledMs) {}).state grants granted)
      (scan : last = g.lastScan ⟨granted, effects,
        (g.terminalizeWaitCycle (s.commitTime sampledMs) {}).removed || !grants.isEmpty, false⟩)
      (settled : last.removed = false) :
      RunsUnlimited sampledMs s grants { last.state with promotionPending := false }

end Governor

end Taskmesh
