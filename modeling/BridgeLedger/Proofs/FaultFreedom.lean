import BridgeLedger.Proofs.ActionHalts
import BridgeLedger.Proofs.AssetIdentity

/-! Freedom from faults. The books of every state that a chain reaches are in order, so whatever is executed next answers
a receipt, and no receipt tells of an amount that grew too large. -/
namespace BridgeLedger

open Store

theorem Store.Identified.rooted {s : Store} (h : s.Identified) (x : Identifier) (r : AssetRecord)
    (hr : s.bridged? x = some r) : ∃ o : Bridge.Origin, r.metadata = o.metadata := by
  obtain ⟨o, -, hmetadata⟩ := h.origin x r hr
  exact ⟨o, hmetadata⟩

theorem Reachable.inOrder {ledger : Store × Store} (h : Reachable ledger) : ledger.1.InOrder where
  wellFormed := (Sound.of_reachable h).wellFormed
  conserved := (Sound.of_reachable h).conserved
  rooted := (Identified.of_reachable h).rooted

/-- The books stay in order, and bridged assets named for what they stand for, when an action takes effect under a name
that no asset has. -/
theorem Store.InOrder.step {ctx : Context} {action : Action} {s s' : Store} {y : Yield} (h : s.InOrder)
    (hidentified : s.Identified) (hyields : Yields (action.perform ctx) s y s') (hnamed : ctx.transaction ≠ .empty)
    (hnone : s.asset? ctx.transaction = none) : s'.InOrder ∧ s'.Identified := by
  have hkeeps := Action.keeps hyields h.wellFormed
  have hidentified' := hidentified.moved (Action.moves hyields h.wellFormed hnamed hnone) hkeeps hnone
  refine ⟨⟨hkeeps.wellFormed, fun a => ?_, hidentified'.rooted⟩, hidentified'⟩
  have hbalanced := hkeeps.balanced hnone a
  have hconserved := h.conserved a
  omega

namespace Call

/-- A history in which no transaction is named like the native asset or like an asset that is then on record. -/
def NamedApart (start : Store × Store) (calls : List Call) : Prop :=
  ∀ i c, calls[i]? = some c → c.context.transaction ≠ .empty ∧
    (runAll start (calls.take i)).1.asset? c.context.transaction = none

/-- After such a history from a distribution the books are in order, whether its transactions went on record or not. -/
theorem NamedApart.inOrder {g : Genesis} {calls : List Call} (h : NamedApart (g.opening, .empty) calls) :
    (runAll (g.opening, .empty) calls).1.InOrder := by
  rw [← List.take_length (l := calls)]
  refine (runAll_persists (p := fun ledger => ledger.1.InOrder ∧ ledger.1.Identified) (Nat.zero_le calls.length)
    ⟨(Reachable.opening g).inOrder, .opening g⟩ fun k c _ _ hc ⟨hbooks, hidentified⟩ => ?_).1
  obtain ⟨hnamed, hnone⟩ := h k c hc
  cases hsucceeds : Execution.succeeded c.run (runAll (g.opening, .empty) (calls.take k)) with
  | true =>
    obtain ⟨y, hyields⟩ := yields_of_succeeded hsucceeds
    exact hbooks.step hidentified hyields hnamed hnone
  | false =>
    rw [unchanged_of_not_succeeded hsucceeds]
    exact ⟨hbooks, hidentified⟩

end Call

/-- Whatever a chain is given to execute in a state that it reaches, it answers a receipt, unless the action is too large
to be written, which leaves the state as it is. An action that fails for its amounts fails because one is too small. -/
theorem execution_never_faults {ledger : Store × Store} (h : Reachable ledger) (ctx : Context) (action : Action) :
    (∀ bytes, action.encode = .ok bytes → ∃ receipt s', Execution.execute ctx action ledger.1 = .ok receipt s' ∧
      ∀ units e, receipt.outcome = .failure units (.accounting e) →
        ∃ kind asset current amount, e = .underflow kind asset current amount) ∧
    ∀ e, action.encode = .error e →
      e = .tooLarge ∧ Execution.execute ctx action ledger.1 = .error (.wire .tooLarge) ledger.1 := by
  have htame : OnlyHalts Halt.Tame (action.perform ctx) ledger.1 := Action.halts h.inOrder action
  obtain ⟨e, hbytes, hexecute⟩ | ⟨bytes, hbytes, hends⟩ := Execution.execute_cases ledger.1 ctx action
  · have he := Action.encode_error hbytes
    refine ⟨fun bytes hok => (nomatch hbytes.symm.trans hok), fun e' he' => ?_⟩
    cases hbytes.symm.trans he'
    exact ⟨he, he ▸ hexecute⟩
  · refine ⟨fun _ _ => ?_, fun e' he' => (nomatch hbytes.symm.trans he')⟩
    obtain ⟨e, hhalts, -⟩ | ⟨receipt, s', hexecute, hends⟩ := hends
    · exact (htame _ hhalts).elim
    · refine ⟨receipt, s', hexecute, fun units e he => ?_⟩
      obtain ⟨reason, hhalts, hreason, -⟩ | ⟨y, -, hsuccess⟩ := hends
      · cases hreason.symm.trans he
        exact htame _ hhalts
      · cases hsuccess.symm.trans he

namespace LentUnits

def overdraft : Action := .payment ⟨.filled 2, 1000, []⟩

theorem overdraft_answered : Reachable exported ∧ (∃ bytes, overdraft.encode = .ok bytes ∧ ∃ receipt s',
      Execution.execute context overdraft exported.1 = .ok receipt s' ∧
        ∀ units e, receipt.outcome = .failure units (.accounting e) →
          ∃ kind asset current amount, e = .underflow kind asset current amount) ∧
    Execution.refusal? (Execution.execute context overdraft) exported.1 =
      some (.accounting (.underflow .balance .empty 895 1000)) :=
  ⟨reachable, ⟨_, rfl, (execution_never_faults reachable context overdraft).1 _ rfl⟩, by decide +kernel⟩

end LentUnits
end BridgeLedger
