import BridgeLedger.Proofs.Authorization
import BridgeLedger.Proofs.BridgeMoves
import BridgeLedger.Proofs.CallHistories
import BridgeLedger.Proofs.ImportHalts

/-! A message is imported once. The successful imports of a history are those whose messages are marked, so a message
that was imported is refused from then on, and no other message is refused as imported already. -/
namespace BridgeLedger

open Store Yields

def Action.Imports (action : Action) (source id : Identifier) : Prop :=
  ∃ a, action = .importAsset a ∧ a.message.source = source ∧ a.message.identifier = .ok id

namespace Action

variable {s s' : Store} {y : Yield} {ctx : Context} {source id : Identifier}

theorem Import.marked_iff {a : Import} (h : Yields (a.execute ctx) s y s') :
    s'.marked source id = true ↔ s.marked source id = true ∨ Imports (.importAsset a) source id := by
  obtain ⟨-, message, total, asset, t, hadmits, -, hmove, hrest⟩ := execute_iff.1 h
  have hbefore : t.marked source id = s.marked source id := by
    split at hmove
    · exact (release_frame hmove).marked_eq nofun
    · exact (mint_frame hmove).marked_eq nofun
  rw [hrest.marked_eq, hbefore, Bool.or_eq_true, decide_eq_true_eq]
  refine or_congr_right ⟨?_, ?_⟩
  · rintro ⟨rfl, rfl⟩
    exact ⟨a, rfl, rfl, hadmits.identifier⟩
  · rintro ⟨b, hb, rfl, hid⟩
    cases hb
    cases hadmits.identifier.symm.trans hid
    exact ⟨rfl, rfl⟩

/-- A successful action marks the message that it imports, and none else. -/
theorem marked_iff {action : Action} (h : Yields (action.perform ctx) s y s') :
    s'.marked source id = true ↔ s.marked source id = true ∨ action.Imports source id := by
  by_cases htouches : action.Touches ctx (.incoming source id)
  · cases action with
    | importAsset a => exact Import.marked_iff h
    | _ => simp [Touches, StateKey.IsBalance] at htouches
  · rw [(frame h).marked_eq htouches]
    refine (or_iff_left ?_).symm
    rintro ⟨a, rfl, rfl, hid⟩
    exact htouches (.inr (.inr (.inr ⟨id, hid, rfl⟩)))

end Action

namespace Action.Import

variable {a : Import} {s : Store} {ctx : Context}

/-- A halt other than the refusal of a message as imported already. -/
private def Other (h : Halt) : Prop := h ≠ .refused .alreadyImported

private theorem spares_other : Halt.Spares Other := fun reason hreason h => by
  cases h
  exact hreason

private theorem ledger_other {α : Type} {u : Store} {x : LedgerScript α} :
    OnlyHalts Other (liftM x : ActionScript α) u := by
  refine .ledger fun e _ => ?_
  change Halt.ofLedger e ≠ _
  unfold Halt.ofLedger
  split <;> nofun

private theorem settleSwap_other {t : Bridge.Transfer} {asset : Identifier} {actor : Address} {u : Store} :
    OnlyHalts Other (settleSwap t asset actor) u :=
  .bind ledger_other fun _ _ _ => .bind ledger_other fun _ _ _ => .bind ledger_other fun _ _ _ => ledger_other

/-- An import is refused as imported already only if its message is marked. -/
theorem marked_of_refused (h : Halts (a.execute ctx) s (.refused .alreadyImported)) :
    ∃ id, a.message.identifier = .ok id ∧ s.marked a.message.source id = true := by
  apply Classical.byContradiction
  intro hunmarked
  have hother : OnlyHalts Other (a.execute ctx) s := by
    refine execute_halts spares_other (fun _ _ => nofun) (fun id hid hmarked => absurd ⟨id, hid, hmarked⟩ hunmarked)
      (fun total _ => ?_) fun _ _ _ _ _ _ => ?_
    · split
      · exact release_halts spares_other ledger_other ledger_other
      · exact mint_halts spares_other ledger_other fun _ _ _ _ => ledger_other
    · exact .bind ledger_other fun _ _ _ => .optional_bind (fun _ => ledger_other) fun _ _ =>
        .optional_bind (fun _ => settleSwap_other) fun _ _ => ledger_other
  exact hother _ h rfl

end Action.Import

namespace Call

variable {c : Call} {ledger start : Store × Store} {calls : List Call} {source id : Identifier}

def ImportsAt (start : Store × Store) (calls : List Call) (source id : Identifier) (i : Nat) : Prop :=
  ∃ c, calls[i]? = some c ∧ c.action.Imports source id ∧
    Execution.succeeded c.run (runAll start (calls.take i)) = true

theorem marked_endState (c : Call) (ledger : Store × Store) (source id : Identifier) :
    (endState c.run ledger).1.marked source id = true ↔
      ledger.1.marked source id = true ∨ c.action.Imports source id ∧ Execution.succeeded c.run ledger = true := by
  cases hsucceeded : Execution.succeeded c.run ledger with
  | true =>
    obtain ⟨y, hyields⟩ := yields_of_succeeded hsucceeded
    rw [Action.marked_iff hyields, and_iff_left rfl]
  | false =>
    rw [unchanged_of_not_succeeded hsucceeded]
    simp

/-- Before each call, the marks tell the messages that earlier calls have imported. -/
theorem marked_runAll (hstart : start.1.Opening) (calls : List Call) (source id : Identifier) (n : Nat) :
    (runAll start (calls.take n)).1.marked source id = true ↔ ∃ i < n, ImportsAt start calls source id i := by
  induction n with
  | zero => simp [runAll, hstart.unmarked]
  | succ n ih =>
    rw [List.take_add_one]
    have hsucc : (∃ i < n + 1, ImportsAt start calls source id i) ↔
        (∃ i < n, ImportsAt start calls source id i) ∨ ImportsAt start calls source id n := Nat.exists_lt_succ_right
    rw [hsucc, ← ih]
    cases hc : calls[n]? with
    | none =>
      have hnone : ¬ImportsAt start calls source id n := fun ⟨c, hc', _⟩ => nomatch hc.symm.trans hc'
      rw [or_iff_left hnone, Option.toList_none, List.append_nil]
    | some c =>
      rw [Option.toList_some, runAll_append_singleton, marked_endState]
      refine or_congr_right ⟨fun h => ⟨c, hc, h⟩, fun ⟨c', hc', h⟩ => ?_⟩
      cases hc.symm.trans hc'
      exact h

namespace ImportsAt

variable {i j : Nat} {later : Call}

/-- After a message has been imported, no call that imports it succeeds. -/
theorem fails_later (hstart : start.1.Opening) (hi : ImportsAt start calls source id i) (hij : i < j)
    (himports : later.action.Imports source id) :
    Execution.succeeded later.run (runAll start (calls.take j)) = false := by
  refine Bool.eq_false_iff.2 fun hsucceeded => ?_
  have hmarked := (marked_runAll hstart calls source id j).2 ⟨i, hij, hi⟩
  obtain ⟨y, hyields⟩ := yields_of_succeeded hsucceeded
  obtain ⟨a, haction, rfl, hid⟩ := himports
  rw [haction] at hyields
  obtain ⟨-, id', -, -, -, hadmits, -⟩ := Action.Import.execute_iff.1 hyields
  cases hid.symm.trans hadmits.identifier
  cases hmarked.symm.trans hadmits.unmarked

theorem not_later (hstart : start.1.Opening) (hi : ImportsAt start calls source id i)
    (hj : ImportsAt start calls source id j) : ¬i < j := by
  intro hij
  obtain ⟨call, -, himports, hsucceeded⟩ := hj
  cases hsucceeded.symm.trans (hi.fails_later hstart hij himports)

end ImportsAt
end Call

/-- In a history of calls on a chain, at most one import of a message takes effect; later imports of it fail and leave
the state as it is; and an import is refused as done already only if an earlier one took effect. -/
theorem imports_once {start : Store × Store} (hstart : start.1.Opening) (calls : List Call) :
    (∀ source id i j, Call.ImportsAt start calls source id i → Call.ImportsAt start calls source id j → i = j) ∧
    (∀ source id i j call, Call.ImportsAt start calls source id i → i < j → calls[j]? = some call →
      call.action.Imports source id →
      Execution.succeeded call.run (Call.runAll start (calls.take j)) = false ∧
        (endState call.run (Call.runAll start (calls.take j))).1 = (Call.runAll start (calls.take j)).1) ∧
    ∀ j call a, calls[j]? = some call → call.action = .importAsset a →
      Execution.refusal? call.run (Call.runAll start (calls.take j)) = some .alreadyImported →
      ∃ id, a.message.identifier = .ok id ∧ ∃ i < j, Call.ImportsAt start calls a.message.source id i := by
  refine ⟨fun source id i j hi hj => ?_, fun source id i j call hi hij _ himports => ?_, ?_⟩
  · have hij := hi.not_later hstart hj
    have hji := hj.not_later hstart hi
    omega
  · have hfails := hi.fails_later hstart hij himports
    exact ⟨hfails, Call.unchanged_of_not_succeeded hfails⟩
  · intro j call a _ haction hrefused
    have hhalts := Call.halts_of_refusal hrefused
    rw [haction] at hhalts
    obtain ⟨id, hid, hmarked⟩ := Action.Import.marked_of_refused hhalts
    exact ⟨id, hid, (Call.marked_runAll hstart calls _ id j).1 hmarked⟩

namespace LentUnits

def replayed : Call := ⟨{ arrival with transaction := .filled 13 }, redeeming, some (0, 0)⟩

/-- Units are lent, they come home, and their message is imported once more under another transaction. -/
def history : List Call :=
  [⟨context, lending, some (0, 0)⟩, ⟨arrival, redeeming, none⟩, replayed]

theorem redeemed_once : Store.Opening genesis.opening ∧
    Execution.refusal? replayed.run (Call.runAll (genesis.opening, .empty) (history.take 2)) =
      some .alreadyImported ∧
    ∃ id, message.identifier = .ok id ∧
      (∃ i < 2, Call.ImportsAt (genesis.opening, .empty) history (.filled 8) id i) ∧
      (endState replayed.run (Call.runAll (genesis.opening, .empty) (history.take 2))).1 =
        (Call.runAll (genesis.opening, .empty) (history.take 2)).1 := by
  have hstart : Store.Opening ((genesis.opening, .empty) : Store × Store).1 := .inr ⟨genesis, rfl⟩
  have hrefused : Execution.refusal? replayed.run (Call.runAll (genesis.opening, .empty) (history.take 2)) =
      some .alreadyImported := by decide +kernel
  obtain ⟨-, hunchanged, hearlier⟩ := imports_once hstart history
  obtain ⟨id, hid, i, hi, hat⟩ := hearlier 2 replayed _ rfl rfl hrefused
  exact ⟨hstart, hrefused, id, hid, ⟨i, hi, hat⟩, (hunchanged _ id i 2 replayed hat hi rfl ⟨_, rfl, rfl, hid⟩).2⟩

end LentUnits
end BridgeLedger
