import BridgeLedger.Proofs.BridgeMoves
import BridgeLedger.Proofs.CallHistories
import BridgeLedger.Proofs.SupplyConservation

/-! Identity of assets. A bridged asset is named for the asset that it stands for, and only local assets are lent. The
record of an asset changes in nothing but its supply; that of a local asset is never removed. -/
namespace BridgeLedger

open Store

namespace Move

variable {ctx : Context} {s s' : Store} {consumed sent : Option Bridge.Message} {x d : Identifier} {r : AssetRecord}

/-- A bridged asset keeps its record but for the supply, or loses it. -/
theorem bridged?_next (h : Move ctx s s' consumed sent) (hr : s.bridged? x = some r) :
    s'.bridged? x = none ∨ ∃ supply, s'.bridged? x = some { r with supply } := by
  cases h with
  | quiet _ hbridged => exact .inr ⟨r.supply, (hbridged x).trans hr⟩
  | lent _ _ _ _ hbridged => exact .inr ⟨r.supply, (hbridged x).trans hr⟩
  | released _ _ _ hbridged => exact .inr ⟨r.supply, (hbridged x).trans hr⟩
  | @burned _ _ _ y supply _ _ hbefore _ _ _ hbridged =>
    rw [hbridged]
    by_cases hx : x = y
    · cases hbefore.symm.trans (hx ▸ hr)
      rw [if_pos hx]
      split
      · exact .inl rfl
      · exact .inr ⟨supply, rfl⟩
    · rw [if_neg hx]
      exact .inr ⟨r.supply, hr⟩
  | @arrived a _ _ supply _ _ hjoins _ _ hbridged =>
    rw [hbridged]
    by_cases hx : x = a.origin.bridgedAsset
    · rw [← hx, hr] at hjoins
      rw [if_pos hx, hjoins.1]
      exact .inr ⟨supply, rfl⟩
    · rw [if_neg hx]
      exact .inr ⟨r.supply, hr⟩

/-- Units of every bridged asset on record are in circulation: its record goes with the last one, and value arrives. -/
theorem supply_ne_zero (h : Move ctx s s' consumed sent) (hbefore : ∀ r, s.bridged? x = some r → r.supply ≠ 0)
    (hr : s'.bridged? x = some r) : r.supply ≠ 0 := by
  cases h with
  | quiet _ hbridged => exact hbefore r (hbridged x ▸ hr)
  | lent _ _ _ _ hbridged => exact hbefore r (hbridged x ▸ hr)
  | released _ _ _ hbridged => exact hbefore r (hbridged x ▸ hr)
  | burned _ _ _ _ _ _ hbridged =>
    rw [hbridged] at hr
    split at hr
    · split at hr
      · cases hr
      · rename_i hrest
        cases hr
        exact hrest
    · exact hbefore r hr
  | @arrived a _ record supply _ _ _ hgrown _ hbridged =>
    rw [hbridged] at hr
    split at hr
    · cases hr
      have hvalue : a.transfer.value.toNat ≠ 0 := by
        simpa using mt UInt64.toNat_inj.1 a.acceptable.value
      rintro (hzero : supply = 0)
      rw [hzero, Bridge.Transfer.units, UInt64.toNat_zero] at hgrown
      omega
    · exact hbefore r hr

/-- What is owed for a loan was owed before, or the asset is local. -/
theorem local_of_lent (h : Move ctx s s' consumed sent) (howed : s'.amount (.loan x d) ≠ 0) :
    s.amount (.loan x d) ≠ 0 ∨ (s.local? x).isSome := by
  cases h with
  | quiet hloans => exact .inl (hloans x d ▸ howed)
  | burned _ _ _ _ _ hloans => exact .inl (hloans x d ▸ howed)
  | arrived _ _ _ _ hloans => exact .inl (hloans x d ▸ howed)
  | released _ _ hloans =>
    have := hloans x d
    exact .inl (by omega)
  | lent _ _ hbefore hloans =>
    rw [hloans] at howed
    split at howed
    · rename_i hloan
      exact .inr (by rw [hloan.1, hbefore]; rfl)
    · exact .inl howed

end Move

namespace Action

variable {s s' : Store} {y : Yield} {ctx : Context} {x : Identifier}

namespace Import

variable {a : Import}

/-- Value of another chain joins the record of the bridged asset, or is the first of it. -/
theorem asset?_of_outward (h : Yields (a.execute ctx) s y s') (houtward : a.transfer.returning = false) :
    ∃ record supply, Joins a.transfer a.origin record (s.asset? a.origin.bridgedAsset) ∧
      s'.asset? a.origin.bridgedAsset = some { record with supply } := by
  obtain ⟨-, id, total, asset, t, -, -, hmove, hrest⟩ := execute_iff.1 h
  rw [houtward, if_neg Bool.false_ne_true] at hmove
  obtain ⟨rfl, -, record, supply, hjoins, -, -, hset⟩ := mint_iff.1 hmove
  refine ⟨record, supply, hjoins, ?_⟩
  rw [hrest.frame.asset?_eq (by simp [StateKey.IsBalance])]
  exact asset?_registered hset

/-- Value that comes home changes no record of an asset. -/
theorem asset?_of_homeward (h : Yields (a.execute ctx) s y s') (hhomeward : a.transfer.returning = true) :
    s'.asset? x = s.asset? x := by
  obtain ⟨-, id, total, asset, t, -, -, hmove, hrest⟩ := execute_iff.1 h
  rw [hhomeward, if_pos rfl] at hmove
  rw [hrest.frame.asset?_eq (by simp [StateKey.IsBalance]), (release_frame hmove).asset?_eq (by simp)]

end Import

/-- A lent asset keeps its record; one that is burned keeps all but the supply, or loses it. -/
theorem Export.asset?_cases {a : Export} {r : AssetRecord} (h : Yields (a.execute ctx) s y s')
    (hr : s'.asset? a.asset = some r) :
    ∃ before supply, s.asset? a.asset = some before ∧ r = { before with supply } := by
  obtain ⟨-, -, -, -, record, total, asset, t, message, bytes, -, hrecord, hmove, -, -, -, -, rfl, -⟩ := of_yields h
  rw [(Frame.replace (p := (· = .outgoing ctx.transaction)) _ rfl).asset?_eq nofun] at hr
  split at hmove
  · obtain ⟨-, -, u, supply, -, -, hrest⟩ := of_burn hmove
    rw [hrest.asset?_eq] at hr
    split at hr
    · cases hr
    · cases hr
      exact ⟨record, supply, hrecord, rfl⟩
  · rw [(lend_frame hmove).asset?_eq (by simp [StateKey.IsBalance])] at hr
    exact ⟨r, r.supply, hr, rfl⟩

/-- What is on record for an asset after an action was on record before but for the supply, or the action created it, or
it is that of a transfer which the action imported. -/
theorem asset?_cases {action : Action} {r : AssetRecord} (h : Yields (action.perform ctx) s y s')
    (hr : s'.asset? x = some r) :
    (∃ before supply, s.asset? x = some before ∧ r = { before with supply }) ∨
      (∃ a, action = .createAsset a ∧ r = ⟨a.symbol, a.decimals, a.metadata, 0, a.maxSupply, ctx.actor, false⟩) ∨
      ∃ (a : Import) (supply : UInt64), action = .importAsset a ∧ a.transfer.returning = false ∧
        x = a.origin.bridgedAsset ∧ r = { Import.freshRecord a.transfer a.origin with supply } := by
  by_cases htouches : action.Touches ctx (.asset x)
  · cases action with
    | mint a =>
      obtain ⟨-, record, supply, t, hrecord, -, -, -, -, hset⟩ := Mint.of_yields h
      obtain rfl : x = a.asset := by simpa [Touches, StateKey.IsBalance] using htouches
      cases (asset?_registered hset).symm.trans hr
      exact .inl ⟨record, supply, hrecord, rfl⟩
    | createAsset a =>
      obtain ⟨-, -, -, -, -, hset⟩ := CreateAsset.of_yields h
      cases htouches
      cases (asset?_registered hset).symm.trans hr
      exact .inr (.inl ⟨a, rfl, rfl⟩)
    | importAsset a =>
      obtain rfl : x = a.origin.bridgedAsset := by simpa [Touches, StateKey.IsBalance, Import.origin] using htouches
      cases hreturning : a.transfer.returning with
      | true => exact .inl ⟨r, r.supply, Import.asset?_of_homeward h hreturning ▸ hr, rfl⟩
      | false =>
        obtain ⟨record, supply, hjoins, hafter⟩ := Import.asset?_of_outward h hreturning
        cases hafter.symm.trans hr
        cases hbefore : s.asset? a.origin.bridgedAsset with
        | none =>
          rw [hbefore] at hjoins
          cases hjoins
          exact .inr (.inr ⟨a, supply, rfl, hreturning, rfl, rfl⟩)
        | some before =>
          rw [hbefore] at hjoins
          exact .inl ⟨before, supply, rfl, by rw [hjoins.1]⟩
    | exportAsset a =>
      obtain rfl : x = a.asset := by simpa [Touches, StateKey.IsBalance] using htouches
      exact .inl (Export.asset?_cases h hr)
    | _ => simp [Touches, StateKey.IsBalance] at htouches
  · exact .inl ⟨r, r.supply, (Action.frame h).asset?_eq htouches ▸ hr, rfl⟩

end Action

/-- What a recorded execution does in the course of a chain: nothing to the state, or a move of value that keeps the
local assets, under a name that no asset has yet. -/
theorem Reachable.after_cases {ledger : Store × Store} (h : Reachable ledger) {ctx : Context}
    (hnamed : ctx.transaction ≠ .empty) (hunbridged : ledger.1.bridged? ctx.transaction = none) (action : Action)
    (signatureUnits fee : UInt64) :
    (Execution.after ctx action signatureUnits fee ledger).1 = ledger.1 ∨ ∃ consumed sent,
      Move ctx ledger.1 (Execution.after ctx action signatureUnits fee ledger).1 consumed sent ∧
        Keeps ctx.transaction ledger.1 (Execution.after ctx action signatureUnits fee ledger).1 ∧
        ledger.1.asset? ctx.transaction = none := by
  have hsound := Sound.of_reachable h
  obtain hsame | ⟨s', record, hnew, hafter, hends⟩ := Execution.after_yields ledger ctx action signatureUnits fee
  · exact .inl (by rw [hsame])
  · rw [hafter]
    obtain rfl | ⟨y, hyields⟩ := hends
    · exact .inl rfl
    · have hnone := asset?_eq_none_iff.2 ⟨hsound.toTidy.local?_transaction hnamed hnew, hunbridged⟩
      have hmove := Action.moves hyields hsound.wellFormed hnamed hnone
      exact .inr ⟨_, _, hmove, Action.keeps hyields hsound.wellFormed, hnone⟩

/-- Bridged assets are named for what they stand for, belong to nobody and have units in circulation, and what is owed
for a loan is of a local asset. -/
structure Store.Identified (s : Store) : Prop where
  origin : ∀ x r, s.bridged? x = some r → ∃ o : Bridge.Origin, x = o.bridgedAsset ∧ r.metadata = o.metadata
  unowned : ∀ x r, s.bridged? x = some r → r.owner = .empty
  supplied : ∀ x r, s.bridged? x = some r → r.supply ≠ 0
  lent : ∀ x d, s.amount (.loan x d) ≠ 0 → (s.local? x).isSome

namespace Store.Identified

theorem opening (g : Genesis) : g.opening.Identified where
  origin x r hr := absurd (hr.symm.trans (g.opening_bridged? x)) (Option.some_ne_none r)
  unowned x r hr := absurd (hr.symm.trans (g.opening_bridged? x)) (Option.some_ne_none r)
  supplied x r hr := absurd (hr.symm.trans (g.opening_bridged? x)) (Option.some_ne_none r)
  lent x d howed := by
    rw [amount, g.opening_stored (k := .loan x d) (fun h => h) (by simp)] at howed
    exact absurd rfl howed

theorem moved {ctx : Context} {s s' : Store} {consumed sent : Option Bridge.Message} (h : s.Identified)
    (hmove : Move ctx s s' consumed sent) (hkeeps : Keeps ctx.transaction s s')
    (hnone : s.asset? ctx.transaction = none) : s'.Identified where
  origin x r hr := by
    obtain ⟨before, supply, hbefore, rfl⟩ | ⟨a, supply, -, -, hx, rfl⟩ := hmove.bridged?_cases hr
    · exact h.origin x before hbefore
    · exact ⟨a.origin, hx, rfl⟩
  unowned x r hr := by
    obtain ⟨before, supply, hbefore, rfl⟩ | ⟨a, supply, -, -, -, rfl⟩ := hmove.bridged?_cases hr
    · exact h.unowned x before hbefore
    · rfl
  supplied x r hr := hmove.supply_ne_zero (h.supplied x) hr
  lent x d howed := by
    have hlocal : (s.local? x).isSome := (hmove.local_of_lent howed).elim (h.lent x d) id
    obtain ⟨r, hr⟩ := Option.isSome_iff_exists.1 hlocal
    obtain rfl | ⟨supply, hafter⟩ := hkeeps.persists x r hr
    · rw [local?_of_none hnone] at hr
      cases hr
    · rw [hafter]
      rfl

theorem of_reachable {ledger : Store × Store} (h : Reachable ledger) : ledger.1.Identified := by
  induction h with
  | opening g => exact opening g
  | step ctx action signatureUnits fee hstart hnamed hunbridged ih =>
    obtain hsame | ⟨consumed, sent, hmove, hkeeps, hnone⟩ :=
      hstart.after_cases hnamed hunbridged action signatureUnits fee
    · rwa [hsame]
    · exact ih.moved hmove hkeeps hnone

end Store.Identified

/-- An execution leaves the record of an asset as it is but for the supply, or removes that of a bridged asset. -/
theorem Reachable.asset?_after {ledger : Store × Store} (h : Reachable ledger) {ctx : Context}
    (hnamed : ctx.transaction ≠ .empty) (hunbridged : ledger.1.bridged? ctx.transaction = none) (action : Action)
    (signatureUnits fee : UInt64) {x : Identifier} {r : AssetRecord} (hr : ledger.1.asset? x = some r) :
    (∃ supply, (Execution.after ctx action signatureUnits fee ledger).1.asset? x = some { r with supply }) ∨
      r.bridged = true ∧ (Execution.after ctx action signatureUnits fee ledger).1.asset? x = none := by
  obtain hsame | ⟨consumed, sent, hmove, hkeeps, hnone⟩ := h.after_cases hnamed hunbridged action signatureUnits fee
  · exact .inl ⟨r.supply, by rw [hsame, hr]⟩
  · have hx : x ≠ ctx.transaction := by
      rintro rfl
      cases hnone.symm.trans hr
    obtain hbridged | hlocal := Bool.eq_false_or_eq_true r.bridged
    · obtain hgone | ⟨supply, hafter⟩ := hmove.bridged?_next (bridged?_eq_some.2 ⟨hr, hbridged⟩)
      · have hforeign : (Execution.after ctx action signatureUnits fee ledger).1.local? x = none := by
          refine Option.not_isSome_iff_eq_none.1 fun hsome => ?_
          obtain heq | hbefore := hkeeps.named x hsome
          · exact hx heq
          · rw [local?_of_bridged hr hbridged] at hbefore
            cases hbefore
        exact .inr ⟨hbridged, asset?_eq_none_iff.2 ⟨hforeign, hgone⟩⟩
      · exact .inl ⟨supply, (bridged?_eq_some.1 hafter).1⟩
    · obtain heq | ⟨supply, hafter⟩ := hkeeps.persists x r (local?_eq_some.2 ⟨hr, hlocal⟩)
      · exact absurd heq hx
      · exact .inl ⟨supply, (local?_eq_some.1 hafter).1⟩

namespace Call

/-- A history of recorded calls, in which no transaction is named like the native asset or like a bridged asset that is
then on record. -/
def Orderly (start : Store × Store) (calls : List Call) : Prop :=
  ∀ i c, calls[i]? = some c → c.recording.isSome ∧ c.context.transaction ≠ .empty ∧
    (runAll start (calls.take i)).1.bridged? c.context.transaction = none

variable {c : Call} {ledger start : Store × Store} {calls : List Call}

theorem exists_endState_eq_after (hrecorded : c.recording.isSome) (ledger : Store × Store) :
    ∃ units fee, endState c.run ledger = Execution.after c.context c.action units fee ledger := by
  obtain ⟨⟨units, fee⟩, hrecording⟩ := Option.isSome_iff_exists.1 hrecorded
  refine ⟨units, fee, ?_⟩
  unfold endState Execution.after
  rw [run_of_recording hrecording]
  cases Execution.executeRecorded c.context c.action units fee ledger <;> rfl

namespace Orderly

theorem reachable {g : Genesis} (h : Orderly (g.opening, .empty) calls) (i : Nat) :
    Reachable (runAll (g.opening, .empty) (calls.take i)) := by
  refine runAll_persists (p := Reachable) (Nat.zero_le i) (.opening g) fun k c _ _ hc hk => ?_
  obtain ⟨hrecorded, hnamed, hunbridged⟩ := h k c hc
  obtain ⟨units, fee, hend⟩ := exists_endState_eq_after hrecorded (runAll (g.opening, .empty) (calls.take k))
  rw [hend]
  exact .step _ _ units fee hk hnamed hunbridged

/-- The record of an asset lasts, but for its supply, until it is removed; only that of a bridged asset can be. -/
theorem asset?_later {g : Genesis} (h : Orderly (g.opening, .empty) calls) {i j : Nat} {x : Identifier}
    {r : AssetRecord} (hij : i ≤ j) (hr : (runAll (g.opening, .empty) (calls.take i)).1.asset? x = some r)
    (hthere : r.bridged = true → ∀ k, i ≤ k → k ≤ j → (runAll (g.opening, .empty) (calls.take k)).1.asset? x ≠ none) :
    ∃ supply, (runAll (g.opening, .empty) (calls.take j)).1.asset? x = some { r with supply } := by
  refine runAll_persists (p := fun ledger => ∃ supply, ledger.1.asset? x = some { r with supply }) hij ⟨r.supply, hr⟩
    fun k c hik hkj hc ⟨supply, hsupply⟩ => ?_
  obtain ⟨hrecorded, hnamed, hunbridged⟩ := h k c hc
  obtain ⟨units, fee, hend⟩ := exists_endState_eq_after hrecorded (runAll (g.opening, .empty) (calls.take k))
  obtain hkept | ⟨hbridged, hgone⟩ := (h.reachable k).asset?_after hnamed hunbridged c.action units fee hsupply
  · rwa [hend]
  · rw [← hend, ← runAll_take_succ hc] at hgone
    exact absurd hgone (hthere hbridged (k + 1) (Nat.le_succ_of_le hik) hkj)

end Orderly

/-- The call at this place of a history imports value of another chain, with success. -/
def MintsAt (start : Store × Store) (calls : List Call) (a : Action.Import) (i : Nat) : Prop :=
  ∃ c, calls[i]? = some c ∧ c.action = .importAsset a ∧ a.transfer.returning = false ∧
    Execution.succeeded c.run (runAll start (calls.take i)) = true

/-- Every bridged asset on record was imported before; all of its record but the supply comes from there. -/
theorem exists_mintsAt (hstart : start.1.Opening) {i : Nat} {x : Identifier} {r : AssetRecord}
    (hr : (runAll start (calls.take i)).1.bridged? x = some r) :
    ∃ k < i, ∃ (a : Action.Import) (supply : UInt64), MintsAt start calls a k ∧ x = a.origin.bridgedAsset ∧
      r = { Action.Import.freshRecord a.transfer a.origin with supply } := by
  induction i generalizing r with
  | zero => cases (hstart.bridged?_eq_none x).symm.trans hr
  | succ i ih =>
    have hlater (before : AssetRecord) (supply : UInt64)
        (hbefore : (runAll start (calls.take i)).1.bridged? x = some before) :
        ∃ k < i + 1, ∃ (a : Action.Import) (supply' : UInt64), MintsAt start calls a k ∧ x = a.origin.bridgedAsset ∧
          { before with supply } = { Action.Import.freshRecord a.transfer a.origin with supply := supply' } := by
      obtain ⟨k, hk, a, _, hmints, hx, rfl⟩ := ih hbefore
      exact ⟨k, Nat.lt_succ_of_lt hk, a, supply, hmints, hx, rfl⟩
    obtain hsame | ⟨c, y, hc, hsucceeded, hyields⟩ := runAll_succ_cases start calls i
    · rw [hsame] at hr
      exact hlater r r.supply hr
    · obtain ⟨hasset, hbridged⟩ := bridged?_eq_some.1 hr
      obtain ⟨before, supply, hbefore, rfl⟩ | ⟨a, -, rfl⟩ | ⟨a, supply, haction, houtward, hx, rfl⟩ :=
        Action.asset?_cases hyields hasset
      · exact hlater before supply (bridged?_eq_some.2 ⟨hbefore, hbridged⟩)
      · cases hbridged
      · exact ⟨i, Nat.lt_succ_self i, a, supply, ⟨c, hc, haction, houtward, hsucceeded⟩, hx, rfl⟩

/-- In a history from a distribution every look-up of an asset answers. The record of a bridged asset is stored under
the digest of its metadata, which are the asset and the chain that an earlier call imported it from; it belongs to
nobody, has units in circulation, and is not lent. From any state to a later one the record of a local asset keeps all
but its supply, and so does that of a bridged asset while there is one. -/
theorem asset_identity (g : Genesis) (calls : List Call) (horderly : Orderly (g.opening, .empty) calls)
    (x : Identifier) :
    (∀ i, (Ledger.asset? x).runOn (runAll (g.opening, .empty) (calls.take i)).1 =
      .ok ((runAll (g.opening, .empty) (calls.take i)).1.asset? x)) ∧
    (∀ i r, (runAll (g.opening, .empty) (calls.take i)).1.asset? x = some r → r.bridged = true →
      x = Identifier.digest r.metadata ∧ r.metadata.length = 64 ∧
        (∃ k < i, ∃ a, MintsAt (g.opening, .empty) calls a k ∧
          r.metadata = a.transfer.asset.octets ++ a.message.source.octets) ∧ r.owner = .empty ∧ r.supply ≠ 0 ∧
        ∀ key bytes d, (runAll (g.opening, .empty) (calls.take i)).1.find? key = some bytes →
          StateKey.loanParts? key ≠ some (x, d)) ∧
    ∀ i j r, i ≤ j → (runAll (g.opening, .empty) (calls.take i)).1.asset? x = some r →
      (r.bridged = true → ∀ k, i ≤ k → k ≤ j → (runAll (g.opening, .empty) (calls.take k)).1.asset? x ≠ none) →
      ∃ supply, (runAll (g.opening, .empty) (calls.take j)).1.asset? x = some { r with supply } := by
  refine ⟨fun i => ?_, fun i r hr hbridged => ?_, fun i j r => horderly.asset?_later⟩
  · rw [LedgerRead.runOn_store]
    exact Yields.asset?_iff.2 ⟨(Sound.of_reachable (horderly.reachable i)).wellFormed.decodes_asset x, rfl⟩
  · have hwf := (Sound.of_reachable (horderly.reachable i)).wellFormed
    have hidentified := Identified.of_reachable (horderly.reachable i)
    have hrecord := bridged?_eq_some.2 ⟨hr, hbridged⟩
    have hunowned := hidentified.unowned x r hrecord
    have hsupplied := hidentified.supplied x r hrecord
    obtain ⟨k, hk, a, supply, hmints, rfl, rfl⟩ := exists_mintsAt (.inr ⟨g, rfl⟩) hrecord
    have hlength : a.origin.metadata.length = 64 := by simp [Bridge.Origin.metadata]
    refine ⟨rfl, hlength, ⟨k, hk, a, hmints, rfl⟩, hunowned, hsupplied, fun key bytes d hfind hparts => ?_⟩
    obtain ⟨k, rfl, hadmits⟩ := hwf key bytes hfind
    rw [StateKey.loanParts?_octets] at hparts
    cases k <;> cases hparts
    obtain ⟨v, hv, hzero⟩ := hadmits
    have howed : (runAll (g.opening, .empty) (calls.take i)).1.amount (.loan a.origin.bridgedAsset d) ≠ 0 := by
      rw [amount, stored, hfind, Cell.amount, hv]
      simpa using mt UInt64.toNat_inj.1 hzero
    have hlocal := hidentified.lent _ d howed
    rw [local?_of_bridged hr hbridged] at hlocal
    cases hlocal

end Call

namespace ForeignUnits

def transfer : Bridge.Transfer :=
  ⟨.filled 3, [88], 6, .empty, 30, false, ⟨0, ⟨0, .empty, 0, 0⟩⟩, .filled 12, .filled 9⟩

def message : Bridge.Message := ⟨1, .filled 8, transfer.encode.toOption.getD []⟩

theorem decode_message : Bridge.Transfer.decode message.payload = .ok transfer :=
  Bridge.Transfer.decode_encode rfl (by decide) (by decide) (by decide) (by decide) (by decide)

def asset : Identifier := Bridge.Origin.bridgedAsset ⟨.empty, .filled 8⟩

def history : List Call :=
  [⟨⟨.filled 1, .filled 7, 0, .filled 9, 1, true⟩, .importAsset ⟨false, message, transfer, decode_message⟩, some (0, 0)⟩,
    ⟨⟨.filled 3, .filled 13, 0, .filled 9, 1, false⟩,
      .exportAsset ⟨.filled 3, asset, 10, true, ⟨0, ⟨0, .empty, 0, 0⟩⟩, .filled 8⟩, some (0, 0)⟩]

def ledger (i : Nat) : Store × Store := Call.runAll (LentUnits.genesis.opening, .empty) (history.take i)

theorem keep_record : Call.Orderly (LentUnits.genesis.opening, .empty) history ∧ ∃ r supply,
    (ledger 1).1.asset? asset = some r ∧ r.bridged = true ∧ asset = Identifier.digest r.metadata ∧
      r.metadata = Identifier.empty.octets ++ (Identifier.filled 8).octets ∧
      (ledger 2).1.asset? asset = some { r with supply } := by
  have harrived : (ledger 1).1.bridged? (.filled 13) = none ∧
      ((ledger 1).1.bridged? asset).isSome = true := by decide +kernel
  have hreturned : ((ledger 2).1.asset? asset).isSome = true := by decide +kernel
  have horderly : Call.Orderly (LentUnits.genesis.opening, .empty) history := by
    intro i c hc
    match i with
    | 0 =>
      cases hc
      exact ⟨rfl, by decide, LentUnits.genesis.opening_bridged? _⟩
    | 1 =>
      cases hc
      exact ⟨rfl, by decide, harrived.1⟩
    | i + 2 => cases hc
  obtain ⟨-, hidentity, hlater⟩ := Call.asset_identity LentUnits.genesis history horderly asset
  obtain ⟨r, hrecord⟩ := Option.isSome_iff_exists.1 harrived.2
  obtain ⟨hr, hbridged⟩ := bridged?_eq_some.1 hrecord
  have hthere : ∀ k, 1 ≤ k → k ≤ 2 → (ledger k).1.asset? asset ≠ none := fun k hk hk' hnone => by
    obtain rfl | rfl : k = 1 ∨ k = 2 := by omega
    · cases hr.symm.trans hnone
    · rw [hnone] at hreturned
      cases hreturned
  obtain ⟨supply, hkept⟩ := hlater 1 2 r (by decide) hr fun _ => hthere
  obtain ⟨hname, -, ⟨k, hk, a, ⟨c, hc, haction, -, -⟩, hmetadata⟩, -⟩ := hidentity 1 r hr hbridged
  obtain rfl : k = 0 := Nat.lt_one_iff.1 hk
  cases hc
  cases haction
  exact ⟨horderly, r, supply, hr, hbridged, hname, hmetadata, hkept⟩

end ForeignUnits
end BridgeLedger
