import BridgeLedger.Proofs.TransactionLog

/-! Provenance of tokens. A token appears when the transaction that names it creates it, and only its owner changes, by
a transfer of the owner. A token without an owner stays as it is. -/
namespace BridgeLedger

open Store

theorem Store.nft?_runOn {s : Store} {n : Identifier} (h : Decodes NftRecord.decode (s.stored (.nft n))) :
    (Ledger.nft? n).runOn s = .ok (s.nft? n) := by
  rw [LedgerRead.runOn_store]
  exact Yields.nft?_iff.2 ⟨h, rfl⟩

theorem Store.nft?_replace {s : Store} {n : Identifier} {r : NftRecord} {bytes : Octets} (h : r.encode = .ok bytes) :
    (s.replace (.nft n) (some bytes)).nft? n = some r :=
  decoded_eq_some.2 ⟨bytes, stored_replace_self .., NftRecord.decode_encode h⟩

/-- A successful action that touches a token creates it or transfers it. -/
theorem Action.token_cases {action : Action} {ctx : Context} {s s' : Store} {y : Yield}
    (h : Yields (action.perform ctx) s y s') (n : Identifier) :
    (¬action.Touches ctx (.nft n) ∧ s'.stored (.nft n) = s.stored (.nft n)) ∨
      (∃ a, action = .createNft a ∧ ctx.transaction = n ∧ s'.nft? n = some ⟨a.metadata, a.owner, a.url⟩) ∨
      ∃ a r, action = .transferNft a ∧ a.nft = n ∧ s.nft? n = some r ∧ r.owner = ctx.actor ∧
        s'.nft? n = some { r with owner := a.recipient } := by
  by_cases htouches : action.Touches ctx (.nft n)
  · cases action with
    | createNft a =>
      obtain ⟨-, bytes, hbytes, rfl⟩ := CreateNft.of_yields h
      cases htouches
      exact .inr (.inl ⟨a, rfl, rfl, nft?_replace hbytes⟩)
    | transferNft a =>
      obtain ⟨-, r, bytes, hr, howner, hbytes, rfl⟩ := TransferNft.of_yields h
      cases htouches
      exact .inr (.inr ⟨a, r, rfl, rfl, hr, howner, nft?_replace hbytes⟩)
    | _ => simp [Touches, StateKey.IsBalance] at htouches
  · exact .inl ⟨htouches, Action.frame h _ htouches⟩

namespace Call

variable {c : Call} {ledger after start : Store × Store} {calls : List Call} {n : Identifier}

inductive TokenStep (c : Call) (ledger after : Store × Store) (n : Identifier) : Prop where
  /-- the call fails, or does not concern the token -/
  | kept (unconcerned : Execution.succeeded c.run ledger = true → ¬c.action.Touches c.context (.nft n))
      (same : after.1.stored (.nft n) = ledger.1.stored (.nft n))
  /-- the transaction that names the token creates it -/
  | created {a : Action.CreateNft} (action : c.action = .createNft a) (named : c.context.transaction = n)
      (succeeded : Execution.succeeded c.run ledger = true) (absent : ledger.1.stored (.nft n) = none)
      (record : after.1.nft? n = some ⟨a.metadata, a.owner, a.url⟩)
  /-- the owner gives the token away -/
  | transferred {a : Action.TransferNft} {r : NftRecord} (action : c.action = .transferNft a) (token : a.nft = n)
      (succeeded : Execution.succeeded c.run ledger = true) (held : ledger.1.nft? n = some r)
      (owner : r.owner = c.context.actor) (record : after.1.nft? n = some { r with owner := a.recipient })

namespace TokenStep

variable {r : NftRecord}

/-- All of a token but its owner stays. -/
theorem persists (h : TokenStep c ledger after n) (hr : ledger.1.nft? n = some r) :
    ∃ owner, after.1.nft? n = some { r with owner } := by
  cases h with
  | kept _ hsame => exact ⟨r.owner, by rw [Store.nft?, hsame]; exact hr⟩
  | created _ _ _ habsent => simp [Store.nft?, habsent] at hr
  | @transferred a _ _ _ _ hheld _ hrecord =>
    cases hheld.symm.trans hr
    exact ⟨a.recipient, hrecord⟩

/-- Nobody acts as the empty address, so a token that it owns stays as it is. -/
theorem burned (h : TokenStep c ledger after n) (hactor : c.context.actor ≠ .empty) (hr : ledger.1.nft? n = some r)
    (howner : r.owner = .empty) : after.1.stored (.nft n) = ledger.1.stored (.nft n) := by
  cases h with
  | kept _ hsame => exact hsame
  | created _ _ _ habsent => simp [Store.nft?, habsent] at hr
  | transferred _ _ _ hheld hactor' =>
    cases hheld.symm.trans hr
    exact absurd (hactor'.symm.trans howner) hactor

end TokenStep

def TokensNamed (ledger : Store × Store) : Prop :=
  ∀ n, ledger.1.stored (.nft n) ≠ none → ledger.2.find? (transactionKey n) ≠ none

theorem tokensNamed_endState (hrecorded : c.recording.isSome) (h : TokensNamed ledger) :
    TokensNamed (endState c.run ledger) := by
  obtain ⟨-, hsame⟩ | ⟨s', record, -, hend, hends⟩ := endState_recorded hrecorded ledger
  · rwa [hsame]
  · rw [hend]
    intro n hstored
    rw [KeyMap.find?_insert]
    split
    · nofun
    · rename_i hother
      obtain ⟨-, rfl⟩ | ⟨-, y, hyields⟩ := hends
      · exact h n hstored
      · obtain ⟨-, hkept⟩ | ⟨a, -, hnamed, -⟩ | ⟨a, r, -, -, hr, -⟩ := Action.token_cases hyields n
        · exact h n (hkept ▸ hstored)
        · exact absurd (congrArg transactionKey hnamed.symm) hother
        · obtain ⟨bytes, hbytes, -⟩ := decoded_eq_some.1 hr
          exact h n (by rw [hbytes]; nofun)

/-- A new transaction does not name a token yet, so nothing is overwritten by a creation. -/
theorem tokenStep_endState (hrecorded : c.recording.isSome) (hnamed : TokensNamed ledger) (n : Identifier) :
    TokenStep c ledger (endState c.run ledger) n := by
  obtain ⟨hfailed, hsame⟩ | ⟨s', record, hnew, hend, hends⟩ := endState_recorded hrecorded ledger
  · exact .kept (fun h => nomatch hfailed.symm.trans h) (by rw [hsame])
  · rw [hend]
    obtain ⟨hfailed, rfl⟩ | ⟨hsucceeded, y, hyields⟩ := hends
    · exact .kept (fun h => nomatch hfailed.symm.trans h) rfl
    · obtain ⟨htouches, hkept⟩ | ⟨a, haction, rfl, hcreated⟩ | ⟨a, r, haction, htoken, hr, howner, hgiven⟩ :=
        Action.token_cases hyields n
      · exact .kept (fun _ => htouches) hkept
      · have habsent : ledger.1.stored (.nft c.context.transaction) = none :=
          Classical.byContradiction fun hstored => hnamed _ hstored hnew
        exact .created haction rfl hsucceeded habsent hcreated
      · exact .transferred haction htoken hsucceeded hr howner hgiven

theorem tokensNamed_runAll (hstart : start.1.Opening) (hrecorded : ∀ c ∈ calls, c.recording.isSome) (i : Nat) :
    TokensNamed (runAll start (calls.take i)) := by
  have hnone : TokensNamed start := fun n hstored =>
    absurd (hstart.stored_eq_none (k := .nft n) (fun h => h) nofun) hstored
  exact runAll_persists (p := TokensNamed) (Nat.zero_le i) hnone fun _ c _ _ hc hk =>
    tokensNamed_endState (hrecorded c (List.mem_of_getElem? hc)) hk

theorem tokenStep_runAll (hstart : start.1.Opening) (hrecorded : ∀ c ∈ calls, c.recording.isSome) {i : Nat}
    (hc : calls[i]? = some c) (n : Identifier) :
    TokenStep c (runAll start (calls.take i)) (runAll start (calls.take (i + 1))) n := by
  rw [runAll_take_succ hc]
  exact tokenStep_endState (hrecorded c (List.mem_of_getElem? hc)) (tokensNamed_runAll hstart hrecorded i) n

def CreatesAt (start : Store × Store) (calls : List Call) (n : Identifier) (a : Action.CreateNft) (i : Nat) : Prop :=
  ∃ c, calls[i]? = some c ∧ c.action = .createNft a ∧ c.context.transaction = n ∧
    Execution.succeeded c.run (runAll start (calls.take i)) = true

/-- A token on record was created by an earlier call, with the same metadata and url. -/
theorem exists_createsAt (hstart : start.1.Opening) (hrecorded : ∀ c ∈ calls, c.recording.isSome) {i : Nat}
    {r : NftRecord} (hr : (runAll start (calls.take i)).1.nft? n = some r) :
    ∃ k < i, ∃ a, CreatesAt start calls n a k ∧ r.metadata = a.metadata ∧ r.url = a.url := by
  induction i generalizing r with
  | zero =>
    have hnone := hstart.stored_eq_none (k := .nft n) (fun h => h) nofun
    simp [runAll, Store.nft?, hnone] at hr
  | succ i ih =>
    cases hc : calls[i]? with
    | none =>
      rw [List.take_add_one, hc, Option.toList_none, List.append_nil] at hr
      obtain ⟨k, hk, hcreated⟩ := ih hr
      exact ⟨k, Nat.lt_succ_of_lt hk, hcreated⟩
    | some c =>
      cases tokenStep_runAll hstart hrecorded hc n with
      | kept _ hsame =>
        rw [Store.nft?, hsame] at hr
        obtain ⟨k, hk, hcreated⟩ := ih hr
        exact ⟨k, Nat.lt_succ_of_lt hk, hcreated⟩
      | @created a haction hnamed hsucceeded _ hrecord =>
        cases hrecord.symm.trans hr
        exact ⟨i, Nat.lt_succ_self i, a, ⟨c, hc, haction, hnamed, hsucceeded⟩, rfl, rfl⟩
      | transferred _ _ _ hheld _ hrecord =>
        cases hrecord.symm.trans hr
        obtain ⟨k, hk, hcreated⟩ := ih hheld
        exact ⟨k, Nat.lt_succ_of_lt hk, hcreated⟩

/-- In a history of recorded calls that starts with empty metadata, every call leaves a token alone, creates it under
its own name where there was none, or gives it from the actor, who owns it, to the recipient. So a token on record was
created before, it is never removed, and only its owner changes. If nobody acts as the empty address, a token that the
empty address owns never changes again. -/
theorem token_provenance {s : Store} (hstart : s.Opening) (calls : List Call)
    (hrecorded : ∀ c ∈ calls, c.recording.isSome) (hactors : ∀ c ∈ calls, c.context.actor ≠ .empty) (n : Identifier) :
    (∀ i, (Ledger.nft? n).runOn (runAll (s, .empty) (calls.take i)).1 =
      .ok ((runAll (s, .empty) (calls.take i)).1.nft? n)) ∧
    s.stored (.nft n) = none ∧
    (∀ i c, calls[i]? = some c →
      TokenStep c (runAll (s, .empty) (calls.take i)) (runAll (s, .empty) (calls.take (i + 1))) n) ∧
    ∀ i r, (runAll (s, .empty) (calls.take i)).1.nft? n = some r →
      (∃ k < i, ∃ a, CreatesAt (s, .empty) calls n a k ∧ r.metadata = a.metadata ∧ r.url = a.url) ∧
      ∀ j, i ≤ j → (∃ owner, (runAll (s, .empty) (calls.take j)).1.nft? n = some { r with owner }) ∧
        (r.owner = .empty → (runAll (s, .empty) (calls.take j)).1.stored (.nft n) =
          (runAll (s, .empty) (calls.take i)).1.stored (.nft n)) := by
  have hopening : ((s, .empty) : Store × Store).1.Opening := hstart
  have hstep (i : Nat) (c : Call) (hc : calls[i]? = some c) := tokenStep_runAll hopening hrecorded hc n
  refine ⟨fun i => ?_, hstart.stored_eq_none (fun h => h) nofun, hstep, fun i r hr => ?_⟩
  · exact nft?_runOn fun bytes hbytes => (runAll_wellFormed hopening (calls.take i)).admits hbytes
  · refine ⟨exists_createsAt hopening hrecorded hr, fun j hij => ⟨?_, fun howner => ?_⟩⟩
    · refine runAll_persists (p := fun ledger => ∃ owner, ledger.1.nft? n = some { r with owner }) hij ⟨r.owner, hr⟩
        fun k c _ _ hc ⟨owner, howner⟩ => ?_
      obtain ⟨owner', howner'⟩ := (hstep k c hc).persists howner
      rw [runAll_take_succ hc] at howner'
      exact ⟨owner', howner'⟩
    · refine runAll_persists
        (p := fun ledger => ledger.1.stored (.nft n) = (runAll (s, .empty) (calls.take i)).1.stored (.nft n)) hij rfl
        fun k c _ _ hc hsame => ?_
      have hburned : (runAll (s, .empty) (calls.take k)).1.nft? n = some r := by
        rw [Store.nft?, hsame]
        exact hr
      have hkept := (hstep k c hc).burned (hactors c (List.mem_of_getElem? hc)) hburned howner
      rw [runAll_take_succ hc] at hkept
      exact hkept.trans hsame

end Call

namespace BurnedToken

def call (actor : Address) (transaction : Identifier) (action : Action) : Call :=
  ⟨⟨actor, transaction, 0, .filled 9, 1, false⟩, action, some (0, 0)⟩

/-- A token is created for an account, which burns it; then others try to take it and to create it again. -/
def history : List Call :=
  [call (.filled 2) (.filled 7) (.createNft ⟨[109], .filled 1, [117]⟩),
    call (.filled 1) (.filled 13) (.transferNft ⟨.empty, .filled 7, []⟩),
    call (.filled 2) (.filled 14) (.transferNft ⟨.filled 2, .filled 7, []⟩),
    call (.filled 2) (.filled 7) (.createNft ⟨[110], .filled 2, [117]⟩)]

theorem stays_burned : Store.Opening .empty ∧ (∀ c ∈ history, c.recording.isSome) ∧
    (∀ c ∈ history, c.context.actor ≠ .empty) ∧
    (Call.runAll (.empty, .empty) (history.take 2)).1.nft? (.filled 7) = some ⟨[109], .empty, [117]⟩ ∧
    (∃ k < 2, ∃ a, Call.CreatesAt (.empty, .empty) history (.filled 7) a k ∧ a.metadata = [109] ∧ a.url = [117]) ∧
    (Call.runAll (.empty, .empty) (history.take 4)).1.stored (.nft (.filled 7)) =
      (Call.runAll (.empty, .empty) (history.take 2)).1.stored (.nft (.filled 7)) := by
  have hstart : Store.Opening .empty := .inl rfl
  have hrecorded : ∀ c ∈ history, c.recording.isSome := by decide
  have hactors : ∀ c ∈ history, c.context.actor ≠ .empty := by decide
  have hburned : (Call.runAll (.empty, .empty) (history.take 2)).1.nft? (.filled 7) =
      some ⟨[109], .empty, [117]⟩ := by decide +kernel
  obtain ⟨-, -, -, htoken⟩ := Call.token_provenance hstart history hrecorded hactors (.filled 7)
  obtain ⟨⟨k, hk, a, hcreated, hmetadata, hurl⟩, hlater⟩ := htoken 2 _ hburned
  exact ⟨hstart, hrecorded, hactors, hburned, ⟨k, hk, a, hcreated, hmetadata.symm, hurl.symm⟩,
    (hlater 4 (by decide)).2 rfl⟩

end BurnedToken
end BridgeLedger
