import BridgeLedger.Proofs.ActionEffects
import BridgeLedger.Proofs.LedgerInvariant

/-! The bridge in the state of one chain: its loans, its bridged assets and the marks of imported messages. A successful
action leaves all three alone, or it is one of four moves of value between chains. -/
namespace BridgeLedger

open Store Yields

def Bridge.Transfer.units (t : Bridge.Transfer) : Nat := t.value.toNat + t.terms.reward.toNat

theorem Bridge.Transfer.units_of_total? {t : Bridge.Transfer} {total : UInt64} (h : t.total? = some total) :
    total.toNat = t.units := Amount.toNat_of_add?_eq_some h

theorem Bridge.Origin.metadata_of_ofMetadata? {metadata : Octets} {o : Bridge.Origin}
    (h : ofMetadata? metadata = some o) : metadata = o.metadata := by
  obtain ⟨asset, hasset, h⟩ := Option.bind_eq_some_iff.1 h
  obtain ⟨chain, hchain, h⟩ := Option.bind_eq_some_iff.1 h
  cases h
  rw [Origin.metadata, Identifier.ofOctets?_eq_some.1 hasset, Identifier.ofOctets?_eq_some.1 hchain,
    List.take_append_drop]

def Store.bridgedSupply (s : Store) (x : Identifier) : Nat := (s.bridged? x).elim 0 fun r => r.supply.toNat

/-- A message that a transaction has just emitted, with the transfer of an asset on record in it. -/
structure Sends (ctx : Context) (record : AssetRecord) (t : Bridge.Transfer) (message : Bridge.Message) : Prop where
  decoded : Bridge.Transfer.decode message.payload = .ok t
  encoded : ∃ bytes, message.encode = .ok bytes
  network : message.network = ctx.network
  source : message.source = ctx.chain
  transaction : t.transaction = ctx.transaction
  distant : t.destination ≠ ctx.chain
  fits : t.units < UInt64.size
  symbol : t.symbol = record.symbol
  decimals : t.decimals = record.decimals

def Action.Import.origin (a : Action.Import) : Bridge.Origin := ⟨a.transfer.asset, a.message.source⟩

/-- What a successful action does to the bridge, by the message that it consumes and the one that it emits. -/
inductive Move (ctx : Context) (s s' : Store) : Option Bridge.Message → Option Bridge.Message → Prop where
  /-- nothing at all -/
  | quiet (loans : ∀ x d, s'.amount (.loan x d) = s.amount (.loan x d)) (bridged : ∀ x, s'.bridged? x = s.bridged? x)
      (marks : ∀ c i, s'.marked c i = s.marked c i) : Move ctx s s' none none
  /-- units of a local asset leave against a loan -/
  | lent {t : Bridge.Transfer} {record : AssetRecord} {message : Bridge.Message} (sends : Sends ctx record t message)
      (outward : t.returning = false) (before : s.local? t.asset = some record)
      (loans : ∀ x d, s'.amount (.loan x d) =
        s.amount (.loan x d) + if x = t.asset ∧ d = t.destination then t.units else 0)
      (bridged : ∀ x, s'.bridged? x = s.bridged? x) (marks : ∀ c i, s'.marked c i = s.marked c i) :
      Move ctx s s' none (some message)
  /-- units of a bridged asset leave for home -/
  | burned {t : Bridge.Transfer} {record : AssetRecord} {message : Bridge.Message} {x : Identifier} {supply : UInt64}
      (sends : Sends ctx record t message) (homeward : t.returning = true) (before : s.bridged? x = some record)
      (origin : record.metadata = Bridge.Origin.metadata ⟨t.asset, t.destination⟩)
      (rest : supply.toNat + t.units = record.supply.toNat)
      (loans : ∀ x d, s'.amount (.loan x d) = s.amount (.loan x d))
      (bridged : ∀ y, s'.bridged? y =
        if y = x then (if supply = 0 then none else some { record with supply }) else s.bridged? y)
      (marks : ∀ c i, s'.marked c i = s.marked c i) : Move ctx s s' none (some message)
  /-- units of a local asset come home -/
  | released {a : Action.Import} {id : Identifier} (admits : a.Admits ctx s id) (homeward : a.transfer.returning = true)
      (loans : ∀ x d, (s'.amount (.loan x d) +
        if x = a.transfer.asset ∧ d = a.message.source then a.transfer.units else 0) = s.amount (.loan x d))
      (bridged : ∀ x, s'.bridged? x = s.bridged? x)
      (marks : ∀ c i, s'.marked c i = (s.marked c i || decide (c = a.message.source ∧ i = id))) :
      Move ctx s s' (some a.message) none
  /-- units of another chain's asset arrive -/
  | arrived {a : Action.Import} {id : Identifier} {record : AssetRecord} {supply : UInt64}
      (admits : a.Admits ctx s id) (outward : a.transfer.returning = false)
      (joins : Action.Import.Joins a.transfer a.origin record (s.bridged? a.origin.bridgedAsset))
      (grown : supply.toNat = record.supply.toNat + a.transfer.units)
      (loans : ∀ x d, s'.amount (.loan x d) = s.amount (.loan x d))
      (bridged : ∀ y, s'.bridged? y = if y = a.origin.bridgedAsset then some { record with supply } else s.bridged? y)
      (marks : ∀ c i, s'.marked c i = (s.marked c i || decide (c = a.message.source ∧ i = id))) :
      Move ctx s s' (some a.message) none

namespace Move

variable {ctx : Context} {s s' : Store} {consumed sent : Option Bridge.Message} {m : Bridge.Message}

theorem refl (ctx : Context) (s : Store) : Move ctx s s none none :=
  .quiet (fun _ _ => rfl) (fun _ => rfl) fun _ _ => rfl

/-- A message that was emitted is of a local asset, or of the asset at home that a bridged one stands for. -/
theorem sends (h : Move ctx s s' consumed (some m)) : ∃ t record, Sends ctx record t m ∧
    (t.returning = false ∧ s.local? t.asset = some record ∨
      t.returning = true ∧ (∃ x, s.bridged? x = some record) ∧
        record.metadata = Bridge.Origin.metadata ⟨t.asset, t.destination⟩) := by
  cases h with
  | lent hsends houtward hbefore => exact ⟨_, _, hsends, .inl ⟨houtward, hbefore⟩⟩
  | burned hsends hhomeward hbefore horigin => exact ⟨_, _, hsends, .inr ⟨hhomeward, ⟨_, hbefore⟩, horigin⟩⟩

/-- A message that was consumed had passed the checks of an import. -/
theorem consumes (h : Move ctx s s' (some m) sent) :
    ∃ (a : Action.Import) (id : Identifier), a.message = m ∧ a.Admits ctx s id := by
  cases h with
  | released hadmits => exact ⟨_, _, rfl, hadmits⟩
  | arrived hadmits => exact ⟨_, _, rfl, hadmits⟩

private theorem marked_of_admits {a : Action.Import} {id c i : Identifier} (hadmits : a.Admits ctx s id)
    (hmarks : s'.marked c i = (s.marked c i || decide (c = a.message.source ∧ i = id))) :
    s'.marked c i = true ↔ s.marked c i = true ∨ a.message.source = c ∧ a.message.identifier = .ok i := by
  rw [hmarks, hadmits.identifier, Bool.or_eq_true, decide_eq_true_eq, Except.ok.injEq]
  exact or_congr Iff.rfl (and_congr eq_comm eq_comm)

/-- The marks on a chain tell the messages that it has consumed. -/
theorem marked_iff (h : Move ctx s s' consumed sent) (c i : Identifier) :
    s'.marked c i = true ↔ s.marked c i = true ∨ ∃ m ∈ consumed, m.source = c ∧ m.identifier = .ok i := by
  cases h with
  | quiet _ _ hmarks => simp [hmarks]
  | lent _ _ _ _ _ hmarks => simp [hmarks]
  | burned _ _ _ _ _ _ _ hmarks => simp [hmarks]
  | released hadmits _ _ _ hmarks => simpa using marked_of_admits hadmits (hmarks c i)
  | arrived hadmits _ _ _ _ _ hmarks => simpa using marked_of_admits hadmits (hmarks c i)

/-- A bridged asset was on record before with all but its supply, or it is new and that of a message. -/
theorem bridged?_cases (h : Move ctx s s' consumed sent) {x : Identifier} {r : AssetRecord}
    (hr : s'.bridged? x = some r) : (∃ before supply, s.bridged? x = some before ∧ r = { before with supply }) ∨
      ∃ (a : Action.Import) (supply : UInt64), consumed = some a.message ∧ a.transfer.returning = false ∧
        x = a.origin.bridgedAsset ∧ r = { Action.Import.freshRecord a.transfer a.origin with supply } := by
  cases h with
  | quiet _ hbridged => exact .inl ⟨r, r.supply, hbridged x ▸ hr, rfl⟩
  | lent _ _ _ _ hbridged => exact .inl ⟨r, r.supply, hbridged x ▸ hr, rfl⟩
  | released _ _ _ hbridged => exact .inl ⟨r, r.supply, hbridged x ▸ hr, rfl⟩
  | burned _ _ hbefore _ _ _ hbridged =>
    rw [hbridged] at hr
    split at hr
    · rename_i hx
      split at hr
      · cases hr
      · cases hr
        exact .inl ⟨_, _, hx ▸ hbefore, rfl⟩
    · exact .inl ⟨r, r.supply, hr, rfl⟩
  | @arrived a _ _ supply _ houtward hjoins _ _ hbridged =>
    rw [hbridged] at hr
    split at hr
    · rename_i hx
      cases hr
      cases hbefore : s.bridged? a.origin.bridgedAsset with
      | none =>
        rw [hbefore] at hjoins
        cases hjoins
        exact .inr ⟨a, supply, rfl, houtward, hx, rfl⟩
      | some before =>
        rw [hbefore] at hjoins
        exact .inl ⟨before, supply, hx ▸ hbefore, by rw [hjoins.1]⟩
    · exact .inl ⟨r, r.supply, hr, rfl⟩

end Move

namespace Action

variable {s s' : Store} {y : Yield} {ctx : Context}

/-- An action that touches neither a loan nor an asset record nor a mark leaves the bridge alone. -/
private theorem quiet_of_frame {p : StateKey → Prop} (hframe : Frame p s s') (hloan : ∀ x d, ¬p (.loan x d))
    (hasset : ∀ x, ¬p (.asset x)) (hmark : ∀ c i, ¬p (.incoming c i)) : Move ctx s s' none none :=
  .quiet (fun x d => hframe.amount_eq (hloan x d)) (fun x => hframe.bridged?_eq (hasset x))
    fun c i => hframe.marked_eq (hmark c i)

/-- An action that changes the record of a local asset leaves the bridge alone, too. -/
private theorem quiet_of_local {asset : Identifier} (hframe : Frame (fun k => k.IsBalance ∨ k = .asset asset) s s')
    (hbefore : s.bridged? asset = none) (hafter : s'.bridged? asset = none) : Move ctx s s' none none := by
  refine .quiet (fun x d => hframe.amount_eq (by simp [StateKey.IsBalance])) (fun x => ?_)
    fun c i => hframe.marked_eq (by simp [StateKey.IsBalance])
  by_cases hx : x = asset
  · rw [hx, hbefore, hafter]
  · exact hframe.bridged?_eq (by simp [StateKey.IsBalance, hx])

theorem Mint.moves {a : Mint} (h : Yields (a.execute ctx) s y s') : Move ctx s s' none y.message := by
  obtain ⟨rfl, record, supply, t, hrecord, hlocal, -, -, -, hset⟩ := of_yields h
  exact quiet_of_local (frame h) (bridged?_of_local hrecord hlocal)
    (bridged?_of_local (asset?_registered hset) hlocal)

theorem CreateAsset.moves {a : CreateAsset} (h : Yields (a.execute ctx) s y s')
    (hnone : s.asset? ctx.transaction = none) : Move ctx s s' none y.message := by
  obtain ⟨rfl, -, -, -, -, hset⟩ := of_yields h
  exact quiet_of_local (Frame.registered hset (.inr rfl)) (bridged?_of_none hnone)
    (bridged?_of_local (asset?_registered hset) rfl)

/-- A message whose transfer was written for an export of an asset on record. -/
private theorem sends {a : Export} {record : AssetRecord} {asset : Identifier} {message : Bridge.Message}
    {total : UInt64} {bytes : Octets} (hproper : record.Proper) (hvalue : a.value ≠ 0)
    (hdestination : a.destination ≠ .empty) (hdistant : a.destination ≠ ctx.chain)
    (hswap : a.terms.swap.valid a.value) (htotal : total.toNat = a.value.toNat + a.terms.reward.toNat)
    (htransaction : ctx.transaction ≠ .empty)
    (hpayload : (a.toTransfer record asset ctx.transaction).encode = .ok message.payload)
    (hnetwork : message.network = ctx.network) (hsource : message.source = ctx.chain)
    (hbytes : message.encode = .ok bytes) :
    Sends ctx record (a.toTransfer record asset ctx.transaction) message where
  decoded := Bridge.Transfer.decode_encode hpayload hproper.symbol hvalue htransaction hdestination hswap
  encoded := ⟨bytes, hbytes⟩
  network := hnetwork
  source := hsource
  transaction := rfl
  distant := hdistant
  fits := by
    have := total.toNat_lt
    simp only [Bridge.Transfer.units, Export.toTransfer, UInt64.size]
    omega
  symbol := rfl
  decimals := rfl

theorem Export.moves {a : Export} (h : Yields (a.execute ctx) s y s') (hwf : s.WellFormed)
    (htransaction : ctx.transaction ≠ .empty) : Move ctx s s' none y.message := by
  obtain ⟨hvalue, hdestination, hdistant, hswap, record, total, asset, u, message, bytes, htotal, hrecord, hmove,
    hpayload, hnetwork, hsource, hbytes, rfl, rfl⟩ := of_yields h
  have hsends := sends (hwf.proper hrecord) hvalue hdestination hdistant hswap htotal htransaction hpayload hnetwork
    hsource hbytes
  have hstored : Frame (· = .outgoing ctx.transaction) u (u.replace (.outgoing ctx.transaction) (some bytes)) :=
    Frame.replace _ rfl
  have hunits : total.toNat = (a.toTransfer record asset ctx.transaction).units := htotal
  split at hmove
  · rename_i hreturning
    obtain ⟨hbridged, horigin, t, supply, -, hsum, hrest⟩ := of_burn hmove
    have hframe := ((burn_frame hmove).mono fun _ => Or.inl).trans (hstored.mono fun _ => .inr)
    refine .burned hsends hreturning (bridged?_eq_some.2 ⟨hrecord, hbridged⟩)
      (Bridge.Origin.metadata_of_ofMetadata? horigin) (hunits ▸ hsum)
      (fun x d => hframe.amount_eq (by simp [StateKey.IsBalance])) (fun z => ?_)
      fun c i => hframe.marked_eq (by simp [StateKey.IsBalance])
    by_cases hz : z = a.asset
    · rw [if_pos hz, hz, hstored.bridged?_eq nofun]
      have hasset := hrest.asset?_eq
      split at hasset
      · rename_i hzero
        rw [if_pos hzero, bridged?_of_none hasset]
      · rename_i hleft
        rw [if_neg hleft]
        exact bridged?_eq_some.2 ⟨hasset, hbridged⟩
    · rw [if_neg hz, hframe.bridged?_eq (by simp [StateKey.IsBalance, hz])]
  · rename_i hreturning
    obtain ⟨rfl, hlocal, t, hdebit, hcredit⟩ := of_lend hmove
    have hframe := ((lend_frame hmove).mono fun _ => Or.inl).trans (hstored.mono fun _ => .inr)
    have hdebited : Frame StateKey.IsBalance s t := Frame.debited hdebit trivial
    refine .lent hsends (show a.returning = false by simpa using hreturning) (local?_eq_some.2 ⟨hrecord, hlocal⟩)
      (fun x d => ?_) (fun z => hframe.bridged?_eq (by simp [StateKey.IsBalance]))
      fun c i => hframe.marked_eq (by simp [StateKey.IsBalance])
    change _ = _ + if x = a.asset ∧ d = a.destination then _ else _
    by_cases hloan : x = a.asset ∧ d = a.destination
    · obtain ⟨rfl, rfl⟩ := hloan
      rw [if_pos ⟨rfl, rfl⟩, ← hunits, hstored.amount_eq (k := .loan a.asset a.destination) nofun,
        amount_credited hcredit, hdebited.amount_eq (by simp [StateKey.IsBalance])]
    · rw [if_neg hloan, hframe.amount_eq (by simpa [StateKey.IsBalance] using hloan), Nat.add_zero]

namespace Import

variable {a : Import} {id : Identifier}

/-- After the units have arrived an import only marks the message. -/
theorem Distributes.marked_eq {asset : Identifier} (h : Distributes a ctx asset id s s') (c i : Identifier) :
    s'.marked c i = (s.marked c i || decide (c = a.message.source ∧ i = id)) := by
  by_cases hmark : c = a.message.source ∧ i = id
  · obtain ⟨rfl, rfl⟩ := hmark
    obtain ⟨u, v, w, -, -, -, rfl⟩ := h
    simp [marked]
  · rw [h.frame.marked_eq (by simpa [StateKey.IsBalance] using hmark)]
    simp [hmark]

theorem moves (h : Yields (a.execute ctx) s y s') : Move ctx s s' (some a.message) y.message := by
  obtain ⟨rfl, id, total, asset, t, hadmits, htotal, hmove, hrest⟩ := execute_iff.1 h
  have hunits := Bridge.Transfer.units_of_total? htotal
  split at hmove
  · rename_i hreturning
    obtain ⟨rfl, -, -, -, hdebit⟩ := release_iff.1 hmove
    have hdebited : Frame (· = .loan a.transfer.asset a.message.source) s t := Frame.debited hdebit rfl
    refine .released hadmits hreturning (fun x d => ?_) (fun z => ?_) fun c i => ?_
    · rw [hrest.frame.amount_eq (by simp [StateKey.IsBalance])]
      by_cases hloan : x = a.transfer.asset ∧ d = a.message.source
      · obtain ⟨rfl, rfl⟩ := hloan
        rw [if_pos ⟨rfl, rfl⟩, ← hunits, amount_debited hdebit]
      · rw [if_neg hloan, Nat.add_zero, hdebited.amount_eq (by simpa using hloan)]
    · rw [hrest.frame.bridged?_eq (by simp [StateKey.IsBalance]), hdebited.bridged?_eq nofun]
    · rw [hrest.marked_eq, hdebited.marked_eq nofun]
  · rename_i hreturning
    obtain ⟨rfl, -, record, supply, hjoins, hraise, -, hset⟩ := mint_iff.1 hmove
    obtain ⟨-, hlocal, hbridged, -⟩ := hjoins.of_asset?
    have hregistered : Frame (· = .asset a.origin.bridgedAsset) s t := Frame.registered hset rfl
    refine .arrived hadmits (by simpa using hreturning) (asset?_eq_bridged? hlocal ▸ hjoins) (hunits ▸ hraise)
      (fun x d => ?_) (fun z => ?_) fun c i => ?_
    · rw [hrest.frame.amount_eq (by simp [StateKey.IsBalance]), hregistered.amount_eq (by simp)]
    · rw [hrest.frame.bridged?_eq (by simp [StateKey.IsBalance])]
      by_cases hz : z = a.origin.bridgedAsset
      · rw [if_pos hz, hz]
        exact bridged?_eq_some.2 ⟨asset?_registered hset, hbridged⟩
      · rw [if_neg hz, hregistered.bridged?_eq (by simpa using hz)]
    · rw [hrest.marked_eq, hregistered.marked_eq nofun]

end Import

/-- A successful action of a new transaction leaves the bridge alone or moves value between chains. -/
theorem moves {action : Action} (h : Yields (action.perform ctx) s y s') (hwf : s.WellFormed)
    (htransaction : ctx.transaction ≠ .empty) (hnone : s.asset? ctx.transaction = none) :
    Move ctx s s' action.attachedMessage? y.message := by
  cases action with
  | payment a =>
    have hframe := Payment.frame h
    obtain ⟨rfl, -⟩ := Payment.of_yields h
    exact quiet_of_frame hframe (fun _ _ => id) (fun _ => id) fun _ _ => id
  | mint a => exact Mint.moves h
  | createAsset a => exact CreateAsset.moves h hnone
  | createNft a =>
    obtain ⟨rfl, bytes, -, rfl⟩ := CreateNft.of_yields h
    exact quiet_of_frame (p := (· = .nft ctx.transaction)) (Frame.replace _ rfl) (fun _ _ => nofun)
      (fun _ => nofun) fun _ _ => nofun
  | readNft a =>
    obtain ⟨hmessage, rfl⟩ := ReadNft.of_yields h
    rw [hmessage]
    exact quiet_of_frame (p := fun _ => False) (Frame.refl _) (fun _ _ => id) (fun _ => id) fun _ _ => id
  | importAsset a => exact Import.moves h
  | exportAsset a => exact Export.moves h hwf htransaction
  | transferNft a =>
    obtain ⟨rfl, record, bytes, -, -, -, rfl⟩ := TransferNft.of_yields h
    exact quiet_of_frame (p := (· = .nft a.nft)) (Frame.replace _ rfl) (fun _ _ => nofun)
      (fun _ => nofun) fun _ _ => nofun

end Action
end BridgeLedger
