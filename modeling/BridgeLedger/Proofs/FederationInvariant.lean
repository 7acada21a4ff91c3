import BridgeLedger.Proofs.MessagesUnderway

/-! The invariant of a federation. Every bridged asset stands for one that is on record at home, every message was
emitted once and is marked once it is imported, and every loan is backed. -/
namespace BridgeLedger

open Store

namespace Federation

variable {F : Federation} {w : World} {e : Event} {events : List Event} {consumed sent : Option Bridge.Message}
  {m : Bridge.Message} {t : Bridge.Transfer} {x : Identifier} {r home : AssetRecord} {o : Bridge.Origin}

/-- A message that was emitted, and the transfer in it: of an asset that is on record at home. -/
structure Posted (F : Federation) (w : World) (m : Bridge.Message) (t : Bridge.Transfer) : Prop where
  decoded : Bridge.Transfer.decode m.payload = .ok t
  encoded : ∃ bytes, m.encode = .ok bytes
  network : m.network = F.network
  source : m.source ∈ F.chains
  fits : t.units < UInt64.size
  recorded : (w.ledger m.source).2.find? (transactionKey t.transaction) ≠ none
  issued : ∃ home, F.Issues w (t.home m.source) home ∧ home.symbol = t.symbol ∧ home.decimals = t.decimals

/-- The record of a bridged asset stands for an asset that is on record at home. -/
structure StandsFor (F : Federation) (w : World) (x : Identifier) (r : AssetRecord) (o : Bridge.Origin)
    (home : AssetRecord) : Prop where
  issued : F.Issues w o home
  name : x = o.bridgedAsset
  metadata : r.metadata = o.metadata
  limit : r.maxSupply = Limits.maxSupply
  symbol : home.symbol = r.symbol
  decimals : home.decimals = r.decimals

/-- An asset whose bridged name is not shared by another asset on record. -/
def Distinct (F : Federation) (w : World) (o : Bridge.Origin) : Prop :=
  ∀ p r, F.Issues w p r → p.bridgedAsset = o.bridgedAsset → p = o

/-- What holds of the chains and the messages between them in every world that is reached. -/
structure Orderly (F : Federation) (w : World) : Prop where
  sound : ∀ c, Sound (w.ledger c)
  rooted : ∀ c x r, (w.ledger c).1.bridged? x = some r → ∃ o home, StandsFor F w x r o home
  posted : ∀ m ∈ w.emitted, ∃ t, Posted F w m t
  distinct : w.emitted.Nodup
  received : ∀ m ∈ w.imported, m ∈ w.emitted
  marked : ∀ c source id, (w.ledger c).1.marked source id = true ↔ ∃ m ∈ w.imported, m.source = source ∧
    m.identifier = .ok id ∧ ∃ t, Bridge.Transfer.decode m.payload = .ok t ∧ t.destination = c
  backed : ∀ o abroad, F.Distinct w o → w.Backed o abroad

theorem Posted.issued_outward (h : Posted F w m t) (houtward : t.returning = false) :
    ∃ home, F.Issues w ⟨t.asset, m.source⟩ home ∧ home.symbol = t.symbol ∧ home.decimals = t.decimals := by
  simpa [Bridge.Transfer.home, houtward] using h.issued

theorem Posted.issued_homeward (h : Posted F w m t) (hhomeward : t.returning = true) :
    ∃ home, F.Issues w ⟨t.asset, t.destination⟩ home ∧ home.symbol = t.symbol ∧ home.decimals = t.decimals := by
  simpa [Bridge.Transfer.home, hhomeward] using h.issued

theorem Posted.step (h : Posted F w m t) (htidy : ∀ c, Tidy (w.ledger c)) (hnamed : e.transaction ≠ .empty) :
    Posted F (F.step w e) m t where
  decoded := h.decoded
  encoded := h.encoded
  network := h.network
  source := h.source
  fits := h.fits
  recorded := step_records htidy h.recorded
  issued := by
    obtain ⟨home, hissued, hsame⟩ := h.issued
    obtain ⟨supply, hissued⟩ := hissued.step htidy hnamed
    exact ⟨_, hissued, hsame⟩

theorem StandsFor.step (h : StandsFor F w x r o home) (htidy : ∀ c, Tidy (w.ledger c)) (hnamed : e.transaction ≠ .empty)
    (supply : UInt64) : ∃ home, StandsFor F (F.step w e) x { r with supply } o home := by
  obtain ⟨supply', hissued⟩ := h.issued.step htidy hnamed
  exact ⟨_, hissued, h.name, h.metadata, h.limit, h.symbol, h.decimals⟩

theorem Distinct.of_step (h : F.Distinct (F.step w e) o) (htidy : ∀ c, Tidy (w.ledger c))
    (hnamed : e.transaction ≠ .empty) : F.Distinct w o := by
  intro p r hissues hname
  obtain ⟨supply, hissues⟩ := hissues.step htidy hnamed
  exact h p _ hissues hname

namespace Orderly

/-- A message that is consumed was emitted before, and not consumed. -/
theorem of_consumed (h : Orderly F w) (allowed : F.Allows w e) (turn : Turn F w e (some m) sent) :
    m ∈ w.emitted ∧ m ∉ w.imported := by
  obtain ⟨a, id, rfl, hadmits⟩ := turn.moves.consumes
  refine ⟨allowed.authentic hadmits.verified _ (turn.attached _ rfl), fun himported => ?_⟩
  have hmarked := (h.marked e.chain a.message.source id).2
    ⟨a.message, himported, rfl, hadmits.identifier, a.transfer, a.decoded, hadmits.destination⟩
  exact absurd (hmarked.symm.trans hadmits.unmarked) nofun

/-- A message that is emitted was not emitted before. -/
theorem of_sent (h : Orderly F w) (turn : Turn F w e consumed (some m)) : m ∉ w.emitted := by
  intro hemitted
  obtain ⟨t, record, hsends, -⟩ := turn.moves.sends
  obtain ⟨t', hposted⟩ := h.posted m hemitted
  cases hsends.decoded.symm.trans hposted.decoded
  have hrecorded := hposted.recorded
  rw [hsends.source, hsends.transaction] at hrecorded
  exact hrecorded (turn.unknown rfl)

theorem tidy (h : Orderly F w) (c : Identifier) : Tidy (w.ledger c) := (h.sound c).toTidy

/-- The destination of a message that is consumed. -/
theorem destination_of_consumed (turn : Turn F w e (some m) sent) :
    ∃ t, Bridge.Transfer.decode m.payload = .ok t ∧ t.destination = e.chain := by
  obtain ⟨a, id, rfl, hadmits⟩ := turn.moves.consumes
  exact ⟨a.transfer, a.decoded, hadmits.destination⟩

/-- The record of a bridged asset in a message home stands for the asset at home. -/
theorem issued_of_metadata (h : Orderly F w) {c : Identifier} (hr : (w.ledger c).1.bridged? x = some r)
    (hmetadata : r.metadata = o.metadata) : x = o.bridgedAsset ∧
      ∃ home, F.Issues w o home ∧ home.symbol = r.symbol ∧ home.decimals = r.decimals := by
  obtain ⟨p, home, hstands⟩ := h.rooted c x r hr
  cases Bridge.Origin.metadata_injective (hstands.metadata.symm.trans hmetadata)
  exact ⟨hstands.name, home, hstands.issued, hstands.symbol, hstands.decimals⟩

theorem rooted_step (h : Orderly F w) (allowed : F.Allows w e) (turn : Turn F w e consumed sent) (c x : Identifier)
    (r : AssetRecord) (hr : ((F.step w e).ledger c).1.bridged? x = some r) :
    ∃ o home, StandsFor F (F.step w e) x r o home := by
  by_cases hc : c = e.chain
  · rw [hc] at hr
    obtain ⟨before, supply, hbefore, rfl⟩ | ⟨a, supply, rfl, houtward, rfl, rfl⟩ := turn.moves.bridged?_cases hr
    · obtain ⟨o, home, hstands⟩ := h.rooted _ _ _ hbefore
      exact ⟨o, hstands.step h.tidy allowed.named supply⟩
    · obtain ⟨t, hposted⟩ := h.posted _ (h.of_consumed allowed turn).1
      cases hposted.decoded.symm.trans a.decoded
      obtain ⟨home, hissued, hsymbol, hdecimals⟩ := (hposted.step h.tidy allowed.named).issued_outward houtward
      exact ⟨a.origin, home, hissued, rfl, rfl, rfl, hsymbol, hdecimals⟩
  · rw [F.step_ledger_ne w e hc] at hr
    obtain ⟨o, home, hstands⟩ := h.rooted _ _ _ hr
    exact ⟨o, hstands.step h.tidy allowed.named r.supply⟩

theorem posted_step (h : Orderly F w) (allowed : F.Allows w e) (turn : Turn F w e consumed sent) :
    ∀ m ∈ (F.step w e).emitted, ∃ t, Posted F (F.step w e) m t := by
  intro m hm
  rw [turn.emitted, List.mem_append, Option.mem_toList] at hm
  obtain hm | rfl := hm
  · obtain ⟨t, hposted⟩ := h.posted m hm
    exact ⟨t, hposted.step h.tidy allowed.named⟩
  · obtain ⟨t, record, hsends, horigin⟩ := turn.moves.sends
    obtain ⟨home, hissued, hsymbol, hdecimals⟩ :
        ∃ home, F.Issues w (t.home e.chain) home ∧ home.symbol = record.symbol ∧ home.decimals = record.decimals := by
      unfold Bridge.Transfer.home
      obtain ⟨houtward, hlocal⟩ | ⟨hhomeward, ⟨x, hbridged⟩, hmetadata⟩ := horigin
      · exact ⟨record, by rw [houtward]; exact ⟨allowed.member, hlocal⟩, rfl, rfl⟩
      · rw [hhomeward]
        exact (h.issued_of_metadata hbridged hmetadata).2
    obtain ⟨supply, hissued⟩ := hissued.step h.tidy allowed.named
    have hsource : m.source = e.chain := hsends.source
    exact ⟨t, hsends.decoded, hsends.encoded, hsends.network, hsource ▸ allowed.member, hsends.fits,
      by rw [hsource, hsends.transaction]; exact turn.known rfl,
      { home with supply }, by rw [hsource]; exact hissued, hsymbol.trans hsends.symbol.symm,
      hdecimals.trans hsends.decimals.symm⟩

theorem distinct_step (h : Orderly F w) (turn : Turn F w e consumed sent) : (F.step w e).emitted.Nodup := by
  rw [turn.emitted]
  cases sent with
  | none => simpa using h.distinct
  | some m =>
    have hnew := h.of_sent turn
    refine List.nodup_append.2 ⟨h.distinct, by simp, fun x hx y hy => ?_⟩
    rintro rfl
    cases List.mem_singleton.1 hy
    exact hnew hx

theorem received_step (h : Orderly F w) (allowed : F.Allows w e) (turn : Turn F w e consumed sent) :
    ∀ m ∈ (F.step w e).imported, m ∈ (F.step w e).emitted := by
  intro m hm
  rw [turn.imported, List.mem_append, Option.mem_toList] at hm
  rw [turn.emitted]
  obtain hm | rfl := hm
  · exact List.mem_append_left _ (h.received m hm)
  · exact List.mem_append_left _ (h.of_consumed allowed turn).1

theorem marked_step (h : Orderly F w) (turn : Turn F w e consumed sent) (c source id : Identifier) :
    ((F.step w e).ledger c).1.marked source id = true ↔ ∃ m ∈ (F.step w e).imported, m.source = source ∧
      m.identifier = .ok id ∧ ∃ t, Bridge.Transfer.decode m.payload = .ok t ∧ t.destination = c := by
  simp only [turn.imported, List.mem_append, Option.mem_toList, or_and_right, exists_or, ← h.marked c source id]
  by_cases hc : c = e.chain
  · rw [hc, turn.moves.marked_iff]
    refine or_congr Iff.rfl (exists_congr fun m => and_congr_right fun hm => ?_)
    cases hm
    simp [destination_of_consumed turn]
  · rw [F.step_ledger_ne w e hc]
    refine ⟨.inl, fun hm => hm.resolve_right ?_⟩
    rintro ⟨m, rfl, -, -, t, hdecoded, rfl⟩
    obtain ⟨t', hdecoded', hdestination⟩ := destination_of_consumed turn
    cases hdecoded.symm.trans hdecoded'
    exact hc hdestination

theorem underway_sent (h : Orderly F w) (turn : Turn F w e none (some m)) (value : Bridge.Message → Nat) :
    (F.step w e).underway value = w.underway value + value m :=
  World.underway_of_emit value turn.emitted (by simpa using turn.imported) fun hm => h.of_sent turn (h.received m hm)

theorem underway_consumed (h : Orderly F w) (allowed : F.Allows w e) (turn : Turn F w e (some m) none)
    (value : Bridge.Message → Nat) : (F.step w e).underway value + value m = w.underway value :=
  have hm := h.of_consumed allowed turn
  World.underway_of_import value (by simpa using turn.emitted) turn.imported h.distinct hm.1 hm.2

/-- What an event leaves alone on its chain it leaves alone everywhere. -/
theorem view_step {α : Type} (f : Store → α) (h : f ((F.step w e).ledger e.chain).1 = f (w.ledger e.chain).1)
    (c : Identifier) : f ((F.step w e).ledger c).1 = f (w.ledger c).1 := by
  by_cases hc : c = e.chain
  · rw [hc, h]
  · rw [F.step_ledger_ne w e hc]

private theorem bridgedSupply_step (hbridged : ∀ x, ((F.step w e).ledger e.chain).1.bridged? x =
    (w.ledger e.chain).1.bridged? x) (c x : Identifier) :
    ((F.step w e).ledger c).1.bridgedSupply x = (w.ledger c).1.bridgedSupply x :=
  view_step (·.bridgedSupply x) (by simp only [bridgedSupply, hbridged]) c

/-- The conditions under which a loan grows are those under which a message carries its units. -/
private theorem backed_lent (h : Orderly F w) (turn : Turn F w e none (some m)) {record : AssetRecord}
    (hsends : Sends (F.context e) record t m) (houtward : t.returning = false)
    (hloans : ∀ x d, ((F.step w e).ledger e.chain).1.amount (.loan x d) = (w.ledger e.chain).1.amount (.loan x d) +
      if x = t.asset ∧ d = t.destination then t.units else 0)
    (hbridged : ∀ x, ((F.step w e).ledger e.chain).1.bridged? x = (w.ledger e.chain).1.bridged? x)
    {abroad : Identifier} (hbacked : w.Backed o abroad) : (F.step w e).Backed o abroad := by
  have hloan : ((F.step w e).ledger o.chain).1.amount (.loan o.asset abroad) =
      (w.ledger o.chain).1.amount (.loan o.asset abroad) +
        if o.chain = e.chain ∧ o.asset = t.asset ∧ abroad = t.destination then t.units else 0 := by
    by_cases hc : o.chain = e.chain
    · simp [hc, hloans]
    · simp [hc, F.step_ledger_ne w e hc]
  have hsource : m.source = e.chain := hsends.source
  unfold World.Backed at hbacked ⊢
  rw [hloan, bridgedSupply_step hbridged, h.underway_sent turn, h.underway_sent turn,
    Bridge.Message.carries_eq hsends.decoded, Bridge.Message.carries_eq hsends.decoded, hsource, houtward, hbacked]
  simp only [and_true, Bool.true_eq_false, and_false, if_false]
  omega

private theorem bridgedSupply_burned {s s' : Store} {record : AssetRecord} {supply : UInt64} {units : Nat}
    (hbefore : s.bridged? x = some record) (hrest : supply.toNat + units = record.supply.toNat)
    (hbridged : ∀ y, s'.bridged? y =
      if y = x then (if supply = 0 then none else some { record with supply }) else s.bridged? y) (y : Identifier) :
    s'.bridgedSupply y + (if y = x then units else 0) = s.bridgedSupply y := by
  unfold bridgedSupply
  rw [hbridged]
  by_cases hy : y = x
  · rw [if_pos hy, if_pos hy, hy, hbefore, Option.elim_some, ← hrest]
    split
    · rename_i hzero
      rw [hzero]
      rfl
    · rfl
  · rw [if_neg hy, if_neg hy, Nat.add_zero]

private theorem bridgedSupply_joined {s s' : Store} {record : AssetRecord} {supply : UInt64} {t : Bridge.Transfer}
    (hjoins : Action.Import.Joins t o record (s.bridged? x)) (hgrown : supply.toNat = record.supply.toNat + t.units)
    (hbridged : ∀ y, s'.bridged? y = if y = x then some { record with supply } else s.bridged? y) (y : Identifier) :
    s'.bridgedSupply y = s.bridgedSupply y + if y = x then t.units else 0 := by
  unfold bridgedSupply
  rw [hbridged]
  by_cases hy : y = x
  · rw [if_pos hy, if_pos hy, hy, Option.elim_some, hgrown]
    cases hr : s.bridged? x with
    | none =>
      rw [hr] at hjoins
      cases hjoins
      rfl
    | some r =>
      rw [hr] at hjoins
      rw [hjoins.1]
      rfl
  · rw [if_neg hy, if_neg hy, Nat.add_zero]

/-- A bridged asset that is burned is that of the origin in the message, and no other asset on record shares it. -/
private theorem backed_burned (h : Orderly F w) (turn : Turn F w e none (some m)) {record : AssetRecord}
    {supply : UInt64} (hsends : Sends (F.context e) record t m) (hhomeward : t.returning = true)
    (hbefore : (w.ledger e.chain).1.bridged? x = some record)
    (horigin : record.metadata = Bridge.Origin.metadata ⟨t.asset, t.destination⟩)
    (hrest : supply.toNat + t.units = record.supply.toNat)
    (hloans : ∀ x d, ((F.step w e).ledger e.chain).1.amount (.loan x d) = (w.ledger e.chain).1.amount (.loan x d))
    (hbridged : ∀ y, ((F.step w e).ledger e.chain).1.bridged? y =
      if y = x then (if supply = 0 then none else some { record with supply }) else (w.ledger e.chain).1.bridged? y)
    {abroad : Identifier} (hdistinct : F.Distinct w o) (hbacked : w.Backed o abroad) :
    (F.step w e).Backed o abroad := by
  obtain ⟨hname, home, hissued, -⟩ := h.issued_of_metadata hbefore horigin
  have hsame : o.bridgedAsset = x ↔ o.asset = t.asset ∧ o.chain = t.destination := by
    constructor
    · intro ho
      rw [← hdistinct _ _ hissued (hname.symm.trans ho.symm)]
      exact ⟨rfl, rfl⟩
    · rintro ⟨hasset, hchain⟩
      rw [hname, ← hasset, ← hchain]
  have hsupply : ((F.step w e).ledger abroad).1.bridgedSupply o.bridgedAsset +
      (if abroad = e.chain ∧ o.asset = t.asset ∧ o.chain = t.destination then t.units else 0) =
      (w.ledger abroad).1.bridgedSupply o.bridgedAsset := by
    simp only [← hsame]
    by_cases hc : abroad = e.chain
    · rw [hc, ← bridgedSupply_burned hbefore hrest hbridged]
      simp
    · simp [hc, F.step_ledger_ne w e hc]
  have hsource : m.source = e.chain := hsends.source
  unfold World.Backed at hbacked ⊢
  rw [view_step (·.amount (.loan o.asset abroad)) (hloans _ _), h.underway_sent turn, h.underway_sent turn,
    Bridge.Message.carries_eq hsends.decoded, Bridge.Message.carries_eq hsends.decoded, hsource, hhomeward, hbacked]
  simp only [and_true, Bool.false_eq_true, and_false, if_false]
  omega

/-- A loan shrinks by the units of the message that is consumed. -/
private theorem backed_released (h : Orderly F w) (allowed : F.Allows w e) {a : Action.Import} {id : Identifier}
    (turn : Turn F w e (some a.message) none) (hadmits : a.Admits (F.context e) (w.ledger e.chain).1 id)
    (hhomeward : a.transfer.returning = true)
    (hloans : ∀ x d, (((F.step w e).ledger e.chain).1.amount (.loan x d) +
      if x = a.transfer.asset ∧ d = a.message.source then a.transfer.units else 0) =
        (w.ledger e.chain).1.amount (.loan x d))
    (hbridged : ∀ x, ((F.step w e).ledger e.chain).1.bridged? x = (w.ledger e.chain).1.bridged? x)
    {abroad : Identifier} (hbacked : w.Backed o abroad) : (F.step w e).Backed o abroad := by
  have hloan : ((F.step w e).ledger o.chain).1.amount (.loan o.asset abroad) +
      (if abroad = a.message.source ∧ o.asset = a.transfer.asset ∧ o.chain = e.chain then a.transfer.units else 0) =
      (w.ledger o.chain).1.amount (.loan o.asset abroad) := by
    by_cases hc : o.chain = e.chain
    · simp [hc, ← hloans, and_comm]
    · simp [hc, F.step_ledger_ne w e hc]
  have hdestination : a.transfer.destination = e.chain := hadmits.destination
  have hout := h.underway_consumed allowed turn (·.carries o.asset o.chain abroad false)
  have hback := h.underway_consumed allowed turn (·.carries o.asset abroad o.chain true)
  rw [Bridge.Message.carries_eq a.decoded, hdestination, hhomeward] at hout hback
  simp only [and_true, Bool.false_eq_true, and_false, if_false] at hout hback
  unfold World.Backed at hbacked ⊢
  rw [bridgedSupply_step hbridged]
  omega

/-- A bridged asset that arrives is that of the origin in the message, and no other asset on record shares it. -/
private theorem backed_arrived (h : Orderly F w) (allowed : F.Allows w e) {a : Action.Import} {id : Identifier}
    {record : AssetRecord} {supply : UInt64} (turn : Turn F w e (some a.message) none)
    (hadmits : a.Admits (F.context e) (w.ledger e.chain).1 id) (houtward : a.transfer.returning = false)
    (hjoins : Action.Import.Joins a.transfer a.origin record ((w.ledger e.chain).1.bridged? a.origin.bridgedAsset))
    (hgrown : supply.toNat = record.supply.toNat + a.transfer.units)
    (hloans : ∀ x d, ((F.step w e).ledger e.chain).1.amount (.loan x d) = (w.ledger e.chain).1.amount (.loan x d))
    (hbridged : ∀ y, ((F.step w e).ledger e.chain).1.bridged? y =
      if y = a.origin.bridgedAsset then some { record with supply } else (w.ledger e.chain).1.bridged? y)
    {abroad : Identifier} (hdistinct : F.Distinct w o) (hbacked : w.Backed o abroad) :
    (F.step w e).Backed o abroad := by
  obtain ⟨t, hposted⟩ := h.posted _ (h.of_consumed allowed turn).1
  cases hposted.decoded.symm.trans a.decoded
  obtain ⟨home, hissued, -⟩ := hposted.issued_outward houtward
  have hsame : o.bridgedAsset = a.origin.bridgedAsset ↔ o.chain = a.message.source ∧ o.asset = a.transfer.asset := by
    constructor
    · intro ho
      rw [← hdistinct _ _ hissued ho.symm]
      exact ⟨rfl, rfl⟩
    · rintro ⟨hchain, hasset⟩
      rw [Action.Import.origin, ← hasset, ← hchain]
  have hsupply : ((F.step w e).ledger abroad).1.bridgedSupply o.bridgedAsset =
      (w.ledger abroad).1.bridgedSupply o.bridgedAsset +
        if o.chain = a.message.source ∧ o.asset = a.transfer.asset ∧ abroad = e.chain then a.transfer.units else 0 := by
    simp only [← and_assoc, ← hsame]
    by_cases hc : abroad = e.chain
    · rw [hc, bridgedSupply_joined hjoins hgrown hbridged]
      simp
    · simp [hc, F.step_ledger_ne w e hc]
  have hdestination : a.transfer.destination = e.chain := hadmits.destination
  have hout := h.underway_consumed allowed turn (·.carries o.asset o.chain abroad false)
  have hback := h.underway_consumed allowed turn (·.carries o.asset abroad o.chain true)
  rw [Bridge.Message.carries_eq a.decoded, hdestination, houtward] at hout hback
  simp only [and_true, Bool.true_eq_false, and_false, if_false] at hout hback
  unfold World.Backed at hbacked ⊢
  rw [view_step (·.amount (.loan o.asset abroad)) (hloans _ _)]
  omega

theorem backed_step (h : Orderly F w) (allowed : F.Allows w e) (turn : Turn F w e consumed sent) (o : Bridge.Origin)
    (abroad : Identifier) (hdistinct : F.Distinct (F.step w e) o) : (F.step w e).Backed o abroad := by
  have hdistinct := hdistinct.of_step h.tidy allowed.named
  have hbacked := h.backed o abroad hdistinct
  have hmoves := turn.moves
  cases hmoves with
  | quiet hloans hbridged hmarks =>
    have hunderway (value : Bridge.Message → Nat) : (F.step w e).underway value = w.underway value := by
      unfold World.underway
      rw [turn.emitted, turn.imported]
      simp
    unfold World.Backed
    rw [view_step (·.amount (.loan o.asset abroad)) (hloans _ _), bridgedSupply_step hbridged, hunderway, hunderway]
    exact hbacked
  | lent hsends houtward _ hloans hbridged => exact h.backed_lent turn hsends houtward hloans hbridged hbacked
  | burned hsends hhomeward hbefore horigin hrest hloans hbridged =>
    exact h.backed_burned turn hsends hhomeward hbefore horigin hrest hloans hbridged hdistinct hbacked
  | released hadmits hhomeward hloans hbridged =>
    exact h.backed_released allowed turn hadmits hhomeward hloans hbridged hbacked
  | arrived hadmits houtward hjoins hgrown hloans hbridged =>
    exact h.backed_arrived allowed turn hadmits houtward hjoins hgrown hloans hbridged hdistinct hbacked

theorem opening (F : Federation) : Orderly F F.opening where
  sound c := Sound.opening (F.genesis c)
  rooted c x r hr := by cases ((F.genesis c).opening_bridged? x).symm.trans hr
  posted _ hm := absurd hm List.not_mem_nil
  distinct := List.nodup_nil
  received _ hm := absurd hm List.not_mem_nil
  marked c source id := by
    have hnone : (F.genesis c).opening.marked source id = false := by
      rw [Store.marked, Genesis.opening_stored (k := .incoming source id) _ (fun h => h) (by simp)]
      rfl
    constructor
    · intro hm
      cases hnone.symm.trans hm
    · rintro ⟨m, hm, -⟩
      exact absurd hm List.not_mem_nil
  backed o abroad _ := by
    have hloan : (F.genesis o.chain).opening.amount (.loan o.asset abroad) = 0 := by
      rw [amount, Genesis.opening_stored (k := .loan o.asset abroad) _ (fun h => h) (by simp)]
      rfl
    have hsupply : (F.genesis abroad).opening.bridgedSupply o.bridgedAsset = 0 := by
      rw [bridgedSupply, Genesis.opening_bridged?]
      rfl
    exact hloan.trans hsupply.symm

theorem step (h : Orderly F w) (allowed : F.Allows w e)
    (hnames : ∀ o r, F.Issues w o r → e.transaction ≠ o.bridgedAsset) : Orderly F (F.step w e) := by
  have hunbridged : (w.ledger e.chain).1.bridged? e.transaction = none := by
    cases hr : (w.ledger e.chain).1.bridged? e.transaction with
    | none => rfl
    | some r =>
      obtain ⟨o, home, hstands⟩ := h.rooted _ _ _ hr
      exact absurd hstands.name (hnames o home hstands.issued)
  obtain ⟨consumed, sent, turn⟩ := exists_turn (h.tidy e.chain) allowed.named hunbridged
  refine ⟨fun c => ?_, h.rooted_step allowed turn, h.posted_step allowed turn, h.distinct_step turn,
    h.received_step allowed turn, h.marked_step turn, h.backed_step allowed turn⟩
  by_cases hc : c = e.chain
  · rw [hc, F.step_ledger_self]
    exact (h.sound e.chain).after _ _ _ _ allowed.named hunbridged
  · rw [F.step_ledger_ne w e hc]
    exact h.sound c

/-- The invariant holds in every world that is reached, as long as no transaction has the name of a bridged asset. -/
theorem of_run (run : F.Run events w) (names : F.Unbridged events w) : Orderly F w := by
  induction run with
  | opening => exact opening F
  | step e start allowed ih =>
    obtain ⟨hbefore, hnames⟩ := names.of_step (Tidy.of_run start) allowed.named
    exact (ih hbefore).step allowed hnames

end Orderly

/-- Without collisions every asset on record has a bridged name of its own. -/
theorem CollisionFree.distinct (h : F.CollisionFree w) (hissues : F.Issues w o r) : F.Distinct w o :=
  fun _ _ hother hname => Bridge.Origin.metadata_injective (h _ _ (.origin hother) (.origin hissues) hname)

end Federation
end BridgeLedger
