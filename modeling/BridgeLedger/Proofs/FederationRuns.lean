import BridgeLedger.Proofs.BridgeMoves
import BridgeLedger.Proofs.SupplyConservation

/-! Runs of several chains that exchange messages. Any chain executes any transaction at any time. A message that is
taken for verified was emitted by a chain of the federation before; it may arrive late, out of order, repeatedly or
never. -/
namespace BridgeLedger

open Store

structure Federation where
  network : UInt32
  chains : List Identifier
  named : .empty ∉ chains
  genesis : Identifier → Genesis

/-- The ledgers of all chains, and the messages that they have emitted and imported so far. -/
structure World where
  ledger : Identifier → Store × Store
  emitted : List Bridge.Message := []
  imported : List Bridge.Message := []

structure Event where
  chain : Identifier
  actor : Address
  transaction : Identifier
  timestamp : Int64
  /-- whether the message that travels with the transaction is taken for verified -/
  verified : Bool
  action : Action
  signatureUnits : UInt64
  fee : UInt64

namespace World

def put (w : World) (chain : Identifier) (ledger : Store × Store) : World :=
  { w with ledger := fun c => if c = chain then ledger else w.ledger c }

def exchange (w : World) (action : Action) : Outcome → World
  | .success _ result => { w with
      emitted := w.emitted ++ result.message.toList
      imported := w.imported ++ action.attachedMessage?.toList }
  | .failure .. => w

def underway (w : World) (value : Bridge.Message → Nat) : Nat :=
  sumOver value (w.emitted.filter (· ∉ w.imported))

end World

namespace Federation

variable (F : Federation)

def context (e : Event) : Context :=
  (Chain.mk e.chain F.network).context e.actor e.transaction e.timestamp e.verified

def opening : World := { ledger := fun c => ((F.genesis c).opening, .empty) }

def step (w : World) (e : Event) : World :=
  match Execution.executeRecorded (F.context e) e.action e.signatureUnits e.fee (w.ledger e.chain) with
  | .ok receipt ledger => (w.put e.chain ledger).exchange e.action receipt.outcome
  | .error _ ledger => w.put e.chain ledger

/-- A transaction of a chain of the federation that takes no message for verified unless it was emitted. -/
structure Allows (w : World) (e : Event) : Prop where
  member : e.chain ∈ F.chains
  named : e.transaction ≠ .empty
  authentic : e.verified = true → ∀ m ∈ e.action.attachedMessage?, m ∈ w.emitted

/-- The worlds that the federation reaches, by the events that lead there, the last one first. -/
inductive Run : List Event → World → Prop
  | opening : Run [] F.opening
  | step {events : List Event} {w : World} (e : Event) (start : Run events w) (allowed : F.Allows w e) :
      Run (e :: events) (F.step w e)

structure Issues (w : World) (o : Bridge.Origin) (r : AssetRecord) : Prop where
  member : o.chain ∈ F.chains
  record : (w.ledger o.chain).1.local? o.asset = some r

/-- What is hashed for the assets on record and for the messages that were emitted. -/
inductive Hashed (w : World) : Octets → Prop
  | origin {o : Bridge.Origin} {r : AssetRecord} (issues : F.Issues w o r) : Hashed w o.metadata
  | message {m : Bridge.Message} {bytes : Octets} (emitted : m ∈ w.emitted) (encoded : m.encode = .ok bytes) :
      Hashed w (Bridge.Message.label ++ bytes)

def CollisionFree (w : World) : Prop :=
  ∀ x y, F.Hashed w x → F.Hashed w y → Identifier.digest x = Identifier.digest y → x = y

/-- No transaction is named like an asset on record would be on another chain. -/
def Unbridged (events : List Event) (w : World) : Prop :=
  ∀ e ∈ events, ∀ o r, F.Issues w o r → e.transaction ≠ o.bridgedAsset

end Federation

variable {F : Federation} {w : World} {e : Event} {events : List Event} {c : Identifier}

namespace World

theorem put_ledger (w : World) (chain : Identifier) (ledger : Store × Store) (c : Identifier) :
    (w.put chain ledger).ledger c = if c = chain then ledger else w.ledger c := rfl

theorem exchange_ledger (w : World) (action : Action) (outcome : Outcome) :
    (w.exchange action outcome).ledger = w.ledger := by
  cases outcome <;> rfl

end World

namespace Federation

theorem step_ledger (F : Federation) (w : World) (e : Event) (c : Identifier) : (F.step w e).ledger c =
    if c = e.chain then Execution.after (F.context e) e.action e.signatureUnits e.fee (w.ledger e.chain)
    else w.ledger c := by
  unfold step Execution.after
  generalize Execution.executeRecorded (F.context e) e.action e.signatureUnits e.fee (w.ledger e.chain) = result
  cases result with
  | ok receipt ledger => rw [World.exchange_ledger, World.put_ledger]
  | error fault ledger => rw [World.put_ledger]

theorem step_ledger_self (F : Federation) (w : World) (e : Event) : (F.step w e).ledger e.chain =
    Execution.after (F.context e) e.action e.signatureUnits e.fee (w.ledger e.chain) := by
  rw [step_ledger, if_pos rfl]

theorem step_ledger_ne (F : Federation) (w : World) (e : Event) (h : c ≠ e.chain) :
    (F.step w e).ledger c = w.ledger c := by rw [step_ledger, if_neg h]

end Federation

/-- An event keeps the ledgers tidy, whatever its transaction is named. -/
theorem Tidy.step (h : ∀ c, Tidy (w.ledger c)) (c : Identifier) : Tidy ((F.step w e).ledger c) := by
  by_cases hc : c = e.chain
  · rw [hc, F.step_ledger_self]
    exact (h e.chain).after ..
  · rw [F.step_ledger_ne w e hc]
    exact h c

theorem Tidy.of_run (h : F.Run events w) (c : Identifier) : Tidy (w.ledger c) := by
  induction h generalizing c with
  | opening => exact (Sound.opening (F.genesis c)).toTidy
  | step e _ _ ih => exact Tidy.step ih c

namespace Federation

/-- What the metadata of a chain records stays there. -/
theorem step_records (h : ∀ c, Tidy (w.ledger c)) {key : Octets} (hkey : (w.ledger c).2.find? key ≠ none) :
    ((F.step w e).ledger c).2.find? key ≠ none := by
  by_cases hc : c = e.chain
  · rw [hc] at hkey ⊢
    rw [F.step_ledger_self]
    obtain hsame | ⟨s', record, -, hafter, -⟩ :=
      Execution.after_cases (h e.chain).wellFormed (F.context e) e.action e.signatureUnits e.fee
    · rwa [hsame]
    · rw [hafter, KeyMap.find?_insert]
      split
      · nofun
      · exact hkey
  · rwa [F.step_ledger_ne w e hc]

/-- Only the transaction of the event can be new on record. -/
theorem of_step_records (h : ∀ c, Tidy (w.ledger c)) {transaction : Identifier}
    (hknown : ((F.step w e).ledger c).2.find? (transactionKey transaction) ≠ none) :
    transaction = e.transaction ∨ (w.ledger c).2.find? (transactionKey transaction) ≠ none := by
  by_cases hc : c = e.chain
  · rw [hc] at hknown ⊢
    rw [F.step_ledger_self] at hknown
    obtain hsame | ⟨s', record, -, hafter, -⟩ :=
      Execution.after_cases (h e.chain).wellFormed (F.context e) e.action e.signatureUnits e.fee
    · exact .inr (hsame ▸ hknown)
    · rw [hafter, KeyMap.find?_insert] at hknown
      split at hknown
      · rename_i hkey
        exact .inl (transactionKey_injective hkey)
      · exact .inr hknown
  · exact .inr (F.step_ledger_ne w e hc ▸ hknown)

/-- A transaction on record is that of an event. -/
theorem Run.event_of_record (h : F.Run events w) {transaction : Identifier}
    (hknown : (w.ledger c).2.find? (transactionKey transaction) ≠ none) :
    ∃ e ∈ events, e.transaction = transaction := by
  induction h with
  | opening => exact absurd rfl hknown
  | step e hrun _ ih =>
    obtain rfl | hknown := of_step_records (Tidy.of_run hrun) hknown
    · exact ⟨e, List.mem_cons_self, rfl⟩
    · obtain ⟨e', he', heq⟩ := ih hknown
      exact ⟨e', List.mem_cons_of_mem _ he', heq⟩

/-- An asset on record stays there, with all but its supply. -/
theorem Issues.step {o : Bridge.Origin} {r : AssetRecord} (hissues : F.Issues w o r) (h : ∀ c, Tidy (w.ledger c))
    (hnamed : e.transaction ≠ .empty) : ∃ supply, F.Issues (F.step w e) o { r with supply } := by
  by_cases hc : o.chain = e.chain
  · obtain hsame | ⟨s', record, hnew, hafter, hkeeps⟩ :=
      Execution.after_cases (h e.chain).wellFormed (F.context e) e.action e.signatureUnits e.fee
    · exact ⟨r.supply, hissues.member, by rw [hc, F.step_ledger_self, hsame, ← hc]; exact hissues.record⟩
    · have hrecord : (w.ledger e.chain).1.local? o.asset = some r := hc ▸ hissues.record
      obtain hasset | ⟨supply, hsupply⟩ := hkeeps.persists _ _ hrecord
      · rw [hasset] at hrecord
        cases hrecord.symm.trans ((h e.chain).local?_transaction hnamed hnew)
      · exact ⟨supply, hissues.member, by rw [hc, F.step_ledger_self, hafter]; exact hsupply⟩
  · exact ⟨r.supply, hissues.member, by rw [F.step_ledger_ne w e hc]; exact hissues.record⟩

/-- What holds of the names of a whole run held before its last event. -/
theorem Unbridged.of_step (hnames : F.Unbridged (e :: events) (F.step w e)) (h : ∀ c, Tidy (w.ledger c))
    (hnamed : e.transaction ≠ .empty) :
    F.Unbridged events w ∧ ∀ o r, F.Issues w o r → e.transaction ≠ o.bridgedAsset := by
  refine ⟨fun e' he' o r hissues => ?_, fun o r hissues => ?_⟩
  · obtain ⟨supply, hissues⟩ := hissues.step h hnamed
    exact hnames e' (List.mem_cons_of_mem _ he') o _ hissues
  · obtain ⟨supply, hissues⟩ := hissues.step h hnamed
    exact hnames e List.mem_cons_self o _ hissues

/-- On no chain a local asset has the name that an asset on record would have there, unless that is all zero. -/
theorem Run.local?_bridgedAsset (h : F.Run events w) (names : F.Unbridged events w) {o : Bridge.Origin}
    {r : AssetRecord} (hissues : F.Issues w o r) (hname : o.bridgedAsset ≠ .empty) (c : Identifier) :
    (w.ledger c).1.local? o.bridgedAsset = none := by
  cases hlocal : (w.ledger c).1.local? o.bridgedAsset with
  | none => rfl
  | some r' =>
    obtain hempty | hknown := (Tidy.of_run h c).named o.bridgedAsset (by rw [hlocal]; rfl)
    · exact absurd hempty hname
    · obtain ⟨e, he, heq⟩ := h.event_of_record hknown
      exact absurd heq (names e he o r hissues)

/-- The assets that can be on record at home: the native ones and those named by transactions. -/
def origins (F : Federation) (events : List Event) (w : World) : List Bridge.Origin :=
  F.chains.flatMap fun c => ((.empty :: events.map Event.transaction).filter fun a =>
    ((w.ledger c).1.local? a).isSome).map fun a => ⟨a, c⟩

def inputs (F : Federation) (events : List Event) (w : World) : List Octets :=
  (F.origins events w).map Bridge.Origin.metadata ++
    w.emitted.filterMap fun m => m.encode.toOption.map (Bridge.Message.label ++ ·)

theorem Run.mem_origins (h : F.Run events w) {o : Bridge.Origin} {r : AssetRecord} (hissues : F.Issues w o r) :
    o ∈ F.origins events w := by
  refine List.mem_flatMap.2 ⟨o.chain, hissues.member, List.mem_map.2 ⟨o.asset, List.mem_filter.2 ⟨?_, ?_⟩, rfl⟩⟩
  · obtain hempty | hknown := (Tidy.of_run h o.chain).named o.asset (by rw [hissues.record]; rfl)
    · rw [hempty]
      exact List.mem_cons_self
    · obtain ⟨e, he, heq⟩ := h.event_of_record hknown
      exact List.mem_cons_of_mem _ (List.mem_map.2 ⟨e, he, heq⟩)
  · rw [hissues.record]
    rfl

theorem Run.mem_inputs (h : F.Run events w) {x : Octets} (hx : F.Hashed w x) : x ∈ F.inputs events w := by
  cases hx with
  | origin hissues => exact List.mem_append_left _ (List.mem_map.2 ⟨_, h.mem_origins hissues, rfl⟩)
  | message hm hbytes =>
    exact List.mem_append_right _ (List.mem_filterMap.2 ⟨_, hm, by rw [hbytes]; rfl⟩)

/-- Whether a run is free of collisions can be checked. -/
theorem Run.collisionFree (h : F.Run events w)
    (hinputs : (F.inputs events w).Pairwise fun x y => Identifier.digest x ≠ Identifier.digest y) :
    F.CollisionFree w := by
  have hall := List.Pairwise.forall_of_forall_of_flip (l := F.inputs events w)
    (R := fun x y => Identifier.digest x = Identifier.digest y → x = y) (fun _ _ _ => rfl)
    (hinputs.imp fun hne heq => absurd heq hne) (hinputs.imp fun hne heq => absurd heq.symm hne)
  exact fun x y hx hy => hall (h.mem_inputs hx) (h.mem_inputs hy)

/-- Whether the names in a run are apart can be checked. -/
theorem Run.unbridged (h : F.Run events w)
    (hnames : ∀ e ∈ events, ∀ o ∈ F.origins events w, e.transaction ≠ o.bridgedAsset) : F.Unbridged events w :=
  fun e he o _ hissues => hnames e he o (h.mem_origins hissues)

/-- What an event does to the bridge on its chain and to the messages; only a new transaction emits one. -/
structure Turn (F : Federation) (w : World) (e : Event) (consumed sent : Option Bridge.Message) : Prop where
  moves : Move (F.context e) (w.ledger e.chain).1 ((F.step w e).ledger e.chain).1 consumed sent
  emitted : (F.step w e).emitted = w.emitted ++ sent.toList
  imported : (F.step w e).imported = w.imported ++ consumed.toList
  attached : ∀ m ∈ consumed, m ∈ e.action.attachedMessage?
  unknown : sent.isSome → (w.ledger e.chain).2.find? (transactionKey e.transaction) = none
  known : sent.isSome → ((F.step w e).ledger e.chain).2.find? (transactionKey e.transaction) ≠ none

/-- Every event is such a turn, provided that no bridged asset has the name of its transaction. -/
theorem exists_turn (h : Tidy (w.ledger e.chain)) (hnamed : e.transaction ≠ .empty)
    (hunbridged : (w.ledger e.chain).1.bridged? e.transaction = none) : ∃ consumed sent, Turn F w e consumed sent := by
  obtain ⟨fault, herror⟩ | ⟨receipt, record, s', hnew, hok, hs'⟩ := Execution.executeRecorded_cases (w.ledger e.chain).1
    (w.ledger e.chain).2 (F.context e) e.action e.signatureUnits e.fee
  · have hstep : F.step w e = w.put e.chain (w.ledger e.chain) := by
      unfold step
      rw [herror]
    have hledger : (F.step w e).ledger e.chain = w.ledger e.chain := by rw [hstep, World.put_ledger, if_pos rfl]
    refine ⟨none, none, hledger ▸ Move.refl .., ?_, ?_, nofun, nofun, nofun⟩ <;> simp [hstep, World.put]
  · have hstep : F.step w e = (w.put e.chain (s', (w.ledger e.chain).2.insert (transactionKey e.transaction)
        record.encode)).exchange e.action receipt.outcome := by
      unfold step
      rw [hok]
      rfl
    have hledger : (F.step w e).ledger e.chain =
        (s', (w.ledger e.chain).2.insert (transactionKey e.transaction) record.encode) := by
      rw [hstep, World.exchange_ledger, World.put_ledger, if_pos rfl]
    obtain ⟨reason, hreason, rfl⟩ | ⟨y, hsuccess, hy⟩ := hs'
    · refine ⟨none, none, hledger ▸ Move.refl .., ?_, ?_, nofun, nofun, nofun⟩ <;>
        simp [hstep, hreason, World.put, World.exchange]
    · have hnone := asset?_eq_none_iff.2 ⟨h.local?_transaction hnamed hnew, hunbridged⟩
      refine ⟨e.action.attachedMessage?, y.message, hledger ▸ Action.moves hy h.wellFormed hnamed hnone,
        by rw [hstep, hsuccess]; rfl, by rw [hstep, hsuccess]; rfl, fun _ => id, fun _ => hnew, fun _ => ?_⟩
      rw [hledger, KeyMap.find?_insert, if_pos rfl]
      nofun

end Federation
end BridgeLedger
