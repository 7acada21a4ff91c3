import BridgeLedger.Catalog
import BridgeLedger.Proofs.BridgeWireFormat

/-! The wire format of actions and credentials. Bytes are accepted exactly if they are the written form of an action
within the limits of the format; no others, so nothing is accepted that is cut short, goes on, or is written in another
way. -/
namespace BridgeLedger

open Takes

variable {input rest : Octets}

/-- An action within the limits of the wire format. The limits that the ledger sets when it executes the action are not
all the same. -/
def Action.WithinLimits : Action → Prop
  | .payment a => a.value ≠ 0 ∧ a.memo.length ≤ Limits.maxMemo
  | .mint a => a.asset ≠ .empty ∧ a.value ≠ 0
  | .createAsset a => (a.symbol ≠ [] ∧ a.symbol.length ≤ Limits.maxSymbol) ∧
      (a.metadata ≠ [] ∧ a.metadata.length ≤ Limits.maxMetadata) ∧ a.maxSupply ≠ 0
  | .createNft a => (a.metadata ≠ [] ∧ a.metadata.length ≤ Limits.maxMetadata) ∧
      a.url ≠ [] ∧ a.url.length ≤ Limits.maxUrl
  | .readNft _ => True
  | .importAsset a => Bridge.Transfer.decode a.message.payload = .ok a.transfer
  | .exportAsset a => a.value ≠ 0 ∧ a.destination ≠ .empty ∧ a.terms.swap.valid a.value = true
  | .transferNft a => a.memo.length ≤ Limits.maxMemo

namespace Action

theorem Payment.read_iff {a : Payment} : Takes read input a rest ↔
    (Action.payment a).WithinLimits ∧ ∃ body, a.encode = .ok body ∧ input = body ++ rest := by
  simp only [read, bind_iff, address_iff, uint64_iff, prefixed_iff, pure_iff]
  constructor
  · rintro ⟨recipient, _, rfl, value, _, ⟨hvalue, rfl⟩, memo, _, ⟨hmemo, -, written, hwritten, rfl⟩, rfl, rfl⟩
    exact ⟨⟨hvalue trivial, hmemo⟩, _, by rw [encode, hwritten]; rfl, by simp⟩
  · rintro ⟨⟨hvalue, hmemo⟩, body, hbody, rfl⟩
    obtain ⟨written, hwritten, hbody⟩ := exists_ok_of_bind hbody
    cases hbody
    exact ⟨a.recipient, _, by simp only [List.append_assoc], a.value, _, ⟨fun _ => hvalue, rfl⟩, a.memo, rest,
      ⟨hmemo, (absurd · Bool.false_ne_true), written, hwritten, rfl⟩, rfl, rfl⟩

theorem Mint.read_iff {a : Mint} : Takes read input a rest ↔
    (Action.mint a).WithinLimits ∧ input = a.encode ++ rest := by
  simp only [read, bind_iff, address_iff, identifier_iff, uint64_iff, pure_iff]
  constructor
  · rintro ⟨recipient, _, rfl, asset, _, ⟨hasset, rfl⟩, value, _, ⟨hvalue, rfl⟩, rfl, rfl⟩
    exact ⟨⟨hasset trivial, hvalue trivial⟩, by simp [encode]⟩
  · rintro ⟨⟨hasset, hvalue⟩, rfl⟩
    exact ⟨a.recipient, _, by simp only [encode, List.append_assoc], a.asset, _, ⟨fun _ => hasset, rfl⟩, a.value, rest,
      ⟨fun _ => hvalue, rfl⟩, rfl, rfl⟩

theorem CreateAsset.read_iff {a : CreateAsset} : Takes read input a rest ↔
    (Action.createAsset a).WithinLimits ∧ ∃ body, a.encode = .ok body ∧ input = body ++ rest := by
  simp only [read, bind_iff, prefixed_iff, uint8_iff, uint64_iff, pure_iff]
  constructor
  · rintro ⟨symbol, _, ⟨hsymbol, hsymbol', written, hwritten, rfl⟩, decimals, _, rfl, metadata, _,
      ⟨hmetadata, hmetadata', written', hwritten', rfl⟩, maxSupply, _, ⟨hcap, rfl⟩, rfl, rfl⟩
    exact ⟨⟨⟨hsymbol' trivial, hsymbol⟩, ⟨hmetadata' trivial, hmetadata⟩, hcap trivial⟩, _,
      by rw [encode, hwritten, hwritten']; rfl, by simp⟩
  · rintro ⟨⟨⟨hsymbol', hsymbol⟩, ⟨hmetadata', hmetadata⟩, hcap⟩, body, hbody, rfl⟩
    obtain ⟨written, hwritten, hbody⟩ := exists_ok_of_bind hbody
    obtain ⟨written', hwritten', hbody⟩ := exists_ok_of_bind hbody
    cases hbody
    exact ⟨a.symbol, _, ⟨hsymbol, fun _ => hsymbol', written, hwritten, by simp⟩, a.decimals, _, rfl,
      a.metadata, _, ⟨hmetadata, fun _ => hmetadata', written', hwritten', rfl⟩, a.maxSupply, rest,
      ⟨fun _ => hcap, rfl⟩, rfl, rfl⟩

theorem CreateNft.read_iff {a : CreateNft} : Takes read input a rest ↔
    (Action.createNft a).WithinLimits ∧ ∃ body, a.encode = .ok body ∧ input = body ++ rest := by
  simp only [read, bind_iff, prefixed_iff, address_iff, pure_iff]
  constructor
  · rintro ⟨metadata, _, ⟨hmetadata, hmetadata', written, hwritten, rfl⟩, owner, _, rfl, url, _,
      ⟨hurl, hurl', written', hwritten', rfl⟩, rfl, rfl⟩
    exact ⟨⟨⟨hmetadata' trivial, hmetadata⟩, hurl' trivial, hurl⟩, _, by rw [encode, hwritten, hwritten']; rfl, by simp⟩
  · rintro ⟨⟨⟨hmetadata', hmetadata⟩, hurl', hurl⟩, body, hbody, rfl⟩
    obtain ⟨written, hwritten, hbody⟩ := exists_ok_of_bind hbody
    obtain ⟨written', hwritten', hbody⟩ := exists_ok_of_bind hbody
    cases hbody
    exact ⟨a.metadata, _, ⟨hmetadata, fun _ => hmetadata', written, hwritten, by simp only [List.append_assoc]⟩,
      a.owner, _, rfl, a.url, rest, ⟨hurl, fun _ => hurl', written', hwritten', rfl⟩, rfl, rfl⟩

theorem ReadNft.read_iff {a : ReadNft} : Takes read input a rest ↔ input = a.encode ++ rest := by
  simp only [read, map_iff, identifier_iff]
  constructor
  · rintro ⟨nft, ⟨-, rfl⟩, rfl⟩
    rfl
  · rintro rfl
    exact ⟨a.nft, ⟨(absurd · Bool.false_ne_true), rfl⟩, rfl⟩

theorem Import.read_iff {message : Bridge.Message} {a : Import} : Takes (read (some message)) input a rest ↔
    a.message = message ∧ input = a.encode ++ rest := by
  simp only [read, bind_iff, bool_iff]
  constructor
  · rintro ⟨fill, _, rfl, h⟩
    cases hmessage : ofMessage message fill with
    | error e =>
      rw [hmessage] at h
      exact absurd h not_throw
    | ok a' =>
      rw [hmessage] at h
      obtain ⟨rfl, rfl⟩ := pure_iff.1 h
      obtain ⟨rfl, rfl⟩ := ofMessage_iff.1 hmessage
      exact ⟨rfl, rfl⟩
  · rintro ⟨rfl, rfl⟩
    refine ⟨a.fill, rest, rfl, ?_⟩
    rw [ofMessage_iff.2 ⟨rfl, rfl⟩]
    exact pure_iff.2 ⟨rfl, rfl⟩

theorem Export.read_iff {a : Export} : Takes read input a rest ↔
    (Action.exportAsset a).WithinLimits ∧ input = a.encode ++ rest := by
  simp only [read, bind_iff, address_iff, identifier_iff, uint64_iff, bool_iff, terms_iff, require_iff, pure_iff]
  constructor
  · rintro ⟨recipient, _, rfl, asset, _, ⟨-, rfl⟩, value, _, ⟨hvalue, rfl⟩, returning, _, rfl, terms, _, rfl,
      destination, _, ⟨hdestination, rfl⟩, _, _, ⟨hswap, rfl⟩, rfl, rfl⟩
    exact ⟨⟨hvalue trivial, hdestination trivial, hswap⟩, by simp [encode]⟩
  · rintro ⟨⟨hvalue, hdestination, hswap⟩, rfl⟩
    exact ⟨a.recipient, _, by simp only [encode, List.append_assoc], a.asset, _, ⟨(absurd · Bool.false_ne_true), rfl⟩, a.value, _,
      ⟨fun _ => hvalue, rfl⟩, a.returning, _, rfl, a.terms, _, rfl, a.destination, rest, ⟨fun _ => hdestination, rfl⟩,
      (), rest, ⟨hswap, rfl⟩, rfl, rfl⟩

theorem TransferNft.read_iff {a : TransferNft} : Takes read input a rest ↔
    (Action.transferNft a).WithinLimits ∧ ∃ body, a.encode = .ok body ∧ input = body ++ rest := by
  simp only [read, bind_iff, address_iff, identifier_iff, prefixed_iff, pure_iff]
  constructor
  · rintro ⟨recipient, _, rfl, nft, _, ⟨-, rfl⟩, memo, _, ⟨hmemo, -, written, hwritten, rfl⟩, rfl, rfl⟩
    exact ⟨hmemo, _, by rw [encode, hwritten]; rfl, by simp⟩
  · rintro ⟨hmemo, body, hbody, rfl⟩
    obtain ⟨written, hwritten, hbody⟩ := exists_ok_of_bind hbody
    cases hbody
    exact ⟨a.recipient, _, by simp only [List.append_assoc], a.nft, _, ⟨(absurd · Bool.false_ne_true), rfl⟩, a.memo, rest,
      ⟨hmemo, (absurd · Bool.false_ne_true), written, hwritten, rfl⟩, rfl, rfl⟩

end Action

namespace Catalog

variable {message : Option Bridge.Message} {action : Action}

private theorem mem_of_lookup {β : Type} {tag : UInt8} {table : List (UInt8 × β)} {entry : β}
    (h : table.lookup tag = some entry) : (tag, entry) ∈ table := by
  obtain ⟨front, back, hsplit, -⟩ := List.lookup_eq_some_iff.1 h
  simp [hsplit]

/-- Reading a body under its constructor is reading the body. -/
private theorem takes_map_iff {α : Type} {f : α → Action} {r : Reader α} {a : α} (hf : ∀ b, f b = f a ↔ b = a) :
    Takes (f <$> r) input (f a) rest ↔ Takes r input a rest := by
  rw [map_iff]
  constructor
  · rintro ⟨b, hb, heq⟩
    rwa [← (hf b).1 heq]
  · exact fun h => ⟨a, h, rfl⟩

/-- The entry of an action in the standard catalogue takes the action from its body, with its message, and nothing
else. -/
theorem standard_entry (action : Action) : ∃ entry, standard.actions.lookup action.tag = some entry ∧
    entry.needsMessage = action.attachedMessage?.isSome ∧ ∀ input rest,
      Takes (entry.read action.attachedMessage?) input action rest ↔
        action.WithinLimits ∧ ∃ body, action.encodeBody = .ok body ∧ input = body ++ rest := by
  cases action with
  | payment a => exact ⟨_, rfl, rfl, fun _ _ => (takes_map_iff (by simp)).trans Action.Payment.read_iff⟩
  | mint a =>
    refine ⟨_, rfl, rfl, fun _ _ => (takes_map_iff (by simp)).trans (Action.Mint.read_iff.trans ?_)⟩
    simp [Action.encodeBody]
  | createAsset a => exact ⟨_, rfl, rfl, fun _ _ => (takes_map_iff (by simp)).trans Action.CreateAsset.read_iff⟩
  | createNft a => exact ⟨_, rfl, rfl, fun _ _ => (takes_map_iff (by simp)).trans Action.CreateNft.read_iff⟩
  | readNft a =>
    refine ⟨_, rfl, rfl, fun _ _ => (takes_map_iff (by simp)).trans (Action.ReadNft.read_iff.trans ?_)⟩
    simp [Action.encodeBody, Action.WithinLimits]
  | importAsset a =>
    refine ⟨_, rfl, rfl, fun _ _ => (takes_map_iff (by simp)).trans (Action.Import.read_iff.trans ?_)⟩
    simp [Action.encodeBody, Action.WithinLimits, a.decoded]
  | exportAsset a =>
    refine ⟨_, rfl, rfl, fun _ _ => (takes_map_iff (by simp)).trans (Action.Export.read_iff.trans ?_)⟩
    simp [Action.encodeBody]
  | transferNft a => exact ⟨_, rfl, rfl, fun _ _ => (takes_map_iff (by simp)).trans Action.TransferNft.read_iff⟩

/-- An action that travels without a message is read without one. -/
private theorem of_plain_entry {α : Type} {tag : UInt8} {f : α → Action} {read : Reader α}
    (hf : ∀ a, (f a).tag = tag ∧ (f a).attachedMessage? = none) (hneeds : false = message.isSome)
    (h : Takes (f <$> read) input action rest) : action.tag = tag ∧ action.attachedMessage? = message := by
  obtain ⟨a, -, rfl⟩ := map_iff.1 h
  rw [Option.isNone_iff_eq_none.1 (Option.isSome_eq_false_iff.1 hneeds.symm)]
  exact hf a

/-- Whatever an entry of the standard catalogue reads has the tag and the message of the entry. -/
theorem of_standard_entry {tag : UInt8} {entry : ActionEntry} (hentry : standard.actions.lookup tag = some entry)
    (hneeds : entry.needsMessage = message.isSome) (h : Takes (entry.read message) input action rest) :
    action.tag = tag ∧ action.attachedMessage? = message := by
  have hmem := mem_of_lookup hentry
  simp only [standard, List.mem_cons, List.not_mem_nil, or_false, Prod.mk.injEq] at hmem
  obtain ⟨rfl, rfl⟩ | ⟨rfl, rfl⟩ | ⟨rfl, rfl⟩ | ⟨rfl, rfl⟩ | ⟨rfl, rfl⟩ | ⟨rfl, rfl⟩ | ⟨rfl, rfl⟩ | ⟨rfl, rfl⟩ := hmem
  · exact of_plain_entry (fun _ => ⟨rfl, rfl⟩) hneeds h
  · exact of_plain_entry (fun _ => ⟨rfl, rfl⟩) hneeds h
  · exact of_plain_entry (fun _ => ⟨rfl, rfl⟩) hneeds h
  · exact of_plain_entry (fun _ => ⟨rfl, rfl⟩) hneeds h
  · exact of_plain_entry (fun _ => ⟨rfl, rfl⟩) hneeds h
  · obtain ⟨a, ha, rfl⟩ := map_iff.1 h
    obtain ⟨m, rfl⟩ := Option.isSome_iff_exists.1 hneeds.symm
    exact ⟨rfl, congrArg some (Action.Import.read_iff.1 ha).1⟩
  · exact of_plain_entry (fun _ => ⟨rfl, rfl⟩) hneeds h
  · exact of_plain_entry (fun _ => ⟨rfl, rfl⟩) hneeds h

/-- Tagged bytes are an action exactly if they are its written form, beside its message, and it is within the limits. -/
theorem standard_decodeAction_iff {bytes : Octets} : standard.decodeAction bytes message = .ok action ↔
    action.encode = .ok bytes ∧ message = action.attachedMessage? ∧ action.WithinLimits := by
  obtain ⟨entry, hentry, hneeds, hreads⟩ := standard_entry action
  constructor
  · intro h
    cases bytes with
    | nil => cases h
    | cons tag body =>
      obtain ⟨entry', hentry', hneeds', hread⟩ := decodeAction_cons_iff.1 h
      have htakes := readAll_iff.1 hread
      obtain ⟨rfl, rfl⟩ := of_standard_entry hentry' hneeds' htakes
      cases hentry.symm.trans hentry'
      obtain ⟨hlimits, written, hwritten, rfl⟩ := (hreads _ _).1 htakes
      refine ⟨?_, rfl, hlimits⟩
      rw [Action.encode, hwritten, List.append_nil]
      rfl
  · rintro ⟨hbytes, rfl, hlimits⟩
    obtain ⟨body, hbody, hbytes⟩ := exists_ok_of_bind hbytes
    cases hbytes
    exact decodeAction_cons_iff.2 ⟨entry, hentry, hneeds,
      readAll_iff.2 ((hreads _ _).2 ⟨hlimits, body, hbody, (List.append_nil body).symm⟩)⟩

private theorem import_of_attached {m : Bridge.Message} (h : action.attachedMessage? = some m) :
    ∃ a, action = .importAsset a := by
  cases action with
  | importAsset a => exact ⟨a, rfl⟩
  | _ => cases h

/-- No bytes of an action go on as the bytes of another. -/
theorem standard_decodeAction_stops {bytes more : Octets} {message' : Option Bridge.Message} {action' : Action}
    (h : standard.decodeAction bytes message = .ok action)
    (h' : standard.decodeAction (bytes ++ more) message' = .ok action') : more = [] := by
  obtain ⟨hbytes, hmessage, hlimits⟩ := standard_decodeAction_iff.1 h
  obtain ⟨body, hbody, hbytes⟩ := exists_ok_of_bind hbytes
  cases hbytes
  obtain ⟨entry, hentry, hneeds, hreads⟩ := standard_entry action
  obtain ⟨entry', hentry', hneeds', hread'⟩ := decodeAction_cons_iff.1 h'
  cases hentry.symm.trans hentry'
  subst hmessage
  cases hattached : action.attachedMessage? with
  | none =>
    obtain rfl : message' = none := by simpa [hattached, hneeds] using hneeds'
    have hlong := (hreads (body ++ more) more).2 ⟨hlimits, body, hbody, rfl⟩
    rw [hattached] at hlong
    cases hlong.symm.trans (readAll_iff.1 hread')
    rfl
  | some m =>
    obtain ⟨m', rfl⟩ : ∃ m', message' = some m' :=
      Option.isSome_iff_exists.1 (by rw [← hneeds', hneeds, hattached]; rfl)
    obtain ⟨hbytes', hmessage', -⟩ := standard_decodeAction_iff.1 h'
    obtain ⟨a, rfl⟩ := import_of_attached hattached
    obtain ⟨a', rfl⟩ := import_of_attached hmessage'.symm
    cases hbody
    have hlength := congrArg List.length (Except.ok.inj hbytes')
    simpa [Action.encodeBody, Action.Import.encode, Wire.ofBool] using hlength

/-- The reader of a scheme takes its credentials from their keys and signatures, and nothing else. -/
private theorem takes_credential_iff {n : Nat} {f : Block n → Block 64 → Credential} {credential : Credential} :
    Takes (do return f (← Reader.block n) (← Reader.block 64)) input credential rest ↔
      ∃ signer signature, credential = f signer signature ∧ input = signer.octets ++ signature.octets ++ rest := by
  simp only [bind_iff, block_iff, pure_iff]
  constructor
  · rintro ⟨signer, _, rfl, signature, _, rfl, rfl, rfl⟩
    exact ⟨signer, signature, rfl, (List.append_assoc _ _ _).symm⟩
  · rintro ⟨signer, signature, rfl, rfl⟩
    exact ⟨signer, _, List.append_assoc _ _ _, signature, rest, rfl, rfl, rfl⟩

/-- Tagged bytes are a credential exactly if they are its written form. -/
theorem standard_decodeCredential_iff {bytes : Octets} {credential : Credential} :
    standard.decodeCredential bytes = .ok credential ↔ bytes = credential.encode := by
  constructor
  · intro h
    cases bytes with
    | nil => cases h
    | cons tag body =>
      obtain ⟨read, hscheme, hread⟩ := decodeCredential_cons_iff.1 h
      have htakes := readAll_iff.1 hread
      have hmem := mem_of_lookup hscheme
      simp only [standard, List.mem_cons, List.not_mem_nil, or_false, Prod.mk.injEq] at hmem
      obtain ⟨rfl, rfl⟩ | ⟨rfl, rfl⟩ := hmem
      · obtain ⟨signer, signature, rfl, rfl⟩ := takes_credential_iff.1 htakes
        simp [Credential.encode, Credential.tag, Credential.signer, Credential.signature]
      · obtain ⟨signer, signature, rfl, rfl⟩ := takes_credential_iff.1 htakes
        simp [Credential.encode, Credential.tag, Credential.signer, Credential.signature]
  · rintro rfl
    cases credential with
    | ed25519 signer signature =>
      exact decodeCredential_cons_iff.2 ⟨_, rfl, readAll_iff.2 (takes_credential_iff.2
        ⟨signer, signature, rfl, (List.append_nil _).symm⟩)⟩
    | p256 signer signature =>
      exact decodeCredential_cons_iff.2 ⟨_, rfl, readAll_iff.2 (takes_credential_iff.2
        ⟨signer, signature, rfl, (List.append_nil _).symm⟩)⟩

/-- A scheme fixes the length of its credentials. -/
private theorem length_credential {c c' : Credential} (h : c.tag = c'.tag) : c.encode.length = c'.encode.length := by
  match c, c' with
  | .ed25519 .., .ed25519 .. | .p256 .., .p256 .. =>
    simp [Credential.encode, Credential.signer, Credential.signature, Block.length_octets]
  | .ed25519 .., .p256 .. | .p256 .., .ed25519 .. => exact absurd h nofun

/-- No bytes of a credential go on as the bytes of another. -/
theorem standard_decodeCredential_stops {bytes more : Octets} {credential credential' : Credential}
    (h : standard.decodeCredential bytes = .ok credential)
    (h' : standard.decodeCredential (bytes ++ more) = .ok credential') : more = [] := by
  obtain rfl := standard_decodeCredential_iff.1 h
  have hlong := standard_decodeCredential_iff.1 h'
  have hlength := length_credential (List.cons.inj hlong).1
  rw [← hlong, List.length_append] at hlength
  exact List.eq_nil_of_length_eq_zero (by omega)

/-- Bytes are an action of the standard catalogue, beside a message or none, exactly if they are its written form, the
message is the one of the action, and the action is within the limits of the format. They are a credential exactly if
they are its written form. So nothing has two written forms, and no written form is cut short or goes on in another. -/
theorem standard_accepts_written :
    (∀ (bytes : Octets) (message : Option Bridge.Message) (action : Action),
      standard.decodeAction bytes message = .ok action ↔
        action.encode = .ok bytes ∧ message = action.attachedMessage? ∧ action.WithinLimits) ∧
    (∀ (bytes bytes' : Octets) (message message' : Option Bridge.Message) (action : Action),
      standard.decodeAction bytes message = .ok action → standard.decodeAction bytes' message' = .ok action →
        bytes = bytes' ∧ message = message') ∧
    (∀ (bytes more : Octets) (message message' : Option Bridge.Message) (action action' : Action),
      standard.decodeAction bytes message = .ok action →
        standard.decodeAction (bytes ++ more) message' = .ok action' → more = []) ∧
    (∀ (bytes : Octets) (credential : Credential),
      standard.decodeCredential bytes = .ok credential ↔ bytes = credential.encode) ∧
    ∀ (bytes more : Octets) (credential credential' : Credential),
      standard.decodeCredential bytes = .ok credential →
        standard.decodeCredential (bytes ++ more) = .ok credential' → more = [] := by
  refine ⟨fun _ _ _ => standard_decodeAction_iff, fun bytes bytes' message message' action h h' => ?_,
    fun _ _ _ _ _ _ => standard_decodeAction_stops, fun _ _ => standard_decodeCredential_iff,
    fun _ _ _ _ => standard_decodeCredential_stops⟩
  obtain ⟨hbytes, hmessage, -⟩ := standard_decodeAction_iff.1 h
  obtain ⟨hbytes', hmessage', -⟩ := standard_decodeAction_iff.1 h'
  exact ⟨Except.ok.inj (hbytes.symm.trans hbytes'), hmessage.trans hmessage'.symm⟩

/-- A look-up of a token is read from its bytes, and from none that go on. -/
theorem lookup_read_exactly : ∃ bytes, standard.decodeAction bytes none = .ok (.readNft ⟨.digest []⟩) ∧
    ∀ more message action, standard.decodeAction (bytes ++ more) message = .ok action → more = [] := by
  obtain ⟨haccepted, -, hstops, -⟩ := standard_accepts_written
  have h := (haccepted _ none (.readNft ⟨.digest []⟩)).2 ⟨rfl, rfl, trivial⟩
  exact ⟨_, h, fun more message action => hstops _ more none message _ action h⟩

end Catalog

end BridgeLedger
