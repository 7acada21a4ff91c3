import BridgeLedger.Action
import BridgeLedger.Credential

/-! Tables from the tag byte of an action or a credential to the reader of its body. -/
namespace BridgeLedger

inductive CatalogError where
  | unknownAction (tag : UInt8)
  | unknownCredential (tag : UInt8)
  | duplicate (tag : UInt8)
  | messageRequired
  | unexpectedMessage
  | wire (e : WireError)
deriving DecidableEq

def CatalogError.message : CatalogError → String
  | .unknownAction tag => "unknown action type " ++ tag.toNat.repr
  | .unknownCredential tag => "unknown auth type " ++ tag.toNat.repr
  | .duplicate tag => "type " ++ tag.toNat.repr ++ " registered twice"
  | .messageRequired => "action requires a warp message"
  | .unexpectedMessage => "unexpected warp message"
  | .wire e => "codec: " ++ e.message

structure ActionEntry where
  read : Option Bridge.Message → Reader Action
  needsMessage : Bool

structure Catalog where
  actions : List (UInt8 × ActionEntry)
  credentials : List (UInt8 × Reader Credential)

namespace Catalog

private def plain {α : Type} (f : α → Action) (read : Reader α) : ActionEntry := ⟨fun _ => f <$> read, false⟩

def standard : Catalog where
  actions := [
    (0, plain .payment Action.Payment.read),
    (1, plain .mint Action.Mint.read),
    (2, plain .createAsset Action.CreateAsset.read),
    (3, plain .createNft Action.CreateNft.read),
    (4, plain .readNft Action.ReadNft.read),
    (5, ⟨fun message => .importAsset <$> Action.Import.read message, true⟩),
    (6, plain .exportAsset Action.Export.read),
    (7, plain .transferNft Action.TransferNft.read)]
  credentials := [(0, Credential.readEd25519), (1, Credential.readP256)]

def addAction (c : Catalog) (tag : UInt8) (entry : ActionEntry) : Except CatalogError Catalog :=
  if (c.actions.lookup tag).isSome then .error (.duplicate tag)
  else .ok { c with actions := (tag, entry) :: c.actions }

def addCredential (c : Catalog) (tag : UInt8) (read : Reader Credential) : Except CatalogError Catalog :=
  if (c.credentials.lookup tag).isSome then .error (.duplicate tag)
  else .ok { c with credentials := (tag, read) :: c.credentials }

private def readBody {α : Type} (read : Reader α) (bytes : Octets) : Except CatalogError α :=
  (Reader.readAll read bytes).mapError .wire

/-- Reads a tagged action. A message must be there exactly if the action needs one. -/
def decodeAction (c : Catalog) (bytes : Octets) (message : Option Bridge.Message) :
    Except CatalogError Action :=
  match bytes with
  | [] => .error (.wire .truncated)
  | tag :: body =>
    match c.actions.lookup tag with
    | none => .error (.unknownAction tag)
    | some entry =>
      if entry.needsMessage && message.isNone then .error .messageRequired
      else if !entry.needsMessage && message.isSome then .error .unexpectedMessage
      else readBody (entry.read message) body

def decodeCredential (c : Catalog) (bytes : Octets) : Except CatalogError Credential :=
  match bytes with
  | [] => .error (.wire .truncated)
  | tag :: body =>
    match c.credentials.lookup tag with
    | none => .error (.unknownCredential tag)
    | some read => readBody read body

private theorem readBody_eq_ok_iff {α : Type} {read : Reader α} {bytes : Octets} {a : α} :
    readBody read bytes = .ok a ↔ Reader.readAll read bytes = .ok a := by
  unfold readBody
  cases Reader.readAll read bytes with
  | error e => constructor <;> intro h <;> cases h
  | ok b => constructor <;> intro h <;> cases h <;> rfl

/-- With a known tag, and a message exactly if the action needs one, the body decides. -/
theorem decodeAction_cons {c : Catalog} {tag : UInt8} {entry : ActionEntry} {message : Option Bridge.Message}
    (hentry : c.actions.lookup tag = some entry) (hneeds : entry.needsMessage = message.isSome) (body : Octets) :
    c.decodeAction (tag :: body) message = (Reader.readAll (entry.read message) body).mapError .wire := by
  simp only [decodeAction, hentry, hneeds]
  cases message <;> rfl

/-- Tagged bytes are an action when the tag is known, a message is there exactly if the action needs one, and the rest
is a body. -/
theorem decodeAction_cons_iff {c : Catalog} {tag : UInt8} {body : Octets} {message : Option Bridge.Message}
    {action : Action} : c.decodeAction (tag :: body) message = .ok action ↔ ∃ entry,
      c.actions.lookup tag = some entry ∧ entry.needsMessage = message.isSome ∧
        Reader.readAll (entry.read message) body = .ok action := by
  cases hentry : c.actions.lookup tag with
  | none => simp [decodeAction, hentry]
  | some entry =>
    simp only [decodeAction, hentry]
    cases hneeds : entry.needsMessage <;> cases message <;> simp [hneeds, readBody_eq_ok_iff]

theorem decodeCredential_cons_iff {c : Catalog} {tag : UInt8} {body : Octets} {credential : Credential} :
    c.decodeCredential (tag :: body) = .ok credential ↔ ∃ read,
      c.credentials.lookup tag = some read ∧ Reader.readAll read body = .ok credential := by
  cases hread : c.credentials.lookup tag with
  | none => simp [decodeCredential, hread]
  | some read => simp [decodeCredential, hread, readBody_eq_ok_iff]

end Catalog
end BridgeLedger
