import BridgeLedger.Identity

/-! The origin of a bridged asset, and its name on the chain that it was brought to. -/
namespace BridgeLedger.Bridge

structure Origin where
  asset : Identifier
  chain : Identifier
deriving DecidableEq

namespace Origin

def metadata (o : Origin) : Octets := o.asset.octets ++ o.chain.octets

def bridgedAsset (o : Origin) : Identifier := Identifier.digest o.metadata

def ofMetadata? (metadata : Octets) : Option Origin := do
  let asset ← Identifier.ofOctets? (metadata.take 32)
  let chain ← Identifier.ofOctets? (metadata.drop 32)
  return ⟨asset, chain⟩

theorem ofMetadata?_metadata (o : Origin) : ofMetadata? o.metadata = some o := by
  have hasset : Identifier.ofOctets? (o.metadata.take 32) = some o.asset :=
    Identifier.ofOctets?_eq_some.2 (List.take_left' o.asset.length_octets).symm
  have hchain : Identifier.ofOctets? (o.metadata.drop 32) = some o.chain :=
    Identifier.ofOctets?_eq_some.2 (List.drop_left' o.asset.length_octets).symm
  rw [ofMetadata?, hasset, hchain]
  rfl

end Origin
end BridgeLedger.Bridge
