import BridgeLedger.Proofs.ExactFields
import BridgeLedger.Proofs.RecordRoundTrip

/-! The formats of what is stored. Bytes are accepted as an amount or a record exactly if they are its written form, and
no written form is the beginning of another, so stored bytes that lost their end or gained some are refused. -/
namespace BridgeLedger

variable {α β : Type}

/-- A reader cannot tell a front from what follows it: what it takes from both is in the front, unless the front ends
too early for it. -/
def Streams (r : Reader α) : Prop := ∀ front back v rest, Takes r (front ++ back) v rest →
  (∃ mid, Takes r front v mid ∧ rest = mid ++ back) ∨ ∃ left, r front = .error .truncated left

namespace Streams

open Reader

variable {r : Reader α}

protected theorem pure (v : α) : Streams (pure v : Reader α) := by
  intro front back w rest h
  obtain ⟨rfl, rfl⟩ := Takes.pure_iff.1 h
  exact .inl ⟨front, Takes.pure_iff.2 ⟨rfl, rfl⟩, rfl⟩

theorem throw (e : WireError) : Streams (throw e : Reader α) := fun _ _ _ _ h => absurd h Takes.not_throw

protected theorem bind {f : α → Reader β} (h : Streams r) (k : ∀ v, Streams (f v)) : Streams (r >>= f) := by
  intro front back w rest hboth
  obtain ⟨v, left, hr, hf⟩ := Takes.bind_iff.1 hboth
  obtain ⟨mid, hmid, rfl⟩ | ⟨left, hshort⟩ := h front back v left hr
  · obtain ⟨mid', hmid', rfl⟩ | ⟨left, hshort⟩ := k v mid back w rest hf
    · exact .inl ⟨mid', Takes.bind_iff.2 ⟨v, mid, hmid, hmid'⟩, rfl⟩
    · refine .inr ⟨left, ?_⟩
      change EStateM.bind r f front = _
      rw [EStateM.bind, hmid]
      exact hshort
  · refine .inr ⟨left, ?_⟩
    change EStateM.bind r f front = _
    rw [EStateM.bind, hshort]

protected theorem map {f : α → β} (h : Streams r) : Streams (f <$> r) := by
  rw [map_eq_pure_bind]
  exact h.bind fun v => .pure (f v)

theorem require (condition : Bool) (e : WireError) : Streams (require condition e) := by
  cases condition with
  | true => exact .pure ()
  | false => exact .throw e

/-- What is no longer than a front and begins the whole begins the front. -/
private theorem within_front {front back bytes rest : Octets} (h : front ++ back = bytes ++ rest)
    (hlength : bytes.length ≤ front.length) : ∃ mid, front = bytes ++ mid ∧ rest = mid ++ back := by
  have hprefix : bytes <+: front :=
    List.prefix_of_prefix_length_le ⟨rest, h.symm⟩ (List.prefix_append front back) hlength
  obtain ⟨mid, rfl⟩ := hprefix
  rw [List.append_assoc] at h
  exact ⟨mid, rfl, (List.append_cancel_left h).symm⟩

theorem take (n : Nat) : Streams (take n) := by
  intro front back bytes rest h
  obtain ⟨hlength, hbytes⟩ := Takes.take_iff.1 h
  by_cases hn : n ≤ front.length
  · obtain ⟨mid, hfront, hrest⟩ := within_front hbytes (hlength ▸ hn)
    exact .inl ⟨mid, Takes.take_iff.2 ⟨hlength, hfront⟩, hrest⟩
  · exact .inr ⟨front, if_neg hn⟩

theorem block (n : Nat) : Streams (block n) := by
  intro front back b rest h
  by_cases hn : n ≤ front.length
  · obtain ⟨mid, hfront, hrest⟩ := within_front (Takes.block_iff.1 h) (b.length_octets.symm ▸ hn)
    exact .inl ⟨mid, Takes.block_iff.2 hfront, hrest⟩
  · exact .inr ⟨front, dif_neg hn⟩

theorem number (n : Nat) : Streams (number n) := (take n).map

theorem uint8 : Streams uint8 := (number 1).map

theorem bool : Streams bool := by
  refine uint8.bind fun byte => ?_
  split
  · exact .pure false
  · exact .pure true
  · exact throw _

theorem uint64 (required : Bool) : Streams (uint64 required) :=
  (number 8).map.bind fun _ => (require _ _).bind fun _ => .pure _

theorem int64 : Streams int64 := (number 8).map

theorem address : Streams address := (block 32).map

theorem prefixed (max : Nat) (required : Bool) : Streams (prefixed max required) :=
  (number 2).map.map.bind fun n => (require _ _).bind fun _ => (require _ _).bind fun _ => take n

end Streams

/-- Some values have an exact format: bytes are accepted as a value exactly if they are its written form, no written form
is a proper beginning of another, and bytes without their end or with more behind it are refused for that reason. -/
structure ExactFormat (encode : α → Except WireError Octets) (decode : Octets → Except WireError α) : Prop where
  accepted : ∀ bytes v, decode bytes = .ok v ↔ encode v = .ok bytes
  no_beginning : ∀ v v' bytes bytes', encode v = .ok bytes → encode v' = .ok bytes' → bytes <+: bytes' → bytes = bytes'
  truncated : ∀ v bytes lost, encode v = .ok (bytes ++ lost) → lost ≠ [] → decode bytes = .error .truncated
  extended : ∀ v bytes more, encode v = .ok bytes → more ≠ [] → decode (bytes ++ more) = .error .trailingBytes

namespace ExactFormat

variable {encode : α → Except WireError Octets} {r : Reader α}

/-- A reader that stops with an error refuses the bytes for it. -/
private theorem readAll_error {bytes left : Octets} {e : WireError} (h : r bytes = .error e left) :
    Reader.readAll r bytes = .error e := by
  have hfinish : (do let v ← r; Reader.finish; return v : Reader α) bytes = .error e left := by
    change EStateM.bind r _ bytes = _
    rw [EStateM.bind, h]
  rw [Reader.readAll, hfinish]

/-- A reader that leaves something refuses the bytes for that. -/
private theorem readAll_trailing {bytes rest : Octets} {v : α} (h : Takes r bytes v rest) (hrest : rest ≠ []) :
    Reader.readAll r bytes = .error .trailingBytes := by
  have hfinish : (do let v ← r; Reader.finish; return v : Reader α) bytes = .error .trailingBytes rest := by
    change EStateM.bind r _ bytes = _
    rw [EStateM.bind, h]
    change EStateM.bind Reader.finish _ rest = _
    rw [EStateM.bind, Reader.finish, if_neg (by simpa using hrest)]
  rw [Reader.readAll, hfinish]

/-- A format is exact if its reader takes only written forms and cannot look ahead. -/
theorem of_takes (htakes : ∀ input v rest, Takes r input v rest ↔ ∃ bytes, encode v = .ok bytes ∧ input = bytes ++ rest)
    (hstreams : Streams r) : ExactFormat encode (Reader.readAll r) := by
  have htaken {v : α} {bytes : Octets} (h : encode v = .ok bytes) (rest : Octets) : Takes r (bytes ++ rest) v rest :=
    (htakes _ v rest).2 ⟨bytes, h, rfl⟩
  have hwhole {v : α} {bytes : Octets} (h : encode v = .ok bytes) : Takes r bytes v [] := by
    simpa using htaken h []
  constructor
  case accepted =>
    intro bytes v
    rw [Takes.readAll_iff]
    refine ⟨fun h => ?_, hwhole⟩
    obtain ⟨written, hwritten, rfl⟩ := (htakes bytes v []).1 h
    rwa [List.append_nil]
  case no_beginning =>
    rintro v v' bytes _ h h' ⟨rest, rfl⟩
    obtain ⟨-, rfl⟩ := EStateM.Result.ok.inj ((hwhole h').symm.trans (htaken h rest))
    exact (List.append_nil bytes).symm
  case truncated =>
    intro v bytes lost h hlost
    obtain ⟨mid, -, hmid⟩ | ⟨left, hleft⟩ := hstreams bytes lost v [] (hwhole h)
    · exact absurd (List.append_eq_nil_iff.1 hmid.symm).2 hlost
    · exact readAll_error hleft
  case extended =>
    intro v bytes more h hmore
    exact readAll_trailing (htaken h more) hmore

end ExactFormat

section Kinds

open Takes

theorem Amount.exact : ExactFormat (fun v => .ok (encode v)) decode := .of_takes (by simp [encode]) (.uint64 false)

theorem AssetRecord.exact : ExactFormat encode decode := by
  refine .of_takes (fun input r rest => ?_) ?_
  · constructor
    · intro h
      simp only [read, bind_iff, prefixed_iff, uint8_iff, uint64_iff, address_iff, bool_iff, pure_iff] at h
      obtain ⟨symbol, _, ⟨-, -, written, hsymbol, rfl⟩, decimals, _, rfl, metadata, _, ⟨-, -, written', hmetadata, rfl⟩,
        supply, _, ⟨-, rfl⟩, maxSupply, _, ⟨-, rfl⟩, owner, _, rfl, bridged, _, rfl, rfl, rfl⟩ := h
      exact ⟨_, by rw [encode, hsymbol, hmetadata]; rfl, by simp⟩
    · rintro ⟨bytes, hbytes, rfl⟩
      exact (reads hbytes).takes rest
  · refine (Streams.prefixed _ _).bind fun _ => ?_
    refine Streams.uint8.bind fun _ => ?_
    refine (Streams.prefixed _ _).bind fun _ => ?_
    refine (Streams.uint64 _).bind fun _ => ?_
    refine (Streams.uint64 _).bind fun _ => ?_
    exact Streams.address.bind fun _ => Streams.bool.bind fun _ => .pure _

theorem NftRecord.exact : ExactFormat encode decode := by
  refine .of_takes (fun input r rest => ?_) ?_
  · constructor
    · intro h
      simp only [read, bind_iff, prefixed_iff, address_iff, pure_iff] at h
      obtain ⟨metadata, _, ⟨-, -, written, hmetadata, rfl⟩, owner, _, rfl, url, _, ⟨-, -, written', hurl, rfl⟩, rfl,
        rfl⟩ := h
      exact ⟨_, by rw [encode, hmetadata, hurl]; rfl, by simp⟩
    · rintro ⟨bytes, hbytes, rfl⟩
      exact (reads hbytes).takes rest
  · refine (Streams.prefixed _ _).bind fun _ => ?_
    exact Streams.address.bind fun _ => (Streams.prefixed _ _).bind fun _ => .pure _

private theorem Takes.resources_iff {input rest : Octets} {r : Resources} :
    Takes Resources.read input r rest ↔ input = r.octets ++ rest := by
  constructor
  · intro h
    simp only [Resources.read, bind_iff, uint64_iff, pure_iff] at h
    obtain ⟨bandwidth, _, ⟨-, rfl⟩, compute, _, ⟨-, rfl⟩, reads, _, ⟨-, rfl⟩, allocations, _, ⟨-, rfl⟩, writes, _,
      ⟨-, rfl⟩, rfl, rfl⟩ := h
    simp [Resources.octets, Resources.toList]
  · rintro rfl
    exact (Reads.resources r).takes rest

private theorem Streams.resources : Streams Resources.read := by
  refine (Streams.uint64 _).bind fun _ => ?_
  refine (Streams.uint64 _).bind fun _ => ?_
  refine (Streams.uint64 _).bind fun _ => ?_
  exact (Streams.uint64 _).bind fun _ => (Streams.uint64 _).bind fun _ => .pure _

theorem TransactionRecord.exact : ExactFormat (fun r => .ok (encode r)) decode := by
  refine .of_takes (fun input r rest => ?_) ?_
  · constructor
    · intro h
      simp only [read, bind_iff, int64_iff, bool_iff, resources_iff, uint64_iff, pure_iff] at h
      obtain ⟨timestamp, _, rfl, success, _, rfl, resources, _, rfl, fee, _, ⟨-, rfl⟩, rfl, rfl⟩ := h
      exact ⟨_, rfl, by simp [encode]⟩
    · rintro ⟨_, hbytes, rfl⟩
      rw [← Except.ok.inj hbytes]
      exact r.reads.takes rest
  · refine Streams.int64.bind fun _ => ?_
    refine Streams.bool.bind fun _ => ?_
    exact Streams.resources.bind fun _ => (Streams.uint64 _).bind fun _ => .pure _

end Kinds

section Lengths

/-- Only the length of a byte string can be in the way of writing it. -/
private theorem Wire.ofPrefixed_cases (bytes : Octets) :
    (bytes.length ≤ 65535 ∧ ∃ written, ofPrefixed bytes = .ok written) ∨
      (65535 < bytes.length ∧ ofPrefixed bytes = .error .tooLarge) := by
  by_cases h : bytes.length ≤ maxPrefixed
  · exact .inl ⟨h, ofPrefixed_isOk h⟩
  · exact .inr ⟨Nat.lt_of_not_le h, if_neg h⟩

/-- Two byte strings are written one after the other, each after its length, unless one of them is too long. -/
theorem Wire.two_ofPrefixed_error_iff {front back : Octets} {f : Octets → Octets → Octets} {e : WireError} :
    (do return f (← ofPrefixed front) (← ofPrefixed back) : Except WireError Octets) = .error e ↔
      e = .tooLarge ∧ (65535 < front.length ∨ 65535 < back.length) := by
  obtain ⟨hfront, written, hw⟩ | ⟨hfront, hw⟩ := ofPrefixed_cases front
  · obtain ⟨hback, written', hw'⟩ | ⟨hback, hw'⟩ := ofPrefixed_cases back
    · simp only [hw, hw', Nat.not_lt_of_le hfront, Nat.not_lt_of_le hback, or_self, and_false, iff_false]
      exact nofun
    · rw [hw, hw']
      constructor
      · rintro ⟨⟩
        exact ⟨rfl, .inr hback⟩
      · rintro ⟨rfl, -⟩
        rfl
  · rw [hw]
    constructor
    · rintro ⟨⟩
      exact ⟨rfl, .inl hfront⟩
    · rintro ⟨rfl, -⟩
      rfl

end Lengths

/-- The records and the amounts have exact formats. A record of an asset or of a token is written unless one of its byte
strings is longer than its length field can say. -/
theorem stored_formats_exact :
    ExactFormat AssetRecord.encode AssetRecord.decode ∧ ExactFormat NftRecord.encode NftRecord.decode ∧
    ExactFormat (fun r => .ok (TransactionRecord.encode r)) TransactionRecord.decode ∧
    ExactFormat (fun v => .ok (Amount.encode v)) Amount.decode ∧
    (∀ (r : AssetRecord) (e : WireError), r.encode = .error e ↔
      e = .tooLarge ∧ (65535 < r.symbol.length ∨ 65535 < r.metadata.length)) ∧
    ∀ (r : NftRecord) (e : WireError), r.encode = .error e ↔
      e = .tooLarge ∧ (65535 < r.metadata.length ∨ 65535 < r.url.length) :=
  ⟨AssetRecord.exact, NftRecord.exact, TransactionRecord.exact, Amount.exact,
    fun _ _ => Wire.two_ofPrefixed_error_iff, fun _ _ => Wire.two_ofPrefixed_error_iff⟩

end BridgeLedger
