/-! Faults of the binary wire format. -/
namespace BridgeLedger

inductive WireError where
  | truncated
  | trailingBytes
  /-- a byte string exceeds the limit of its field -/
  | tooLarge
  /-- a field that must not be zero or empty is -/
  | missing
  /-- a truth value is neither zero nor one -/
  | invalidBool
  /-- a ninth field in an optional section -/
  | optionalOverflow
  | invalidObject
deriving DecidableEq

def WireError.message : WireError → String
  | .truncated => "unexpected end of input"
  | .trailingBytes => "trailing bytes"
  | .tooLarge => "field exceeds size limit"
  | .missing => "required field is empty"
  | .invalidBool => "invalid bool byte"
  | .optionalOverflow => "too many optional fields"
  | .invalidObject => "invalid object"

end BridgeLedger
