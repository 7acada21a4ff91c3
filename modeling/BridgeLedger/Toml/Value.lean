/-! Values of a TOML document. -/
namespace BridgeLedger.Toml

/-- A value. Of a float and of a date or time only the presence is kept: no setting has such a value. -/
inductive Value where
  | text (s : String)
  | integer (n : Int)
  | boolean (b : Bool)
  | float
  | dateTime
  | array (values : List Value)
  | table (entries : List (String × Value))

end BridgeLedger.Toml
