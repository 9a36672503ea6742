/-!
# TOML values

A document is a tree of values.  Floats and dates are kept as they are written,
because nothing here computes with them.
-/

namespace CallResolution
namespace Toml

/-- A value of a document. -/
inductive Value where
  | string (text : String)
  | integer (number : Int)
  | float (written : String)
  | boolean (flag : Bool)
  | dateTime (written : String)
  | array (items : List Value)
  | table (entries : List (String × Value))

end Toml
end CallResolution
