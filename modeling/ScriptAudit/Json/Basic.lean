/-
JSON values. Numbers keep the difference between whole and binary ones, and an object is a table that
keeps the order of its keys.
-/
import ScriptAudit.Number.Amount
import ScriptAudit.Table

namespace ScriptAudit

inductive Json
  | null
  | bool (truth : Bool)
  | number (amount : Amount)
  | string (text : Text)
  | array (items : List Json)
  | object (fields : List (Text × Json))

namespace Json

def ofInt (n : Int) : Json := .number (.whole n)

def ofString (s : String) : Json := .string s

end Json

end ScriptAudit
