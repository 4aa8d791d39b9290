/-
Catalogs: tables of prices by name. A name is looked for in the tables of the namespaces, in the order of
the priority list, and then in the default table. Namespaces that are not in the list are never looked
at. A few names have prices of their own, whatever the catalog says.
-/
import ScriptAudit.Cost.Price

namespace ScriptAudit

structure Catalog where
  default : Table Text Price
  namespaces : Table Text (Table Text Price)
  priority : List Text

namespace Catalog

def defaultPriority : List Text :=
  ["bladeburner", "codingcontract", "stanek", "gang", "sleeve", "stock", "ui"]

/-- The price of a name in a namespace. -/
def inNamespace? (c : Catalog) (name ns : Text) : Option Price :=
  (c.namespaces.get? ns).bind (·.get? name)

/-- A name as it is displayed, after that of its namespace and a dot. -/
def qualified (ns name : Text) : Text := ns ++ "." ++ name

/-- The name as it is displayed, and its price. -/
def lookup (c : Catalog) (name : Text) : Option (Text × Price) :=
  match c.priority.findSome? fun ns => (c.inNamespace? name ns).map fun price => (qualified ns name, price) with
  | some found => some found
  | none => (c.default.get? name).map fun price => (name, price)

end Catalog

/-! ## Prices outside the tables -/

/-- What is paid for: a part of the game's engine, the page's document, a function, or running at all. -/
inductive UsageKind
  | engine
  | dom
  | function
  | base
  deriving DecidableEq

def UsageKind.name : UsageKind → String
  | engine => "ns"
  | dom => "dom"
  | function => "fn"
  | base => "misc"

structure Constants where
  base : Amount
  hacknet : Amount
  dom : Amount
  corporation : Amount

namespace Constants

def standard : Constants where
  base := .real 1.6
  hacknet := .whole 4
  dom := .whole 25
  corporation := .real (1024 - 1.6)

/-- The names with prices of their own. -/
def specials (c : Constants) : Table Text (UsageKind × Amount) :=
  [("hacknet", .engine, c.hacknet), ("document", .dom, c.dom), ("window", .dom, c.dom),
   ("corporation", .engine, c.corporation)]

end Constants

/-- A catalog with the prices outside its tables. -/
structure PriceList where
  catalog : Catalog
  constants : Constants

end ScriptAudit
