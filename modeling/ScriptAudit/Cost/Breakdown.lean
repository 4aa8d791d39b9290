/-
Breakdowns: what a script costs and why. Each name counts once, in the order of first use and after the
base price. Only lines with a positive cost are kept, and the total is their sum from the top.
-/
import ScriptAudit.Cost.Catalog
import ScriptAudit.Script.Imports

namespace ScriptAudit

/-- One line of a breakdown. -/
structure UsageEntry where
  kind : UsageKind
  name : Text
  cost : Amount

structure Breakdown where
  total : Amount
  entries : List UsageEntry

def baseEntryName : Text := "baseCost"

namespace PriceList

/-- Whether a name has a price at all. -/
def knows (list : PriceList) (name : Text) : Bool :=
  (list.constants.specials.get? name).isSome || (list.catalog.lookup name).isSome

/-- The line of a name. A name without a price costs nothing. -/
def resolve (list : PriceList) (player : Option Player) (name : Text) : Except PricingError UsageEntry :=
  match list.constants.specials.get? name with
  | some (kind, cost) => .ok ⟨kind, name, cost⟩
  | none =>
    match list.catalog.lookup name with
    | none => .ok ⟨.function, name, .zero⟩
    | some (shown, price) => do return ⟨.function, shown, ← price.cost player⟩

/-- The lines of the base price and of all names. -/
def entries (list : PriceList) (player : Option Player) (names : List Text) :
    Except PricingError (List UsageEntry) := do
  return ⟨.base, baseEntryName, list.constants.base⟩ :: (← names.eraseDups.mapM (list.resolve player))

/-- What it costs to use these names. -/
def aggregate (list : PriceList) (player : Option Player) (names : List Text) :
    Except PricingError Breakdown := do
  let priced := (← list.entries player names).filter (·.cost.isPositive)
  return ⟨← (Amount.sum (priced.map (·.cost))).mapError .amount, priced⟩

end PriceList

/-- Why the cost of a script is not known. -/
inductive UsageError
  | audit (error : AuditError)
  | pricing (error : PricingError)

/-- What it costs to run a script, with everything it imports. -/
def Scripts.usage (scripts : Scripts) (filename : Text) (list : PriceList) (player : Option Player) :
    Except UsageError Breakdown := do
  let names ← (scripts.collectNames filename).mapError .audit
  (list.aggregate player names).mapError .pricing

/-! ## Records -/

def UsageEntry.record (e : UsageEntry) : Json :=
  .object [("type", .ofString e.kind.name), ("name", .string e.name), ("cost", .number e.cost)]

/-- The fields of a breakdown's record. -/
def Breakdown.fields (b : Breakdown) : List (Text × Json) :=
  [("cost", .number b.total), ("entries", .array (b.entries.map UsageEntry.record))]

end ScriptAudit
