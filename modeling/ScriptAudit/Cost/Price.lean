/-
Prices: fixed, depending on the player's source file 4, or worked out in some other way. A price that
makes no sense is kept as malformed, and costs nothing.
-/
import ScriptAudit.Cost.Player
import ScriptAudit.Json.Basic

namespace ScriptAudit

/-- Why a price or a sum of prices cannot be worked out. -/
inductive PricingError
  | amount (error : AmountError)
  /-- A price depends on the bitnode, and there is no player. -/
  | noBitnode
  /-- A price refuses to be worked out. -/
  | refused (reason : Text)

def PricingError.message : PricingError → Text
  | amount error => error.message
  | noBitnode => "'NoneType' object has no attribute 'bitnode'"
  | refused reason => reason

inductive Price
  | fixed (amount : Amount)
  /-- Falls with the level of source file 4. -/
  | bySourceFile (base : Amount)
  | computed (cost : Option Player → Except PricingError Amount)
  | malformed

/-- The source file that `bySourceFile` prices depend on. In the bitnode of the same number they are at
their lowest. -/
def pricingSourceFile : Int := 4

namespace Price

/-- How many times its base a `bySourceFile` price is. -/
def factor (player : Option Player) : Int :=
  match player with
  | none => 16
  | some p =>
    if p.bitnode = pricingSourceFile then 1
    else if p.level pricingSourceFile ≤ 1 then 16
    else if p.level pricingSourceFile = 2 then 4
    else 1

/-- What is paid. -/
def cost (player : Option Player) : Price → Except PricingError Amount
  | fixed amount => .ok amount
  | bySourceFile base =>
    if factor player = 1 then .ok base
    else (base.mul (.whole (factor player))).mapError .amount
  | computed cost => cost player
  | malformed => .ok .zero

/-- The key of a price that depends on the source file. -/
def sourceFileKey : Text := "sf4"

/-- A number is a fixed price, and an object with nothing but a number for `sf4` a price that depends on
the source file. Nothing else is a price. -/
def ofJson? : Json → Option Price
  | .number amount => some (.fixed amount)
  | .object [(key, .number base)] => if key == sourceFileKey then some (.bySourceFile base) else none
  | _ => none

end Price

end ScriptAudit
