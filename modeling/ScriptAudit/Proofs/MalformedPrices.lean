/-
Malformed prices are prices of zero. A document in which zero stands for every malformed price
(`Json.zeroed`) is read like the document itself, and what comes of it is the same price list with zero for
every malformed price (`ofJson_zeroed`). Neither costs anything, so no breakdown tells the two apart.

A malformed price is a price all the same: the name is found where it stands, and no table further down is
looked at (`resolve_of_malformed`).
-/
import ScriptAudit.Proofs.Normalisation
import ScriptAudit.Proofs.Outcomes
import ScriptAudit.Proofs.WholePrices

namespace ScriptAudit

/-! ## Zero in place of malformed prices -/

namespace Json

/-- A number, or an object with nothing but a number for `sf4`. -/
def isPrice : Json → Bool
  | .number _ => true
  | .object [(key, .number _)] => key == Text.ofString "sf4"
  | _ => false

def priceOrZero (value : Json) : Json := if value.isPrice then value else .ofInt 0

/-- The object with other values in its fields. What is no object stays as it is. -/
def mapFields (f : Text → Json → Json) : Json → Json
  | .object fields => .object (Table.mapValues fields f)
  | value => value

def zeroedTable (table : Json) : Json := table.mapFields fun _ value => value.priceOrZero

def zeroedField (key : Text) (value : Json) : Json :=
  if key = Text.ofString "default" then value.zeroedTable
  else if key = Text.ofString "namespaces" then value.mapFields fun _ table => table.zeroedTable
  else value

/-- The document with zero for every malformed price, in the default table and in those of all
namespaces. -/
def zeroed (document : Json) : Json := document.mapFields zeroedField

/-- What the table of a namespace has for a name. -/
def inNamespace? (document : Json) (ns name : Text) : Option Json :=
  ((document.field? "namespaces").bind (·.field? ns)).bind (·.field? name)

end Json

namespace Price

/-- The price that a value stands for, malformed or not. -/
def ofValue (value : Json) : Price := (ofJson? value).getD .malformed

/-- Zero, if the price is malformed. -/
def zeroed : Price → Price
  | .malformed => .fixed .zero
  | price => price

theorem isSome_ofJson? (value : Json) : (ofJson? value).isSome = value.isPrice := by
  fun_cases Json.isPrice value with
  | case1 amount => rfl
  | case2 key base =>
    show (if _ then some _ else none : Option Price).isSome = (_ == sourceFileKey)
    split <;> simp_all
  | case3 value hnumber hobject =>
    unfold ofJson?
    split <;> simp_all

theorem ofValue_of_not_isPrice {value : Json} (h : value.isPrice = false) : ofValue value = .malformed := by
  have hnone : ofJson? value = none := by simpa [← isSome_ofJson?] using h
  rw [ofValue, hnone, Option.getD_none]

theorem ofValue_priceOrZero (value : Json) : ofValue value.priceOrZero = (ofValue value).zeroed := by
  cases hprice : value.isPrice with
  | false =>
    simp only [Json.priceOrZero, hprice, Bool.false_eq_true, if_false, ofValue_of_not_isPrice hprice]
    rfl
  | true =>
    obtain ⟨price, hread⟩ := Option.isSome_iff_exists.mp ((isSome_ofJson? value).trans hprice)
    simp only [Json.priceOrZero, hprice, if_true, ofValue, hread, Option.getD_some]
    rcases cases_of_ofJson? hread with ⟨_, -, rfl⟩ | ⟨_, _, -, rfl⟩ <;> rfl

theorem cost_zeroed (price : Price) (player : Option Player) : price.zeroed.cost player = price.cost player := by
  cases price <;> rfl

end Price

/-- The table with zero for every malformed price. -/
def Table.zeroed (table : Table Text Price) : Table Text Price := table.mapValues fun _ => Price.zeroed

namespace Catalog

def zeroed (c : Catalog) : Catalog where
  default := c.default.zeroed
  namespaces := c.namespaces.mapValues fun _ => Table.zeroed
  priority := c.priority

theorem inNamespace?_zeroed (c : Catalog) (name ns : Text) :
    c.zeroed.inNamespace? name ns = (c.inNamespace? name ns).map Price.zeroed := by
  simp only [inNamespace?, zeroed, Table.get?_mapValues]
  cases c.namespaces.get? ns with
  | none => rfl
  | some table => exact Table.get?_mapValues table _ name

/-- A name is found in the same place. -/
theorem lookup_zeroed (c : Catalog) (name : Text) :
    c.zeroed.lookup name = (c.lookup name).map fun found => (found.1, found.2.zeroed) := by
  have hsearch : (c.priority.findSome? fun ns =>
        (c.zeroed.inNamespace? name ns).map fun price => (qualified ns name, price)) =
      (c.priority.findSome? fun ns => (c.inNamespace? name ns).map fun price => (qualified ns name, price)).map
        fun found => (found.1, found.2.zeroed) := by
    rw [List.map_findSome?]
    congr 1
    funext ns
    rw [inNamespace?_zeroed, Option.map_map]
    simp [Function.comp_def]
  have hdefault : c.zeroed.default.get? name = (c.default.get? name).map Price.zeroed :=
    Table.get?_mapValues c.default (fun _ => Price.zeroed) name
  unfold lookup
  rw [show c.zeroed.priority = c.priority from rfl, hsearch, hdefault]
  cases c.priority.findSome? fun ns => (c.inNamespace? name ns).map fun price => (qualified ns name, price) with
  | some found => rfl
  | none => cases c.default.get? name <;> rfl

end Catalog

namespace PriceList

def zeroed (list : PriceList) : PriceList := ⟨list.catalog.zeroed, list.constants⟩

/-- **Malformed prices cost what zero costs.** -/
theorem aggregate_zeroed (list : PriceList) (player : Option Player) (names : List Text) :
    list.zeroed.aggregate player names = list.aggregate player names := by
  have hresolve : list.zeroed.resolve player = list.resolve player := by
    funext name
    unfold resolve
    simp only [zeroed, Catalog.lookup_zeroed]
    cases list.catalog.lookup name with
    | none => rfl
    | some found => simp only [Option.map_some, Price.cost_zeroed]
  simp only [aggregate, entries, hresolve]
  rfl

/-! ## Reading zeroed documents -/

/-- Every value has a price, with or without a warning. -/
@[simp]
theorem result_readPrice (place : Text) (value : Json) :
    (readPrice place value).result = .ok (Price.ofValue value) := by
  unfold readPrice Price.ofValue
  cases Price.ofJson? value <;> rfl

theorem result_readTable (label source : Text) (fields : List (Text × Json)) :
    (readTable label source (.object fields)).result = .ok (Table.mapValues fields fun _ => Price.ofValue) := by
  simp only [readTable, Noted.result_mapM, Noted.result_bind, result_readPrice, Noted.result_pure]
  exact List.mapM_pure

theorem result_readTable_zeroed (label source : Text) (table : Json) :
    (readTable label source table.zeroedTable).result = (readTable label source table).result.map Table.zeroed := by
  cases table with
  | object fields =>
    rw [Json.zeroedTable, Json.mapFields, result_readTable, result_readTable]
    simp [Except.map, Table.zeroed, Table.mapValues, Price.ofValue_priceOrZero]
  | _ => rfl

theorem result_readNamespaces (source : Text) (fields : List (Text × Json)) :
    (readNamespaces source (.object fields)).result =
      fields.mapM fun field => (readTable field.1 source field.2).result.map fun table => (field.1, table) := by
  simp only [readNamespaces, Noted.result_mapM, Noted.result_bind, Noted.result_pure]
  congr 1

theorem result_readNamespaces_zeroed (source : Text) (tables : Json) :
    (readNamespaces source (tables.mapFields fun _ table => table.zeroedTable)).result =
      (readNamespaces source tables).result.map fun tables => tables.mapValues fun _ => Table.zeroed := by
  cases tables with
  | object fields =>
    have htable : ∀ field : Text × Json,
        ((readTable field.1 source field.2.zeroedTable).result.map fun table => (field.1, table)) =
          ((readTable field.1 source field.2).result.map fun table => (field.1, table)).map
            fun entry => (entry.1, entry.2.zeroed) := by
      intro field
      rw [result_readTable_zeroed]
      cases (readTable field.1 source field.2).result <;> rfl
    rw [Json.mapFields, result_readNamespaces, result_readNamespaces, Table.mapValues, List.mapM_map]
    simp only [Function.comp_def, htable, Except.mapM_map]
    rfl
  | _ => rfl

/-- What a document says, part by part. -/
theorem result_ofJson (source : Text) (fields : List (Text × Json)) :
    (ofJson source (.object fields)).result = do
      let default ← (readTable "default" source ((Table.get? fields "default").getD (.object []))).result
      let namespaces ← (readNamespaces source ((Table.get? fields "namespaces").getD (.object []))).result
      let priority ← (readPriority source
        ((Table.get? fields "priority").getD (.array (Catalog.defaultPriority.map .string)))).result
      let constants ← (readConstants source ((Table.get? fields "constants").getD .null)).result
      return ⟨⟨default, namespaces, priority⟩, constants⟩ := by
  simp only [ofJson, Noted.result_bind, Noted.result_pure]
  rfl

theorem getD_zeroedField (fields : List (Text × Json)) (name : Text) {absent : Json}
    (h : Json.zeroedField name absent = absent) :
    (Table.get? (Table.mapValues fields Json.zeroedField) name).getD absent =
      Json.zeroedField name ((Table.get? fields name).getD absent) := by
  rw [Table.get?_mapValues]
  cases Table.get? fields name with
  | none => exact h.symm
  | some value => rfl

/-- A zeroed document has zeroed prices, and is refused for the same reason if it is refused. -/
theorem ofJson_zeroed (source : Text) (document : Json) :
    (ofJson source document.zeroed).result = (ofJson source document).result.map zeroed := by
  cases document with
  | object fields =>
    have hdefault (value : Json) : Json.zeroedField "default" value = value.zeroedTable := rfl
    have hnamespaces (value : Json) :
        Json.zeroedField "namespaces" value = value.mapFields fun _ table => table.zeroedTable := rfl
    have hpriority (value : Json) : Json.zeroedField "priority" value = value := rfl
    have hconstants (value : Json) : Json.zeroedField "constants" value = value := rfl
    rw [Json.zeroed, Json.mapFields, result_ofJson, result_ofJson, getD_zeroedField _ _ rfl,
      getD_zeroedField _ _ rfl, getD_zeroedField _ _ (hpriority _), getD_zeroedField _ _ (hconstants _),
      hdefault, hnamespaces, hpriority, hconstants, result_readTable_zeroed, result_readNamespaces_zeroed]
    cases (readTable "default" source ((Table.get? fields "default").getD (.object []))).result with
    | error error => rfl
    | ok default =>
      cases (readNamespaces source ((Table.get? fields "namespaces").getD (.object []))).result with
      | error error => rfl
      | ok namespaces =>
        simp only [Except.map, bind, Except.bind]
        split
        · rfl
        · split <;> rfl
  | _ => rfl

/-! ## Where malformed prices stand -/

/-- The prices of a table, with those that are malformed. -/
def tableOf : Json → Table Text Price
  | .object fields => Table.mapValues fields fun _ => Price.ofValue
  | _ => []

theorem get?_tableOf (table : Json) (name : Text) :
    (tableOf table).get? name = (table.field? name).map Price.ofValue := by
  cases table with
  | object fields => exact Table.get?_mapValues fields (fun _ => Price.ofValue) name
  | _ => rfl

theorem eq_tableOf_of_readTable {label source : Text} {value : Json} {table : Table Text Price}
    (h : (readTable label source value).result = .ok table) : table = tableOf value := by
  cases value with
  | object fields =>
    rw [result_readTable] at h
    cases h
    rfl
  | _ => cases h

theorem get?_of_readNamespaces {source : Text} {value : Json} {tables : Table Text (Table Text Price)}
    (h : (readNamespaces source value).result = .ok tables) (ns : Text) :
    tables.get? ns = (value.field? ns).map tableOf := by
  cases value with
  | object fields =>
    rw [result_readNamespaces] at h
    have htables : Table.mapValues fields (fun _ => tableOf) = tables := by
      rw [Table.mapValues, ← List.forall₂_eq_eq_eq, List.forall₂_map_left_iff]
      refine (Except.forall₂_of_mapM h).imp fun field entry hentry => ?_
      cases htable : (readTable field.1 source field.2).result with
      | error error => rw [htable] at hentry; cases hentry
      | ok table =>
        rw [htable] at hentry
        cases hentry
        rw [eq_tableOf_of_readTable htable]
    rw [← htables]
    exact Table.get?_mapValues fields (fun _ => tableOf) ns
  | _ => cases h

/-- A catalog has in its namespaces what the document has there. -/
theorem inNamespace?_of_ofJson {source : Text} {document : Json} {list : PriceList}
    (h : (ofJson source document).result = .ok list) (ns name : Text) :
    list.catalog.inNamespace? name ns = (document.inNamespace? ns name).map Price.ofValue := by
  obtain ⟨fields, rfl, -, hnamespaces, -⟩ := parts_of_ofJson h
  rw [Catalog.inNamespace?, get?_of_readNamespaces hnamespaces, Json.inNamespace?, Json.field?]
  cases Table.get? fields (Text.ofString "namespaces") with
  | none => rfl
  | some tables =>
    simp only [Option.getD_some, Option.bind_some]
    cases tables.field? ns with
    | none => rfl
    | some table => exact get?_tableOf table name

/-- A malformed price hides what comes after it. -/
theorem resolve_of_malformed {source : Text} {document : Json} {list : PriceList}
    (h : (ofJson source document).result = .ok list) {before after : List Text} {ns name : Text} {value : Json}
    (hpriority : list.catalog.priority = before ++ ns :: after)
    (hbefore : ∀ other ∈ before, document.inNamespace? other name = none)
    (hvalue : document.inNamespace? ns name = some value) (hmalformed : value.isPrice = false)
    (hname : name ∉ Constants.specialNames) (player : Option Player) :
    list.resolve player name = .ok ⟨.function, Catalog.qualified ns name, .zero⟩ := by
  have hspecial : list.constants.specials.get? name = none := by
    cases hget : list.constants.specials.get? name with
    | none => rfl
    | some special => exact absurd (Table.mem_keys_of_get? hget) hname
  have hnone : (before.findSome? fun other => (list.catalog.inNamespace? name other).map fun price =>
      (Catalog.qualified other name, price)) = none := by
    rw [List.findSome?_eq_none_iff]
    intro other hother
    rw [inNamespace?_of_ofJson h, hbefore other hother]
    rfl
  have hlookup : list.catalog.lookup name = some (Catalog.qualified ns name, .malformed) := by
    rw [Catalog.lookup, hpriority, List.findSome?_append, hnone, List.findSome?_cons,
      inNamespace?_of_ofJson h, hvalue]
    simp only [Option.map_some, Price.ofValue_of_not_isPrice hmalformed, Option.none_or]
  simp only [resolve, hspecial, hlookup]
  rfl

/-- **A malformed price is a price of zero.** A document that is accepted is accepted with zero in place of
every malformed price, too, with the same priority list and constants, and all names cost the same for every
player, or fail in the same way. In particular, where a namespace has a malformed price for a name and none
before it has the name, the name costs nothing, whatever is in the other tables. -/
theorem aggregate_of_zeroed {source : Text} {document : Json} {list : PriceList}
    (h : (ofJson source document).result = .ok list) :
    ∃ list', (ofJson source document.zeroed).result = .ok list' ∧
      list'.catalog.priority = list.catalog.priority ∧ list'.constants = list.constants ∧
      (∀ player names, list'.aggregate player names = list.aggregate player names) ∧
      ∀ before ns after name value, list.catalog.priority = before ++ ns :: after →
        (∀ other ∈ before, document.inNamespace? other name = none) →
        document.inNamespace? ns name = some value → value.isPrice = false →
        name ∉ Constants.specialNames →
        ∀ player, list.resolve player name = .ok ⟨.function, Catalog.qualified ns name, .zero⟩ := by
  refine ⟨list.zeroed, ?_, rfl, rfl, list.aggregate_zeroed, ?_⟩
  · rw [ofJson_zeroed, h]
    rfl
  · intro before ns after name value hpriority hbefore hvalue hmalformed hname player
    exact resolve_of_malformed h hpriority hbefore hvalue hmalformed hname player

/-- The first namespace has a malformed price for `f`, the second and the default table a good one. -/
def hiddenPrices : Json :=
  .object [("default", .object [("f", .ofInt 2), ("g", .bool true)]),
    ("namespaces", .object [("gang", .object [("f", .object [("sf4", .null)])]),
      ("stock", .object [("f", .ofInt 5), ("h", .object [("sf4", .ofInt 3)])])]),
    ("priority", .array [.string "ui", .string "gang", .string "stock"])]

def hiddenList : PriceList where
  catalog :=
    ⟨[("f", .fixed (.whole 2)), ("g", .malformed)],
      [("gang", [("f", .malformed)]), ("stock", [("f", .fixed (.whole 5)), ("h", .bySourceFile (.whole 3))])],
      ["ui", "gang", "stock"]⟩
  constants := .standard

theorem aggregate_of_zeroed_hidden : (ofJson "prices.json" hiddenPrices).result = .ok hiddenList ∧
    (∃ list', (ofJson "prices.json" hiddenPrices.zeroed).result = .ok list' ∧
      list'.catalog.inNamespace? "f" "gang" = some (.fixed (.whole 0)) ∧
      ∀ player names, list'.aggregate player names = hiddenList.aggregate player names) ∧
    ∀ player, hiddenList.resolve player "f" = .ok ⟨.function, "gang.f", .zero⟩ := by
  have hlist : (ofJson "prices.json" hiddenPrices).result = .ok hiddenList := by rfl
  obtain ⟨list', hlist', -, -, hnames, hhides⟩ := aggregate_of_zeroed hlist
  have hgang : list'.catalog.inNamespace? "f" "gang" = some (.fixed (.whole 0)) := by
    rw [inNamespace?_of_ofJson hlist']
    rfl
  refine ⟨hlist, ⟨list', hlist', hgang, hnames⟩, ?_⟩
  exact hhides ["ui"] "gang" ["stock"] "f" (.object [("sf4", .null)]) rfl (by decide) rfl rfl (by decide)

end PriceList

end ScriptAudit
