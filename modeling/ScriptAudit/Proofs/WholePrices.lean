/-
Prices in whole amounts. Every price of a catalog is read off a value in its document
(`exists_value_of_ofJson`), so a document with nothing but whole numbers has whole prices, and where it sets
all constants nothing is left of the standard ones (`whole_of_ofJson`). With whole prices no line fails, and
the player matters through one factor only (`Whole.resolve_eq`), so what names cost is a sum of whole numbers
(`Whole.aggregate_eq`).
-/
import Mathlib.Algebra.Order.Ring.Int
import ScriptAudit.Cost.Breakdown
import ScriptAudit.Cost.Document

namespace ScriptAudit

theorem Table.exists_of_get? {κ α : Type} [BEq κ] {t : Table κ α} {key : κ} {value : α}
    (h : t.get? key = some value) : ∃ entry ∈ t, entry.2 = value := by
  obtain ⟨entry, hentry, rfl⟩ := Option.map_eq_some_iff.mp h
  exact ⟨entry, List.mem_of_find?_eq_some hentry, rfl⟩

namespace Noted

variable {ν ε α β : Type}

theorem result_bind_eq_ok {x : Noted ν ε α} {f : α → Noted ν ε β} {b : β} :
    (x >>= f).result = .ok b ↔ ∃ a, x.result = .ok a ∧ (f a).result = .ok b := by
  obtain ⟨notes, result⟩ := x
  cases result with
  | error error => exact ⟨nofun, fun ⟨_, h, _⟩ => nomatch h⟩
  | ok a => exact ⟨fun h => ⟨a, rfl, h⟩, fun ⟨_, ha, h⟩ => by cases ha; exact h⟩

theorem result_pure_eq_ok {a b : α} : (pure a : Noted ν ε α).result = .ok b ↔ a = b :=
  ⟨fun h => by cases h; rfl, fun h => by rw [h]; rfl⟩

/-- What comes of a list comes of its members. -/
theorem exists_of_mem_mapM {f : α → Noted ν ε β} {as : List α} {bs : List β}
    (h : (as.mapM f).result = .ok bs) : ∀ b ∈ bs, ∃ a ∈ as, (f a).result = .ok b := by
  have hloop : ∀ (as : List α) (done bs : List β), (List.mapM.loop f as done).result = .ok bs →
      ∀ b ∈ bs, b ∈ done ∨ ∃ a ∈ as, (f a).result = .ok b := by
    intro as
    induction as with
    | nil =>
      intro done bs h b hb
      rw [List.mapM.loop, result_pure_eq_ok] at h
      rw [← h, List.mem_reverse] at hb
      exact .inl hb
    | cons a as ih =>
      intro done bs h b hb
      rw [List.mapM.loop, result_bind_eq_ok] at h
      obtain ⟨c, hc, h⟩ := h
      rcases ih (c :: done) bs h b hb with hmem | ⟨a', ha', hb⟩
      · rcases List.mem_cons.mp hmem with rfl | hmem
        · exact .inr ⟨a, List.mem_cons_self, hc⟩
        · exact .inl hmem
      · exact .inr ⟨a', List.mem_cons_of_mem _ ha', hb⟩
  intro b hb
  exact (hloop as [] bs h b hb).resolve_left List.not_mem_nil

end Noted

/-! ## Where the prices of a document stand -/

/-- A value is that of a field of an object, or of a field further inside it. -/
inductive Json.Inside : Json → Json → Prop
  | field {fields : List (Text × Json)} {field : Text × Json} (hmem : field ∈ fields) :
      Inside field.2 (.object fields)
  | deeper {fields : List (Text × Json)} {field : Text × Json} {value : Json} (hmem : field ∈ fields)
      (h : Inside value field.2) : Inside value (.object fields)

/-- A price is what a value says, or malformed. -/
def Price.ReadFrom (value : Json) (price : Price) : Prop :=
  ofJson? value = some price ∨ price = .malformed

theorem Price.cases_of_ofJson? {value : Json} {price : Price} (h : ofJson? value = some price) :
    (∃ amount, value = .number amount ∧ price = .fixed amount) ∨
      ∃ key base, value = .object [(key, .number base)] ∧ price = .bySourceFile base := by
  unfold ofJson? at h
  split at h
  · cases h
    exact .inl ⟨_, rfl, rfl⟩
  · split at h
    · cases h
      exact .inr ⟨_, _, rfl, rfl⟩
    · cases h
  · cases h

/-- The prices of all tables. -/
def Catalog.prices (c : Catalog) : List Price :=
  c.default.map (·.2) ++ c.namespaces.flatMap fun table => table.2.map (·.2)

theorem Catalog.mem_prices_iff {c : Catalog} {price : Price} :
    price ∈ c.prices ↔ (∃ entry ∈ c.default, entry.2 = price) ∨
      ∃ table ∈ c.namespaces, ∃ entry ∈ table.2, entry.2 = price := by
  simp only [prices, List.mem_append, List.mem_map, List.mem_flatMap]

/-- A name is found in a namespace and displayed after it, or it is found in the default table and displayed alone. -/
theorem Catalog.lookup_cases {c : Catalog} {name shown : Text} {price : Price}
    (h : c.lookup name = some (shown, price)) :
    (∃ ns, shown = qualified ns name ∧ c.inNamespace? name ns = some price) ∨
      shown = name ∧ c.default.get? name = some price := by
  unfold lookup at h
  split at h
  · rename_i found hfound
    cases h
    obtain ⟨ns, -, hns⟩ := List.exists_of_findSome?_eq_some hfound
    obtain ⟨price', hprice, heq⟩ := Option.map_eq_some_iff.mp hns
    cases heq
    exact .inl ⟨ns, rfl, hprice⟩
  · obtain ⟨price', hprice, heq⟩ := Option.map_eq_some_iff.mp h
    cases heq
    exact .inr ⟨rfl, hprice⟩

theorem Catalog.mem_prices_of_lookup {c : Catalog} {name shown : Text} {price : Price}
    (h : c.lookup name = some (shown, price)) : price ∈ c.prices := by
  rw [mem_prices_iff]
  obtain ⟨ns, -, hprice⟩ | ⟨-, hprice⟩ := lookup_cases h
  · obtain ⟨table, htable, hget⟩ := Option.bind_eq_some_iff.mp hprice
    obtain ⟨entry, hentry, rfl⟩ := Table.exists_of_get? htable
    obtain ⟨entry', hentry', rfl⟩ := Table.exists_of_get? hget
    exact .inr ⟨entry, hentry, entry', hentry', rfl⟩
  · obtain ⟨entry, hentry, rfl⟩ := Table.exists_of_get? hprice
    exact .inl ⟨entry, hentry, rfl⟩

namespace PriceList

theorem readFrom_of_readPrice {place : Text} {value : Json} {price : Price}
    (h : (readPrice place value).result = .ok price) : price.ReadFrom value := by
  unfold readPrice at h
  split at h
  · rename_i found hfound
    rw [← Noted.result_pure_eq_ok.mp h]
    exact .inl hfound
  · obtain ⟨-, -, h⟩ := Noted.result_bind_eq_ok.mp h
    exact .inr (Noted.result_pure_eq_ok.mp h).symm

theorem exists_value_of_readTable {label source : Text} {document : Json} {table : Table Text Price}
    (h : (readTable label source document).result = .ok table) :
    ∀ entry ∈ table, ∃ value, value.Inside document ∧ entry.2.ReadFrom value := by
  intro entry hentry
  cases document with
  | object fields =>
    obtain ⟨field, hfield, h⟩ := Noted.exists_of_mem_mapM h entry hentry
    obtain ⟨price, hprice, h⟩ := Noted.result_bind_eq_ok.mp h
    rw [← Noted.result_pure_eq_ok.mp h]
    exact ⟨field.2, .field hfield, readFrom_of_readPrice hprice⟩
  | _ => cases h

theorem exists_value_of_readNamespaces {source : Text} {document : Json}
    {tables : Table Text (Table Text Price)} (h : (readNamespaces source document).result = .ok tables) :
    ∀ table ∈ tables, ∀ entry ∈ table.2, ∃ value, value.Inside document ∧ entry.2.ReadFrom value := by
  intro table htable entry hentry
  cases document with
  | object fields =>
    obtain ⟨field, hfield, h⟩ := Noted.exists_of_mem_mapM h table htable
    obtain ⟨prices, hprices, h⟩ := Noted.result_bind_eq_ok.mp h
    rw [← Noted.result_pure_eq_ok.mp h] at hentry
    obtain ⟨value, hvalue, hread⟩ := exists_value_of_readTable hprices entry hentry
    exact ⟨value, .deeper hfield hvalue, hread⟩
  | _ => cases h

/-- What is inside a field is inside the object; inside a missing field is nothing. -/
theorem inside_of_getD {fields : List (Text × Json)} {name : Text} {value : Json}
    (h : value.Inside ((Table.get? fields name).getD (.object []))) : value.Inside (.object fields) := by
  cases hget : Table.get? fields name with
  | none =>
    rw [hget] at h
    cases h <;> contradiction
  | some found =>
    rw [hget] at h
    obtain ⟨field, hfield, rfl⟩ := Table.exists_of_get? hget
    exact .deeper hfield h

/-- What reading a document comes to, part by part. -/
theorem parts_of_ofJson {source : Text} {document : Json} {list : PriceList}
    (h : (ofJson source document).result = .ok list) : ∃ fields, document = .object fields ∧
      (readTable "default" source ((Table.get? fields "default").getD (.object []))).result =
        .ok list.catalog.default ∧
      (readNamespaces source ((Table.get? fields "namespaces").getD (.object []))).result =
        .ok list.catalog.namespaces ∧
      (readConstants source ((Table.get? fields "constants").getD .null)).result = .ok list.constants := by
  cases document with
  | object fields =>
    obtain ⟨default, hdefault, h⟩ := Noted.result_bind_eq_ok.mp h
    obtain ⟨namespaces, hnamespaces, h⟩ := Noted.result_bind_eq_ok.mp h
    obtain ⟨priority, -, h⟩ := Noted.result_bind_eq_ok.mp h
    obtain ⟨-, -, h⟩ := Noted.result_bind_eq_ok.mp h
    obtain ⟨constants, hconstants, h⟩ := Noted.result_bind_eq_ok.mp h
    cases Noted.result_pure_eq_ok.mp h
    exact ⟨fields, rfl, hdefault, hnamespaces, hconstants⟩
  | _ => cases h

/-- Every price of a catalog is read off a value in its document. -/
theorem exists_value_of_ofJson {source : Text} {document : Json} {list : PriceList}
    (h : (ofJson source document).result = .ok list) :
    ∀ price ∈ list.catalog.prices, ∃ value, value.Inside document ∧ price.ReadFrom value := by
  obtain ⟨fields, rfl, hdefault, hnamespaces, -⟩ := parts_of_ofJson h
  intro price hprice
  rcases Catalog.mem_prices_iff.mp hprice with ⟨entry, hentry, rfl⟩ | ⟨table, htable, entry, hentry, rfl⟩
  · obtain ⟨value, hvalue, hread⟩ := exists_value_of_readTable hdefault entry hentry
    exact ⟨value, inside_of_getD hvalue, hread⟩
  · obtain ⟨value, hvalue, hread⟩ := exists_value_of_readNamespaces hnamespaces table htable entry hentry
    exact ⟨value, inside_of_getD hvalue, hread⟩

end PriceList

/-- The price is no function of the player but one that documents have. -/
def Price.Stated : Price → Prop
  | .computed _ => False
  | _ => True

theorem Price.ReadFrom.stated {value : Json} {price : Price} (h : price.ReadFrom value) : price.Stated := by
  rcases h with h | rfl
  · rcases cases_of_ofJson? h with ⟨amount, -, rfl⟩ | ⟨key, base, -, rfl⟩ <;> trivial
  · trivial

/-- A catalog from a document has no prices but those that documents have. -/
theorem PriceList.stated_of_ofJson {source : Text} {document : Json} {catalog : Catalog}
    {constants : Constants} (h : (ofJson source document).result = .ok ⟨catalog, constants⟩) :
    ∀ price ∈ catalog.prices, price.Stated := by
  intro price hprice
  obtain ⟨value, -, hread⟩ := exists_value_of_ofJson h price hprice
  exact hread.stated

/-! ## Whole amounts -/

def Amount.IsWhole (a : Amount) : Prop := ∃ n, a = .whole n

/-- The number of a whole amount. -/
def Amount.number : Amount → Int
  | .whole n => n
  | .real _ => 0

theorem Amount.IsWhole.eq {a : Amount} (h : a.IsWhole) : a = .whole a.number := by
  obtain ⟨n, rfl⟩ := h
  rfl

theorem Amount.sum_of_isWhole {amounts : List Amount} (h : ∀ a ∈ amounts, a.IsWhole) :
    Amount.sum amounts = .ok (.whole (amounts.map number).sum) := by
  have hfold : ∀ (amounts : List Amount) (n : Int), (∀ a ∈ amounts, a.IsWhole) →
      amounts.foldlM add (.whole n) = .ok (.whole (n + (amounts.map number).sum)) := by
    intro amounts
    induction amounts with
    | nil => simp [pure, Except.pure]
    | cons a amounts ih =>
      intro n h
      obtain ⟨⟨m, rfl⟩, hrest⟩ := List.forall_mem_cons.mp h
      rw [List.foldlM_cons, List.map_cons, List.sum_cons, ← Int.add_assoc]
      exact ih (n + m) hrest
  have := hfold amounts 0 h
  rwa [Int.zero_add] at this

/-- All numbers in a value are whole. -/
inductive Json.Whole : Json → Prop
  | null : Whole .null
  | bool (truth : Bool) : Whole (.bool truth)
  | number (n : Int) : Whole (.number (.whole n))
  | string (text : Text) : Whole (.string text)
  | array {items : List Json} (h : ∀ item ∈ items, Whole item) : Whole (.array items)
  | object {fields : List (Text × Json)} (h : ∀ field ∈ fields, Whole field.2) : Whole (.object fields)

@[simp]
theorem Json.whole_object_iff {fields : List (Text × Json)} :
    Whole (.object fields) ↔ ∀ field ∈ fields, field.2.Whole :=
  ⟨fun | .object h => h, .object⟩

@[simp]
theorem Json.whole_number_iff {amount : Amount} : Whole (.number amount) ↔ amount.IsWhole :=
  ⟨fun | .number n => ⟨n, rfl⟩, fun ⟨n, hn⟩ => hn ▸ .number n⟩

theorem Json.Whole.inside {document value : Json} (h : document.Whole) (hvalue : value.Inside document) :
    value.Whole := by
  induction hvalue with
  | field hmem => exact whole_object_iff.mp h _ hmem
  | deeper hmem _ ih => exact ih (whole_object_iff.mp h _ hmem)

/-- The amounts that a price is made of. -/
def Price.amounts : Price → List Amount
  | .fixed amount => [amount]
  | .bySourceFile base => [base]
  | .computed _ => []
  | .malformed => []

theorem Price.ReadFrom.isWhole {value : Json} {price : Price} (h : price.ReadFrom value)
    (hwhole : value.Whole) : ∀ a ∈ price.amounts, a.IsWhole := by
  rcases h with h | rfl
  · rcases cases_of_ofJson? h with ⟨amount, rfl, rfl⟩ | ⟨key, base, rfl, rfl⟩
    · exact List.forall_mem_singleton.mpr (Json.whole_number_iff.mp hwhole)
    · have hbase := Json.whole_object_iff.mp hwhole _ List.mem_cons_self
      exact List.forall_mem_singleton.mpr (Json.whole_number_iff.mp hbase)
  · exact nofun

/-- What a price in whole amounts comes to for players who pay a multiple of bases. -/
def Price.units (factor : Int) : Price → Int
  | .fixed amount => amount.number
  | .bySourceFile base => factor * base.number
  | .computed _ => 0
  | .malformed => 0

theorem Price.cost_eq {price : Price} (player : Option Player) (hstated : price.Stated)
    (hwhole : ∀ a ∈ price.amounts, a.IsWhole) :
    price.cost player = .ok (.whole (price.units (factor player))) := by
  cases price with
  | fixed amount =>
    obtain ⟨n, rfl⟩ := hwhole amount List.mem_cons_self
    rfl
  | bySourceFile base =>
    obtain ⟨n, rfl⟩ := hwhole base List.mem_cons_self
    simp only [cost, units, Amount.number]
    split
    · rename_i hone
      rw [hone, Int.one_mul]
    · rw [Int.mul_comm]
      rfl
  | computed cost => exact hstated.elim
  | malformed => rfl

/-! ## Constants -/

/-- The value of a field of an object. -/
def Json.field? (document : Json) (name : Text) : Option Json :=
  match document with
  | .object fields => Table.get? fields name
  | _ => none

namespace Constants

def amounts (c : Constants) : List Amount := [c.base, c.hacknet, c.dom, c.corporation]

theorem mem_amounts_of_specials {c : Constants} {name : Text} {kind : UsageKind} {cost : Amount}
    (h : c.specials.get? name = some (kind, cost)) : cost ∈ c.amounts := by
  obtain ⟨entry, hentry, heq⟩ := Table.exists_of_get? h
  simp only [specials, List.mem_cons, List.not_mem_nil, or_false] at hentry
  rcases hentry with rfl | rfl | rfl | rfl <;> cases heq <;> simp [amounts]

/-- The constants by the names that documents give them. -/
def table (c : Constants) : Table Text Amount :=
  [("base", c.base), ("hacknet", c.hacknet), ("dom", c.dom), ("corporation", c.corporation)]

theorem exists_name_of_mem_amounts {c : Constants} {a : Amount} (h : a ∈ c.amounts) :
    ∃ name ∈ PriceList.constantNames, c.table.get? name = some a := by
  simp only [amounts, List.mem_cons, List.not_mem_nil, or_false] at h
  rcases h with rfl | rfl | rfl | rfl
  · exact ⟨"base", by decide, rfl⟩
  · exact ⟨"hacknet", by decide, rfl⟩
  · exact ⟨"dom", by decide, rfl⟩
  · exact ⟨"corporation", by decide, rfl⟩

end Constants

namespace PriceList

theorem mem_constantNames {c c' : Constants} {name : Text} {amount : Amount}
    (h : setConstant? c name amount = some c') : name ∈ constantNames := by
  by_cases hname : name ∈ constantNames
  · exact hname
  · simp only [constantNames, List.mem_cons, List.not_mem_nil, or_false, not_or] at hname
    obtain ⟨hbase, hcorporation, hdom, hhacknet⟩ := hname
    simp [setConstant?, hbase, hcorporation, hdom, hhacknet] at h

theorem table_setConstant? (c : Constants) {name : Text} (h : name ∈ constantNames) (amount : Amount) :
    ((setConstant? c name amount).getD c).table = c.table.insert name amount := by
  simp only [constantNames, List.mem_cons, List.not_mem_nil, or_false] at h
  rcases h with rfl | rfl | rfl | rfl <;> rfl

theorem table_of_readConstant {source : Text} {c c' : Constants} {field : Text × Json}
    (h : (readConstant source c field).result = .ok c') :
    ∃ amount, field.2 = .number amount ∧ c'.table = c.table.insert field.1 amount := by
  unfold readConstant at h
  split at h
  · cases h
  · rename_i c₀ amount hset hamount
    rw [← Noted.result_pure_eq_ok.mp h]
    exact ⟨amount, hamount, table_setConstant? c (mem_constantNames hset) amount⟩
  · cases h

/-- A constant is whole once a field has set it, and stays so while later fields set it again. -/
theorem isWhole_of_settings {source name : Text} {settings : List (Text × Json)} {c c' : Constants}
    {a : Amount} (hsettings : ∀ field ∈ settings, field.2.Whole)
    (h : (settings.foldlM (readConstant source) c).result = .ok c')
    (hname : (∀ a, c.table.get? name = some a → a.IsWhole) ∨ name ∈ Table.keys settings)
    (ha : c'.table.get? name = some a) : a.IsWhole := by
  induction settings generalizing c with
  | nil =>
    cases Noted.result_pure_eq_ok.mp h
    exact hname.elim (fun hwhole => hwhole a ha) nofun
  | cons field settings ih =>
    rw [List.foldlM_cons, Noted.result_bind_eq_ok] at h
    obtain ⟨hfield, hrest⟩ := List.forall_mem_cons.mp hsettings
    obtain ⟨c₁, hfirst, h⟩ := h
    obtain ⟨amount, hamount, htable⟩ := table_of_readConstant hfirst
    refine ih hrest h ?_
    by_cases heq : name = field.1
    · left
      intro a ha
      rw [htable, heq, Table.get?_insert_self] at ha
      cases ha
      rwa [hamount, Json.whole_number_iff] at hfield
    · refine hname.imp (fun hwhole a ha => ?_) fun hmem => (List.mem_cons.mp hmem).resolve_left heq
      rw [htable, Table.get?_insert_other _ _ heq] at ha
      exact hwhole a ha

/-- The document sets all constants. -/
def SetsConstants (document : Json) : Prop :=
  ∃ settings, document.field? "constants" = some settings ∧
    ∀ name ∈ constantNames, (settings.field? name).isSome

/-- Where all constants are set, none is left of the standard ones. -/
theorem isWhole_of_readConstants {source : Text} {settings : Json} {c : Constants}
    (hwhole : settings.Whole) (hset : ∀ name ∈ constantNames, (settings.field? name).isSome)
    (h : (readConstants source settings).result = .ok c) : ∀ a ∈ c.amounts, a.IsWhole := by
  intro a ha
  obtain ⟨name, hname, ha⟩ := Constants.exists_name_of_mem_amounts ha
  obtain ⟨value, hvalue⟩ := Option.isSome_iff_exists.mp (hset name hname)
  cases settings with
  | object fields =>
    rw [Json.whole_object_iff] at hwhole
    exact isWhole_of_settings hwhole h (.inr (Table.mem_keys_of_get? hvalue)) ha
  | _ => cases hvalue

/-! ## Lines -/

/-- All prices are as documents have them, and all amounts are whole. -/
structure Whole (list : PriceList) : Prop where
  stated : ∀ price ∈ list.catalog.prices, price.Stated
  prices : ∀ price ∈ list.catalog.prices, ∀ a ∈ price.amounts, a.IsWhole
  constants : ∀ a ∈ list.constants.amounts, a.IsWhole

theorem whole_of_ofJson {source : Text} {document : Json} {list : PriceList}
    (h : (ofJson source document).result = .ok list) (hwhole : document.Whole)
    (hset : SetsConstants document) : list.Whole := by
  refine ⟨stated_of_ofJson h, fun price hprice => ?_, ?_⟩
  · obtain ⟨value, hvalue, hread⟩ := exists_value_of_ofJson h price hprice
    exact hread.isWhole (hwhole.inside hvalue)
  · obtain ⟨fields, rfl, -, -, hconstants⟩ := parts_of_ofJson h
    obtain ⟨settings, hsettings, hset⟩ := hset
    change Table.get? fields "constants" = some settings at hsettings
    rw [hsettings] at hconstants
    obtain ⟨field, hfield, rfl⟩ := Table.exists_of_get? hsettings
    exact isWhole_of_readConstants (Json.whole_object_iff.mp hwhole _ hfield) hset hconstants

/-- The line of a name for players who pay a multiple of bases. -/
def lineAt (list : PriceList) (factor : Int) (name : Text) : UsageEntry :=
  match list.constants.specials.get? name with
  | some (kind, cost) => ⟨kind, name, cost⟩
  | none =>
    match list.catalog.lookup name with
    | none => ⟨.function, name, .zero⟩
    | some (shown, price) => ⟨.function, shown, .whole (price.units factor)⟩

variable {list : PriceList}

/-- Every name has a line, and a player matters through the factor only. -/
theorem Whole.resolve_eq (h : list.Whole) (player : Option Player) (name : Text) :
    list.resolve player name = .ok (list.lineAt (Price.factor player) name) := by
  rw [PriceList.resolve, lineAt]
  cases list.constants.specials.get? name with
  | some special => rfl
  | none =>
    cases hlookup : list.catalog.lookup name with
    | none => rfl
    | some found =>
      have hprice := Catalog.mem_prices_of_lookup hlookup
      change (do return ⟨.function, found.1, ← found.2.cost player⟩ : Except PricingError UsageEntry) = _
      rw [found.2.cost_eq player (h.stated _ hprice) (h.prices _ hprice)]
      rfl

theorem Whole.isWhole_lineAt (h : list.Whole) (factor : Int) (name : Text) :
    (list.lineAt factor name).cost.IsWhole := by
  unfold lineAt
  split
  · rename_i kind cost hspecial
    exact h.constants _ (Constants.mem_amounts_of_specials hspecial)
  · split
    · exact ⟨0, rfl⟩
    · exact ⟨_, rfl⟩

/-- The line of a name, where every name has one. -/
theorem Whole.exists_line (h : list.Whole) (player : Option Player) : ∃ line : Text → UsageEntry,
    (∀ name, list.resolve player name = .ok (line name)) ∧ ∀ name, (line name).cost.IsWhole :=
  ⟨list.lineAt (Price.factor player), h.resolve_eq player, h.isWhole_lineAt _⟩

/-- The lines of the base price and of names, without those that cost nothing. -/
def lines (list : PriceList) (line : Text → UsageEntry) (names : List Text) : List UsageEntry :=
  (⟨.base, baseEntryName, list.constants.base⟩ :: names.eraseDups.map line).filter (·.cost.isPositive)

section Lines

variable {player : Option Player} {line : Text → UsageEntry}

theorem Whole.cost_of_mem_lines (h : list.Whole) (hwhole : ∀ name, (line name).cost.IsWhole)
    {names : List Text} {e : UsageEntry} (he : e ∈ list.lines line names) :
    e.cost.IsWhole ∧ 0 < e.cost.number := by
  obtain ⟨hmem, hpositive⟩ := List.mem_filter.mp he
  have hcost : e.cost.IsWhole := by
    rcases List.mem_cons.mp hmem with rfl | hmem
    · exact h.constants _ List.mem_cons_self
    · obtain ⟨name, -, rfl⟩ := List.mem_map.mp hmem
      exact hwhole name
  refine ⟨hcost, ?_⟩
  rw [hcost.eq] at hpositive
  simpa [Amount.isPositive] using hpositive

theorem Whole.aggregate_eq (h : list.Whole) (hline : ∀ name, list.resolve player name = .ok (line name))
    (hwhole : ∀ name, (line name).cost.IsWhole) (names : List Text) :
    list.aggregate player names =
      .ok ⟨.whole ((list.lines line names).map (·.cost.number)).sum, list.lines line names⟩ := by
  have hmap : names.eraseDups.mapM (list.resolve player) = .ok (names.eraseDups.map line) := by
    rw [funext hline]
    exact List.mapM_pure
  have hentries : list.entries player names =
      .ok (⟨.base, baseEntryName, list.constants.base⟩ :: names.eraseDups.map line) := by
    rw [entries, hmap]
    rfl
  have hsum : Amount.sum ((list.lines line names).map (·.cost)) =
      .ok (.whole ((list.lines line names).map (·.cost.number)).sum) := by
    rw [Amount.sum_of_isWhole, List.map_map]
    · rfl
    · intro a ha
      obtain ⟨e, he, rfl⟩ := List.mem_map.mp ha
      exact (h.cost_of_mem_lines hwhole he).1
  rw [aggregate, hentries]
  change (do return ⟨← (Amount.sum ((list.lines line names).map (·.cost))).mapError .amount,
    list.lines line names⟩ : Except PricingError Breakdown) = _
  rw [hsum]
  rfl

end Lines

end PriceList

end ScriptAudit
