/-
What the player has to do with prices. In whole amounts the player is one positive factor on the bases of some
names (`lineAt_cases`). A line is kept if it costs more than nothing, which a positive factor does not decide,
so all players see the same lines (`Corresponding.isPositive_iff`), and the smaller the factor, the smaller the
total (`Whole.sum_le`).
-/
import Mathlib.Algebra.Order.BigOperators.Group.List
import ScriptAudit.Proofs.WholePrices

namespace ScriptAudit

/-! ## Factors -/

namespace Price

theorem factor_mem (player : Option Player) : factor player ∈ ([1, 4, 16] : List Int) := by
  unfold factor
  split
  · decide
  · split_ifs <;> decide

theorem one_le_factor (player : Option Player) : 1 ≤ factor player := by
  have := factor_mem player
  simp only [List.mem_cons, List.not_mem_nil, or_false] at this
  omega

theorem factor_of_bitnode {p : Player} (h : p.bitnode = 4) : factor (some p) = 1 := if_pos h

theorem factor_of_level {p : Player} (h : 3 ≤ p.level 4) : factor (some p) = 1 := by
  simp only [factor, pricingSourceFile]
  split_ifs <;> omega

theorem factor_le {p p' : Player} (hbitnode : p.bitnode ≠ 4) (hlevel : p.level 4 ≤ p'.level 4) :
    factor (some p') ≤ factor (some p) := by
  simp only [factor, pricingSourceFile]
  split_ifs <;> omega

end Price

namespace PriceList

/-! ## Corresponding lines -/

/-- The catalog has a price for the name that depends on the source file, and nothing comes before it. -/
def ScaledAt (list : PriceList) (name shown : Text) (base : Amount) : Prop :=
  list.constants.specials.get? name = none ∧ list.catalog.lookup name = some (shown, .bySourceFile base)

/-- How the lines of players with two factors correspond: they are the same, unless they are those of a name
whose price depends on the source file. -/
inductive Corresponding (list : PriceList) (names : List Text) (k k' : Int) : UsageEntry → UsageEntry → Prop
  | base : Corresponding list names k k' ⟨.base, baseEntryName, list.constants.base⟩
      ⟨.base, baseEntryName, list.constants.base⟩
  | fixed {name : Text} {e : UsageEntry} (hname : name ∈ names)
      (hline : ∀ player, list.resolve player name = .ok e)
      (hfixed : ∀ shown base, ¬list.ScaledAt name shown base) : Corresponding list names k k' e e
  | scaled {name shown : Text} {base : Int} (hname : name ∈ names)
      (hscaled : list.ScaledAt name shown (.whole base)) :
      Corresponding list names k k' ⟨.function, shown, .whole (k * base)⟩
        ⟨.function, shown, .whole (k' * base)⟩

/-- A line is the same for all factors, or a multiple of a base. -/
theorem lineAt_cases (list : PriceList) (name : Text) :
    (∃ e, (∀ k, list.lineAt k name = e) ∧ ∀ shown base, ¬list.ScaledAt name shown base) ∨
      ∃ shown base, list.ScaledAt name shown base ∧
        ∀ k, list.lineAt k name = ⟨.function, shown, .whole (k * base.number)⟩ := by
  unfold lineAt ScaledAt
  cases list.constants.specials.get? name with
  | some special => exact .inl ⟨_, fun _ => rfl, fun _ _ h => nomatch h.1⟩
  | none =>
    cases list.catalog.lookup name with
    | none => exact .inl ⟨_, fun _ => rfl, fun _ _ h => nomatch h.2⟩
    | some found =>
      obtain ⟨shown, price⟩ := found
      cases price with
      | bySourceFile base => exact .inr ⟨shown, base, ⟨rfl, rfl⟩, fun _ => rfl⟩
      | fixed amount =>
        exact .inl ⟨⟨.function, shown, .whole amount.number⟩, fun _ => rfl, fun _ _ h => nomatch h.2⟩
      | computed _ | malformed =>
        exact .inl ⟨⟨.function, shown, .zero⟩, fun _ => rfl, fun _ _ h => nomatch h.2⟩

section Corresponding

variable {list : PriceList} {names : List Text} {k k' : Int}

theorem Whole.corresponding_lineAt (h : list.Whole) (k k' : Int) {name : Text} (hname : name ∈ names) :
    list.Corresponding names k k' (list.lineAt k name) (list.lineAt k' name) := by
  rcases list.lineAt_cases name with ⟨e, hline, hfixed⟩ | ⟨shown, base, hscaled, hline⟩
  · rw [hline, hline]
    exact .fixed hname (fun player => by rw [h.resolve_eq, hline]) hfixed
  · have hbase : base.IsWhole :=
      h.prices _ (Catalog.mem_prices_of_lookup hscaled.2) base List.mem_cons_self
    rw [hbase.eq] at hscaled
    rw [hline, hline]
    exact .scaled hname hscaled

variable {e e' : UsageEntry}

theorem Corresponding.title_eq (h : list.Corresponding names k k' e e') :
    (e.kind, e.name) = (e'.kind, e'.name) := by
  cases h <;> rfl

/-- Positive factors keep the same lines. -/
theorem Corresponding.isPositive_iff (h : list.Corresponding names k k' e e') (hk : 0 < k) (hk' : 0 < k') :
    e.cost.isPositive = true ↔ e'.cost.isPositive = true := by
  cases h with
  | base => rfl
  | fixed => rfl
  | scaled => simp [Amount.isPositive, hk, hk']

theorem Corresponding.number_le (h : list.Corresponding names k k' e e') (hk : 0 < k) (hle : k ≤ k')
    (hpositive : 0 < e.cost.number) : e.cost.number ≤ e'.cost.number := by
  cases h with
  | base => rfl
  | fixed => rfl
  | @scaled _ _ base =>
    have hbase : 0 < base := pos_of_mul_pos_right hpositive hk.le
    exact Int.mul_le_mul_of_nonneg_right hle hbase.le

/-! ## Corresponding breakdowns -/

theorem Whole.lines_corresponding (h : list.Whole) (names : List Text) (hk : 0 < k) (hk' : 0 < k') :
    List.Forall₂ (list.Corresponding names k k') (list.lines (list.lineAt k) names)
      (list.lines (list.lineAt k') names) := by
  refine List.rel_filter (fun e e' hline => hline.isPositive_iff hk hk') (.cons .base ?_)
  rw [List.forall₂_map_left_iff, List.forall₂_map_right_iff, List.forall₂_same]
  intro name hname
  exact h.corresponding_lineAt k k' (List.mem_eraseDups.mp hname)

theorem Whole.sum_le (h : list.Whole) (names : List Text) (hk : 0 < k) (hle : k ≤ k') :
    ((list.lines (list.lineAt k) names).map (·.cost.number)).sum ≤
      ((list.lines (list.lineAt k') names).map (·.cost.number)).sum := by
  have hlines := h.lines_corresponding names hk (hk.trans_le hle)
  have hpositive : ∀ e ∈ list.lines (list.lineAt k) names, 0 < e.cost.number :=
    fun e he => (h.cost_of_mem_lines (h.isWhole_lineAt k) he).2
  refine List.Forall₂.sum_le_sum ?_
  rw [List.forall₂_map_left_iff, List.forall₂_map_right_iff]
  exact ((List.forall₂_and_left _ _).mpr ⟨hpositive, hlines⟩).imp
    fun e e' he => he.2.number_le hk hle he.1

end Corresponding

/-- The costs of the same names, for all players. -/
structure DiffersByFactor (list : PriceList) (names : List Text) (cost : Option Player → Breakdown)
    (total : Option Player → Int) : Prop where
  aggregate_eq : ∀ player, list.aggregate player names = .ok (cost player)
  total_eq : ∀ player, (cost player).total = .whole (total player)
  titles : ∀ player player', (cost player).entries.map (fun e => (e.kind, e.name)) =
    (cost player').entries.map fun e => (e.kind, e.name)
  costs : ∀ player player', ∃ k ∈ [1, 4, 16], ∃ k' ∈ [1, 4, 16],
    List.Forall₂ (list.Corresponding names k k') (cost player).entries (cost player').entries
  falls : ∀ p p' : Player, p.bitnode = p'.bitnode → p.bitnode ≠ 4 → p.level 4 ≤ p'.level 4 →
    total (some p') ≤ total (some p)
  least : ∀ p : Player, p.bitnode = 4 → ∀ player, total (some p) ≤ total player
  reached : ∀ p p' : Player, p.bitnode = 4 → 3 ≤ p'.level 4 → total (some p) = total (some p')

/-- **The player changes prices, never the lines.** With a document of whole numbers that sets all constants,
any names have a cost for every player, and the same lines; their costs differ only where a price depends on
source file 4, by factors of 1, 4 and 16. The total falls with the level of that file, and in bitnode 4 it
is as low as it gets. -/
theorem differsByFactor_of_ofJson {source : Text} {document : Json} {list : PriceList}
    (hlist : (ofJson source document).result = .ok list) (hwhole : document.Whole)
    (hset : SetsConstants document) (names : List Text) :
    ∃ cost total, list.DiffersByFactor names cost total := by
  have h := whole_of_ofJson hlist hwhole hset
  have hpositive (player : Option Player) : 0 < Price.factor player := Price.one_le_factor player
  have hlines (player player' : Option Player) :=
    h.lines_corresponding names (hpositive player) (hpositive player')
  let lines (player : Option Player) := list.lines (list.lineAt (Price.factor player)) names
  let total (player : Option Player) := ((lines player).map (·.cost.number)).sum
  refine ⟨fun player => ⟨.whole (total player), lines player⟩, total, ?_⟩
  constructor
  case aggregate_eq => exact fun player => h.aggregate_eq (h.resolve_eq player) (h.isWhole_lineAt _) names
  case total_eq => exact fun _ => rfl
  case titles =>
    intro player player'
    rw [← List.forall₂_eq_eq_eq, List.forall₂_map_left_iff, List.forall₂_map_right_iff]
    exact (hlines player player').imp fun _ _ he => he.title_eq
  case costs =>
    intro player player'
    exact ⟨_, Price.factor_mem player, _, Price.factor_mem player', hlines player player'⟩
  case falls =>
    intro p p' _ hbitnode hlevel
    exact h.sum_le names (hpositive _) (Price.factor_le hbitnode hlevel)
  case least =>
    intro p hbitnode player
    refine h.sum_le names (hpositive _) ?_
    rw [Price.factor_of_bitnode hbitnode]
    exact Price.one_le_factor player
  case reached =>
    intro p p' hbitnode hlevel
    simp only [total, lines, Price.factor_of_bitnode hbitnode, Price.factor_of_level hlevel]

/-- Prices of all kinds, two of them by source file and one of those below zero. -/
def mixedPrices : Json :=
  .object [("default", .object [("f", .ofInt 2), ("g", .object [("sf4", .ofInt 3)]),
      ("h", .object [("sf4", .ofInt (-1))]), ("i", .null)]),
    ("constants", .object [("base", .ofInt 1), ("hacknet", .ofInt 4), ("dom", .ofInt 25),
      ("corporation", .ofInt 1022)])]

def mixedList : PriceList where
  catalog :=
    ⟨[("f", .fixed (.whole 2)), ("g", .bySourceFile (.whole 3)), ("h", .bySourceFile (.whole (-1))),
      ("i", .malformed)], [], Catalog.defaultPriority⟩
  constants := ⟨.whole 1, .whole 4, .whole 25, .whole 1022⟩

theorem differsByFactor_of_ofJson_mixed : ∃ cost total,
    mixedList.DiffersByFactor ["g", "h", "f", "i", "window", "g"] cost total ∧
    total none = 76 ∧ total (some ⟨1, [(4, 2)]⟩) = 40 ∧ total (some ⟨4, []⟩) = 31 := by
  have hlist : (ofJson "prices.json" mixedPrices).result = .ok mixedList := by rfl
  have hwhole : mixedPrices.Whole := by
    simp [mixedPrices, Json.ofInt, Amount.IsWhole, Json.Whole.null]
  have hset : SetsConstants mixedPrices := ⟨_, rfl, by decide⟩
  obtain ⟨cost, total, h⟩ := differsByFactor_of_ofJson hlist hwhole hset ["g", "h", "f", "i", "window", "g"]
  have htotal {player : Option Player} {b : Breakdown} {n : Int}
      (hb : mixedList.aggregate player ["g", "h", "f", "i", "window", "g"] = .ok b)
      (hn : b.total = .whole n) : total player = n := by
    rw [h.aggregate_eq, Except.ok.injEq] at hb
    rw [← hb, h.total_eq, Amount.whole.injEq] at hn
    exact hn
  exact ⟨cost, total, h, htotal rfl rfl, htotal rfl rfl, htotal rfl rfl⟩

end PriceList

end ScriptAudit
