/-
What names cost depends only on those that cost something, each counted once. Every name has a line as long as
no price that is worked out refuses (`Computable.exists_line`), and the lines that are kept are those of
`chargedNames` behind the base price (`lines_eq_append`). So lists with the same charged names in the same order
have the same result, whatever else is in them, and another order of the names is another order of the lines.
A sum of whole amounts does not depend on the order, and more names make it no smaller.
-/
import Mathlib
import ScriptAudit.Proofs.CostOfImports
import ScriptAudit.Proofs.DistinctLines
import ScriptAudit.Proofs.PlayerPrices
import ScriptAudit.Proofs.Traversal

namespace ScriptAudit

/-! ## Prices that can be worked out -/

/-- The factors are in the range of binary numbers, so any amount can be multiplied by them. -/
theorem Amount.exists_mul_factor (base : Amount) (player : Option Player) :
    ∃ a, base.mul (.whole (Price.factor player)) = .ok a := by
  have hfloat : ∃ x, (Amount.whole (Price.factor player)).toFloat = .ok x := by
    have hfactor := Price.factor_mem player
    simp only [List.mem_cons, List.not_mem_nil, or_false] at hfactor
    rcases hfactor with h | h | h <;> rw [h] <;> exact ⟨_, rfl⟩
  obtain ⟨x, hx⟩ := hfloat
  cases base with
  | whole n => exact ⟨_, rfl⟩
  | real y =>
    refine ⟨.real (y * x), ?_⟩
    change (do return .real (y * (← (Amount.whole (Price.factor player)).toFloat)) : Except AmountError Amount) = _
    rw [hx]
    rfl

theorem Price.exists_cost {price : Price} {player : Option Player}
    (h : ∀ cost, price = .computed cost → ∃ a, cost player = .ok a) : ∃ a, price.cost player = .ok a := by
  cases price with
  | fixed amount => exact ⟨amount, rfl⟩
  | bySourceFile base =>
    rw [cost]
    split
    · exact ⟨base, rfl⟩
    · obtain ⟨a, ha⟩ := base.exists_mul_factor player
      exact ⟨a, by rw [ha]; rfl⟩
  | computed cost => exact h cost rfl
  | malformed => exact ⟨.zero, rfl⟩

namespace PriceList

/-- No price that is worked out from the player refuses to be. -/
def Computable (list : PriceList) (player : Option Player) : Prop :=
  ∀ price ∈ list.catalog.prices, ∀ cost, price = .computed cost → ∃ a, cost player = .ok a

/-- Whether a name costs something. -/
def charges (list : PriceList) (player : Option Player) (name : Text) : Bool :=
  match list.resolve player name with
  | .ok e => e.cost.isPositive
  | .error _ => false

/-- The names that cost something, each where it is used first. -/
def chargedNames (list : PriceList) (player : Option Player) (names : List Text) : List Text :=
  (names.filter (list.charges player)).eraseDups

/-- The base price and the names cost whole amounts, as far as they cost something. -/
def ChargesWhole (list : PriceList) (player : Option Player) (names : List Text) : Prop :=
  ∀ e, e = list.baseLine ∨ (∃ name ∈ names, list.resolve player name = .ok e) →
    e.cost.isPositive = true → e.cost.IsWhole

variable {list : PriceList} {player : Option Player}

/-- Every name has a line. -/
theorem Computable.exists_line (h : list.Computable player) : ∃ line : Text → UsageEntry,
    ∀ name, list.resolve player name = .ok (line name) := by
  have hresolve : ∀ name, ∃ e, list.resolve player name = .ok e := by
    intro name
    unfold resolve
    split
    · exact ⟨_, rfl⟩
    · split
      · exact ⟨_, rfl⟩
      · rename_i shown price hlookup
        obtain ⟨a, ha⟩ := Price.exists_cost (h price (Catalog.mem_prices_of_lookup hlookup))
        exact ⟨⟨.function, shown, a⟩, by rw [ha]; rfl⟩
  choose line hline using hresolve
  exact ⟨line, hline⟩

/-! ## The lines of charged names -/

section Lines

variable {line : Text → UsageEntry} {names names' : List Text}

theorem charges_eq (hline : ∀ name, list.resolve player name = .ok (line name)) :
    list.charges player = fun name => (line name).cost.isPositive := by
  funext name
  rw [charges, hline]

/-- What is kept are the lines of the base price and of the charged names. -/
theorem lines_eq_append (hline : ∀ name, list.resolve player name = .ok (line name)) (names : List Text) :
    list.lines line names =
      [list.baseLine].filter (·.cost.isPositive) ++ (list.chargedNames player names).map line := by
  rw [chargedNames, ← filter_eraseDups, charges_eq hline]
  change ([list.baseLine] ++ names.eraseDups.map line).filter (·.cost.isPositive) = _
  rw [List.filter_append, List.filter_map]
  rfl

theorem entries_of_line (hline : ∀ name, list.resolve player name = .ok (line name)) (names : List Text) :
    list.entries player names = .ok (list.baseLine :: names.eraseDups.map line) := by
  have hmap : names.eraseDups.mapM (list.resolve player) = .ok (names.eraseDups.map line) := by
    rw [funext hline]
    exact List.mapM_pure
  rw [entries, hmap]
  rfl

/-- Where every name has a line, only the sum can fail. -/
theorem aggregate_of_line (hline : ∀ name, list.resolve player name = .ok (line name)) (names : List Text) :
    list.aggregate player names =
      ((Amount.sum ((list.lines line names).map (·.cost))).mapError .amount).map
        fun total => ⟨total, list.lines line names⟩ := by
  rw [aggregate, entries_of_line hline]
  change (do return ⟨← (Amount.sum ((list.lines line names).map (·.cost))).mapError .amount,
    list.lines line names⟩ : Except PricingError Breakdown) = _
  cases Amount.sum ((list.lines line names).map (·.cost)) <;> rfl

theorem entries_of_aggregate (hline : ∀ name, list.resolve player name = .ok (line name)) {b : Breakdown}
    (h : list.aggregate player names = .ok b) : b.entries = list.lines line names := by
  rw [aggregate_of_line hline, Except.map_eq_ok] at h
  obtain ⟨total, -, rfl⟩ := h
  rfl

theorem lines_perm (hline : ∀ name, list.resolve player name = .ok (line name))
    (h : ∀ name, name ∈ list.chargedNames player names ↔ name ∈ list.chargedNames player names') :
    (list.lines line names).Perm (list.lines line names') := by
  have hperm := (List.perm_ext_iff_of_nodup (nodup_eraseDups _) (nodup_eraseDups _)).mpr h
  rw [lines_eq_append hline, lines_eq_append hline]
  exact (hperm.map line).append_left _

/-! ## Whole amounts -/

theorem ChargesWhole.isWhole (h : list.ChargesWhole player names)
    (hline : ∀ name, list.resolve player name = .ok (line name)) :
    ∀ e ∈ list.lines line names, e.cost.IsWhole := by
  intro e he
  obtain ⟨hmem, hpositive⟩ := List.mem_filter.mp he
  refine h e ?_ hpositive
  rcases List.mem_cons.mp hmem with rfl | hmem
  · exact .inl rfl
  · obtain ⟨name, hname, rfl⟩ := List.mem_map.mp hmem
    exact .inr ⟨name, List.mem_eraseDups.mp hname, hline name⟩

theorem ChargesWhole.mono (h : list.ChargesWhole player names') (hsub : names ⊆ names') :
    list.ChargesWhole player names := by
  rintro e (hbase | ⟨name, hname, hresolve⟩) hpositive
  · exact h e (.inl hbase) hpositive
  · exact h e (.inr ⟨name, hsub hname, hresolve⟩) hpositive

theorem aggregate_of_isWhole (hline : ∀ name, list.resolve player name = .ok (line name))
    (hwhole : ∀ e ∈ list.lines line names, e.cost.IsWhole) :
    list.aggregate player names =
      .ok ⟨.whole ((list.lines line names).map (·.cost.number)).sum, list.lines line names⟩ := by
  rw [aggregate_of_line hline, Amount.sum_of_isWhole, List.map_map]
  · rfl
  · intro a ha
    obtain ⟨e, he, rfl⟩ := List.mem_map.mp ha
    exact hwhole e he

theorem total_le_of_subset (hwhole : ∀ e ∈ list.lines line names', e.cost.IsWhole) (h : names ⊆ names') :
    ((list.lines line names).map (·.cost.number)).sum ≤
      ((list.lines line names').map (·.cost.number)).sum := by
  obtain ⟨part, hperm, hsub⟩ := lines_subperm list line h
  rw [← (hperm.map _).sum_eq]
  refine (hsub.map _).sum_le_sum ?_
  intro n hn
  obtain ⟨e, he, rfl⟩ := List.mem_map.mp hn
  have hpositive := (List.mem_filter.mp he).2
  rw [(hwhole e he).eq] at hpositive
  exact (of_decide_eq_true hpositive).le

end Lines

/-! ## Other lists of names -/

/-- What the cost of one list of names has to do with that of another. -/
structure CountsCharged (list : PriceList) (player : Option Player) (names names' : List Text) : Prop where
  /-- Be it a breakdown or an error. -/
  same : list.chargedNames player names = list.chargedNames player names' →
    list.aggregate player names = list.aggregate player names'
  reordered : (∀ name, name ∈ list.chargedNames player names ↔ name ∈ list.chargedNames player names') →
    ∀ b b', list.aggregate player names = .ok b → list.aggregate player names' = .ok b' →
      b.entries.Perm b'.entries ∧ (list.constants.base.isPositive = true →
        b.entries.head? = some list.baseLine ∧ b'.entries.head? = some list.baseLine)
  total_eq : (∀ name, name ∈ list.chargedNames player names ↔ name ∈ list.chargedNames player names') →
    list.ChargesWhole player names → ∃ b b', list.aggregate player names = .ok b ∧
      list.aggregate player names' = .ok b' ∧ b.total = b'.total
  /-- The second list is the first one with names added anywhere. -/
  grows : names.Sublist names' → list.ChargesWhole player names' → ∃ b b' n n',
    list.aggregate player names = .ok b ∧ list.aggregate player names' = .ok b' ∧
      b.entries.Subperm b'.entries ∧ b.total = .whole n ∧ b'.total = .whole n' ∧ n ≤ n'

/-- **Only the set of charged names counts.** Unless a price refuses to be worked out, names that cost nothing and
repetitions can be put in and left out, and the result stays the same, line by line. The same charged names in
another order have the same lines in another order, with that of the base price still in front. In whole
amounts the total stays the same, too, and with more names no line is lost and the total does not fall. -/
theorem countsCharged_of_computable (h : list.Computable player) (names names' : List Text) :
    list.CountsCharged player names names' := by
  obtain ⟨line, hline⟩ := h.exists_line
  constructor
  case same =>
    intro hsame
    have hlines : list.lines line names = list.lines line names' := by
      rw [lines_eq_append hline, lines_eq_append hline, hsame]
    rw [aggregate_of_line hline, aggregate_of_line hline, hlines]
  case reordered =>
    intro hset b b' hb hb'
    rw [entries_of_aggregate hline hb, entries_of_aggregate hline hb']
    refine ⟨lines_perm hline hset, fun hbase => ?_⟩
    have hfirst : [list.baseLine].filter (·.cost.isPositive) = [list.baseLine] :=
      List.filter_eq_self.mpr (by simpa)
    rw [lines_eq_append hline, lines_eq_append hline, hfirst]
    exact ⟨rfl, rfl⟩
  case total_eq =>
    intro hset hwhole
    have hperm := lines_perm hline hset
    have hlines := hwhole.isWhole hline
    have hlines' : ∀ e ∈ list.lines line names', e.cost.IsWhole := fun e he => hlines e (hperm.mem_iff.mpr he)
    refine ⟨_, _, aggregate_of_isWhole hline hlines, aggregate_of_isWhole hline hlines', ?_⟩
    exact congrArg Amount.whole (hperm.map _).sum_eq
  case grows =>
    intro hsub hwhole
    have hlines := (hwhole.mono hsub.subset).isWhole hline
    have hlines' := hwhole.isWhole hline
    exact ⟨_, _, _, _, aggregate_of_isWhole hline hlines, aggregate_of_isWhole hline hlines',
      lines_subperm list line hsub.subset, rfl, rfl, total_le_of_subset hlines' hsub.subset⟩

/-- Prices of all kinds; that of `h` is the number of the bitnode. -/
def bitnodePrices : PriceList where
  catalog :=
    ⟨[("f", .fixed (.whole 2)), ("g", .bySourceFile (.whole 3)), ("i", .malformed),
      ("h", .computed fun player => (player.map fun p => .ok (.whole p.bitnode)).getD (.error .noBitnode))], [], []⟩
  constants := Scripts.wholeConstants

theorem countsCharged_of_computable_reordered : bitnodePrices.Computable (some ⟨5, []⟩) ∧
    bitnodePrices.chargedNames (some ⟨5, []⟩) ["h", "i", "f", "h"] = [Text.ofString "h", Text.ofString "f"] ∧
    ∃ b b', bitnodePrices.aggregate (some ⟨5, []⟩) ["f", "h"] = .ok b ∧
      bitnodePrices.aggregate (some ⟨5, []⟩) ["h", "i", "f", "h"] = .ok b' ∧
      b.entries.Perm b'.entries ∧ b.total = b'.total := by
  have hcomputable : bitnodePrices.Computable (some ⟨5, []⟩) := by
    intro price hprice cost hcost
    simp only [Catalog.prices, bitnodePrices, List.map_cons, List.map_nil, List.flatMap_nil, List.append_nil,
      List.mem_cons, List.not_mem_nil, or_false] at hprice
    rcases hprice with rfl | rfl | rfl | rfl <;> cases hcost
    exact ⟨.whole 5, rfl⟩
  have hcharged : bitnodePrices.chargedNames (some ⟨5, []⟩) ["f", "h"] =
      [Text.ofString "f", Text.ofString "h"] := by rfl
  have hcharged' : bitnodePrices.chargedNames (some ⟨5, []⟩) ["h", "i", "f", "h"] =
      [Text.ofString "h", Text.ofString "f"] := by rfl
  have hset : ∀ name, name ∈ bitnodePrices.chargedNames (some ⟨5, []⟩) ["f", "h"] ↔
      name ∈ bitnodePrices.chargedNames (some ⟨5, []⟩) ["h", "i", "f", "h"] := by
    intro name
    rw [hcharged, hcharged']
    exact (List.Perm.swap _ _ []).mem_iff
  have hwhole : bitnodePrices.ChargesWhole (some ⟨5, []⟩) ["f", "h"] := by
    rintro e (rfl | ⟨name, hname, he⟩) -
    · exact ⟨1, rfl⟩
    · simp only [List.mem_cons, List.not_mem_nil, or_false] at hname
      rcases hname with rfl | rfl
      · cases he
        exact ⟨2, rfl⟩
      · cases he
        exact ⟨5, rfl⟩
  have h := countsCharged_of_computable hcomputable ["f", "h"] ["h", "i", "f", "h"]
  obtain ⟨b, b', hb, hb', htotal⟩ := h.total_eq hset hwhole
  exact ⟨hcomputable, hcharged', b, b', hb, hb', (h.reordered hset b b' hb hb').1, htotal⟩

end PriceList

end ScriptAudit
