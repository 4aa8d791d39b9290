/-
What it takes for amounts to have a sum. Whole amounts have one whatever their size. But a binary number among
them makes a binary number of the sum so far and of every amount behind it, and whole numbers beyond the range
have none (`Amount.sum_cases`).

For prices from a document that is all that can go wrong: each name has a line, and the lines have a sum or are
beyond the range, depending on which names are used together and in which order.
-/
import Mathlib
import ScriptAudit.Proofs.BinaryRange
import ScriptAudit.Proofs.ChargedNames

namespace ScriptAudit

namespace Amount

/-! ## Sums -/

/-- Whether the amount is a binary number or has a nearest one. -/
def InRange : Amount → Prop
  | .whole n => n.natAbs < Binary.limit
  | .real _ => True

instance : DecidablePred InRange
  | .whole n => inferInstanceAs (Decidable (n.natAbs < Binary.limit))
  | .real _ => inferInstanceAs (Decidable True)

/-- What the amounts need to be added up from left to right. The first binary number among them is `x`. -/
def Addable (amounts : List Amount) : Prop :=
  ∀ (wholes : List Int) x rest, amounts = wholes.map .whole ++ .real x :: rest →
    (Amount.whole wholes.sum).InRange ∧ ∀ a ∈ rest, a.InRange

theorem toFloat_cases (a : Amount) :
    (a.InRange ∧ ∃ x, a.toFloat = .ok x) ∨ (¬a.InRange ∧ a.toFloat = .error .beyondRange) := by
  cases a with
  | whole n =>
    rw [toFloat_whole]
    by_cases h : n.natAbs < Binary.limit
    · exact .inl ⟨h, _, if_pos h⟩
    · exact .inr ⟨h, if_neg h⟩
  | real x => exact .inl ⟨trivial, x, rfl⟩

theorem add_real (y : Float) (a : Amount) : (Amount.real y).add a = a.toFloat.map fun x => .real (y + x) := by
  cases a with
  | whole n =>
    change (do return .real (y + (← (Amount.whole n).toFloat)) : Except AmountError Amount) = _
    cases (Amount.whole n).toFloat <;> rfl
  | real x => rfl

/-- Once the sum is a binary number, each further amount is converted. -/
theorem foldlM_real_cases (y : Float) (rest : List Amount) :
    ((∀ a ∈ rest, a.InRange) ∧ ∃ total, rest.foldlM add (.real y) = .ok total) ∨
      ((∃ a ∈ rest, ¬a.InRange) ∧ rest.foldlM add (.real y) = .error .beyondRange) := by
  induction rest generalizing y with
  | nil => exact .inl ⟨by simp, _, rfl⟩
  | cons a rest ih =>
    rw [List.foldlM_cons, add_real]
    rcases a.toFloat_cases with ⟨ha, x, hx⟩ | ⟨ha, hx⟩
    · rw [hx]
      rcases ih (y + x) with ⟨hrest, htotal⟩ | ⟨⟨b, hb, hrange⟩, herror⟩
      · exact .inl ⟨List.forall_mem_cons.mpr ⟨ha, hrest⟩, htotal⟩
      · exact .inr ⟨⟨b, List.mem_cons_of_mem a hb, hrange⟩, herror⟩
    · rw [hx]
      exact .inr ⟨⟨a, List.mem_cons_self, ha⟩, rfl⟩

theorem sum_map_whole (wholes : List Int) : sum (wholes.map .whole) = .ok (.whole wholes.sum) := by
  have hwhole : ∀ a ∈ wholes.map whole, a.IsWhole := by
    intro a ha
    obtain ⟨n, -, rfl⟩ := List.mem_map.mp ha
    exact ⟨n, rfl⟩
  have hnumbers : (wholes.map whole).map number = wholes := by
    rw [List.map_map]
    exact List.map_id wholes
  rw [sum_of_isWhole hwhole, hnumbers]

/-- Whole amounts are added up exactly before they are converted. -/
theorem sum_append_real (wholes : List Int) (x : Float) (rest : List Amount) :
    sum (wholes.map .whole ++ .real x :: rest) =
      (Amount.whole wholes.sum).toFloat >>= fun w => rest.foldlM add (.real (w + x)) := by
  have hsum := sum_map_whole wholes
  rw [sum] at hsum ⊢
  rw [List.foldlM_append, hsum]
  change (Amount.whole wholes.sum).add (.real x) >>= rest.foldlM add = _
  change (do return .real ((← (Amount.whole wholes.sum).toFloat) + x) : Except AmountError Amount)
    >>= rest.foldlM add = _
  cases (Amount.whole wholes.sum).toFloat <;> rfl

theorem sum_append_real_cases (wholes : List Int) (x : Float) (rest : List Amount) :
    (((Amount.whole wholes.sum).InRange ∧ ∀ a ∈ rest, a.InRange) ∧
        ∃ total, sum (wholes.map .whole ++ .real x :: rest) = .ok total) ∨
      (¬((Amount.whole wholes.sum).InRange ∧ ∀ a ∈ rest, a.InRange) ∧
        sum (wholes.map .whole ++ .real x :: rest) = .error .beyondRange) := by
  rw [sum_append_real]
  rcases (Amount.whole wholes.sum).toFloat_cases with ⟨hwholes, w, hw⟩ | ⟨hwholes, hw⟩
  · rw [hw]
    rcases foldlM_real_cases (w + x) rest with ⟨hrest, htotal⟩ | ⟨⟨a, ha, hrange⟩, herror⟩
    · exact .inl ⟨⟨hwholes, hrest⟩, htotal⟩
    · exact .inr ⟨fun h => hrange (h.2 a ha), herror⟩
  · rw [hw]
    exact .inr ⟨fun h => hwholes h.1, rfl⟩

/-- Either all amounts are whole, or there is a first binary number. -/
theorem exists_wholes (amounts : List Amount) : ∃ wholes : List Int,
    amounts = wholes.map .whole ∨ ∃ x rest, amounts = wholes.map .whole ++ .real x :: rest := by
  induction amounts with
  | nil => exact ⟨[], .inl rfl⟩
  | cons a amounts ih =>
    cases a with
    | real x => exact ⟨[], .inr ⟨x, amounts, rfl⟩⟩
    | whole n =>
      obtain ⟨wholes, rfl | ⟨x, rest, rfl⟩⟩ := ih
      · exact ⟨n :: wholes, .inl rfl⟩
      · exact ⟨n :: wholes, .inr ⟨x, rest, rfl⟩⟩

theorem addable_real_cons {x : Float} {rest : List Amount} :
    Addable (.real x :: rest) ↔ ∀ a ∈ rest, a.InRange := by
  constructor
  · intro h
    exact (h [] x rest rfl).2
  · rintro h (_ | ⟨n, wholes⟩) y rest' heq
    · cases heq
      exact ⟨Binary.limit_pos, h⟩
    · cases heq

/-- **A sum exists or is beyond the range.** -/
theorem sum_cases (amounts : List Amount) :
    (Addable amounts ∧ ∃ total, sum amounts = .ok total) ∨
      (¬Addable amounts ∧ sum amounts = .error .beyondRange) := by
  by_cases h : Addable amounts
  · refine .inl ⟨h, ?_⟩
    obtain ⟨wholes, rfl | ⟨x, rest, rfl⟩⟩ := exists_wholes amounts
    · exact ⟨_, sum_map_whole wholes⟩
    · rcases sum_append_real_cases wholes x rest with ⟨-, htotal⟩ | ⟨hnot, -⟩
      · exact htotal
      · exact absurd (h wholes x rest rfl) hnot
  · refine .inr ⟨h, ?_⟩
    simp only [Addable, not_forall] at h
    obtain ⟨wholes, x, rest, rfl, hnot⟩ := h
    rcases sum_append_real_cases wholes x rest with ⟨hrange, -⟩ | ⟨-, herror⟩
    · exact absurd hrange hnot
    · exact herror

end Amount

/-! ## Prices from documents -/

namespace PriceList

theorem Computable.of_ofJson {source : Text} {document : Json} {list : PriceList}
    (h : (ofJson source document).result = .ok list) (player : Option Player) : list.Computable player := by
  rintro price hprice cost rfl
  exact (stated_of_ofJson h _ hprice).elim

/-- **Prices from a document can always be worked out, but their sum may be beyond the range.** There is a line for
the base price and for each name, and the lines that cost something make up the breakdown, if their costs have a
sum. If they have none, nothing but the range of binary numbers is to blame. -/
theorem aggregate_of_ofJson {source : Text} {document : Json} {list : PriceList}
    (h : (ofJson source document).result = .ok list) (player : Option Player) (names : List Text) :
    ∃ lines priced, list.entries player names = .ok lines ∧ priced = lines.filter (·.cost.isPositive) ∧
      (Amount.Addable (priced.map (·.cost)) → ∃ total, list.aggregate player names = .ok ⟨total, priced⟩) ∧
      (¬Amount.Addable (priced.map (·.cost)) →
        list.aggregate player names = .error (.amount .beyondRange)) := by
  obtain ⟨line, hline⟩ := (Computable.of_ofJson h player).exists_line
  refine ⟨_, list.lines line names, entries_of_line hline names, rfl, ?_⟩
  rw [aggregate_of_line hline]
  rcases Amount.sum_cases ((list.lines line names).map (·.cost)) with ⟨hsum, total, htotal⟩ | ⟨hsum, herror⟩
  · rw [htotal]
    exact ⟨fun _ => ⟨total, rfl⟩, fun hnot => absurd hsum hnot⟩
  · rw [herror]
    exact ⟨fun hsum' => absurd hsum' hsum, fun _ => rfl⟩

/-- The price of `f` is the least that has no nearest binary number. -/
def boundaryDocument : Json :=
  .object [("default", .object [("f", .ofInt Binary.limit), ("g", .ofInt (Binary.limit - 1))]),
    ("constants", .object [("base", .number (.real 2.0))])]

def boundaryPrices : PriceList where
  catalog :=
    ⟨[("f", .fixed (.whole Binary.limit)), ("g", .fixed (.whole (Binary.limit - 1)))], [], Catalog.defaultPriority⟩
  constants := { Constants.standard with base := .real 2.0 }

theorem aggregate_of_ofJson_boundary :
    (ofJson "catalog.json" boundaryDocument).result = .ok boundaryPrices ∧
      (∃ b, boundaryPrices.aggregate none ["g"] = .ok b) ∧
      boundaryPrices.aggregate none ["f"] = .error (.amount .beyondRange) := by
  have hread : (ofJson "catalog.json" boundaryDocument).result = .ok boundaryPrices := rfl
  refine ⟨hread, ?_, ?_⟩
  · obtain ⟨lines, priced, hlines, hpriced, hsum, -⟩ := aggregate_of_ofJson hread none ["g"]
    have hcosts : priced.map (·.cost) = [.real 2.0, .whole (Binary.limit - 1)] := by
      cases hlines
      rw [hpriced, List.filter_eq_self.mpr (by decide +kernel)]
      rfl
    rw [hcosts, Amount.addable_real_cons] at hsum
    obtain ⟨total, htotal⟩ := hsum (List.forall_mem_singleton.mpr (by decide +kernel))
    exact ⟨_, htotal⟩
  · obtain ⟨lines, priced, hlines, hpriced, -, herror⟩ := aggregate_of_ofJson hread none ["f"]
    have hcosts : priced.map (·.cost) = [.real 2.0, .whole Binary.limit] := by
      cases hlines
      rw [hpriced, List.filter_eq_self.mpr (by decide +kernel)]
      rfl
    rw [hcosts, Amount.addable_real_cons] at herror
    exact herror fun hrange => Nat.lt_irrefl _ (hrange _ List.mem_cons_self)

end PriceList

end ScriptAudit
