/-
A script costs at least as much as what it imports. The scripts that an imported script reaches are among
those that the importing one reaches, so its names are too; each name has one line, whichever script asks,
and in whole amounts the lines can be added in any order. With prices from a document no line can fail
(`PriceList.Whole.resolve_eq`), so the imported script has a cost whenever the importing one has.
-/
import Mathlib
import ScriptAudit.Proofs.ImportClosure
import ScriptAudit.Proofs.TreeLayout
import ScriptAudit.Proofs.WholePrices

namespace ScriptAudit

/-! ## Fewer names -/

namespace PriceList

variable {list : PriceList} {line : Text → UsageEntry}

theorem lines_subperm (list : PriceList) (line : Text → UsageEntry) {names names' : List Text}
    (h : names ⊆ names') : (list.lines line names).Subperm (list.lines line names') := by
  have hsubset : names.eraseDups ⊆ names'.eraseDups := by
    intro name hname
    exact List.mem_eraseDups.mpr (h (List.mem_eraseDups.mp hname))
  obtain ⟨part, hperm, hsub⟩ := (nodup_eraseDups names).subperm hsubset
  have hmap : (names.eraseDups.map line).Subperm (names'.eraseDups.map line) :=
    ⟨part.map line, hperm.map line, hsub.map line⟩
  exact ((List.subperm_cons _).mpr hmap).filter _

theorem Whole.total_le (h : list.Whole) (hwhole : ∀ name, (line name).cost.IsWhole)
    {names names' : List Text} (hnames : names ⊆ names') :
    ((list.lines line names).map (·.cost.number)).sum ≤
      ((list.lines line names').map (·.cost.number)).sum := by
  obtain ⟨part, hperm, hsub⟩ := lines_subperm list line hnames
  rw [← (hperm.map _).sum_eq]
  refine (hsub.map _).sum_le_sum ?_
  intro n hn
  obtain ⟨e, he, rfl⟩ := List.mem_map.mp hn
  exact (h.cost_of_mem_lines hwhole he).2.le

end PriceList

/-! ## Scripts and what they import -/

namespace Scripts

variable {scripts : Scripts}

theorem usage_eq_ok_iff {filename : Text} {list : PriceList} {player : Option Player} {b : Breakdown} :
    scripts.usage filename list player = .ok b ↔
      ∃ names, scripts.collectNames filename = .ok names ∧ list.aggregate player names = .ok b := by
  simp only [usage, Except.bind_eq_ok, Except.mapError_eq_ok]

/-- What an imported script uses, the importing one uses as well. -/
theorem collectNames_of_reaches {script imported : Text} {names : List Text}
    (h : scripts.collectNames script = .ok names) (hreaches : scripts.Reaches script imported) :
    ∃ part, scripts.collectNames imported = .ok part ∧ part ⊆ names := by
  have hkey := mem_keys_of_collectNames h
  obtain ⟨-, hsound⟩ := exists_collectNames_iff.mp ⟨names, h⟩
  have himported : imported ∈ scripts.keys :=
    mem_keys_of_mem_breadthFirst hkey ((mem_breadthFirst_iff hkey).mpr hreaches)
  obtain ⟨part, hpart⟩ := exists_collectNames_iff.mpr
    ⟨himported, fun name hname => hsound name (hreaches.trans hname)⟩
  refine ⟨part, hpart, fun x hx => ?_⟩
  obtain ⟨name, hname, hx⟩ := (mem_iff_of_collectNames hpart).mp hx
  exact (mem_iff_of_collectNames h).mpr ⟨name, hreaches.trans hname, hx⟩

/-- **A script costs at least as much as what it imports.** With a catalog from a document and whole
amounts, whatever a script imports, directly or not, has a cost if the script has one; its lines are
among those of the script and its total is no greater. Scripts that import each other cost the same. -/
theorem usage_of_imported {origin : Text} {document : Json} {catalog : Catalog}
    {documented constants : Constants} {player : Option Player} {script imported : Text} {cost : Breakdown}
    (hcatalog : (PriceList.ofJson origin document).result = .ok ⟨catalog, documented⟩)
    (hprices : ∀ price ∈ catalog.prices, ∀ a ∈ price.amounts, a.IsWhole)
    (hconstants : ∀ a ∈ constants.amounts, a.IsWhole)
    (hcost : scripts.usage script ⟨catalog, constants⟩ player = .ok cost)
    (himports : Relation.TransGen scripts.Imports script imported) :
    ∃ part, scripts.usage imported ⟨catalog, constants⟩ player = .ok part ∧
      part.entries ⊆ cost.entries ∧
      (∃ m n, part.total = .whole m ∧ cost.total = .whole n ∧ m ≤ n) ∧
      (Relation.TransGen scripts.Imports imported script →
        part.total = cost.total ∧ part.entries.Perm cost.entries) := by
  have hwhole : (PriceList.mk catalog constants).Whole :=
    ⟨PriceList.stated_of_ofJson hcatalog, hprices, hconstants⟩
  obtain ⟨line, hline, hlines⟩ := hwhole.exists_line player
  obtain ⟨names, hnames, haggregate⟩ := usage_eq_ok_iff.mp hcost
  obtain ⟨part, hpart, hsub⟩ := collectNames_of_reaches hnames himports.to_reflTransGen
  rw [hwhole.aggregate_eq hline hlines] at haggregate
  cases haggregate
  have hsubperm := PriceList.lines_subperm ⟨catalog, constants⟩ line hsub
  refine ⟨_, usage_eq_ok_iff.mpr ⟨part, hpart, hwhole.aggregate_eq hline hlines part⟩, hsubperm.subset,
    ⟨_, _, rfl, rfl, hwhole.total_le hlines hsub⟩, fun hback => ?_⟩
  obtain ⟨names', hnames', hsub'⟩ := collectNames_of_reaches hpart hback.to_reflTransGen
  rw [hnames] at hnames'
  cases hnames'
  have hperm := hsubperm.antisymm (PriceList.lines_subperm ⟨catalog, constants⟩ line hsub')
  exact ⟨congrArg Amount.whole (hperm.map _).sum_eq, hperm⟩

/-- Prices for the functions of `circular`, of both kinds. -/
def circularPrices : Json :=
  .object [("default", .object [("f", .number (.whole 2)), ("g", .object [("sf4", .number (.whole 3))])])]

def circularCatalog : Catalog :=
  ⟨[("f", .fixed (.whole 2)), ("g", .bySourceFile (.whole 3))], [], Catalog.defaultPriority⟩

def wholeConstants : Constants := ⟨.whole 1, .whole 4, .whole 25, .whole 1022⟩

theorem usage_of_imported_circular : ∃ cost part,
    circular.usage "a.js" ⟨circularCatalog, wholeConstants⟩ none = .ok cost ∧
    circular.usage "b.js" ⟨circularCatalog, wholeConstants⟩ none = .ok part ∧
    part.total = cost.total ∧ part.entries.Perm cost.entries := by
  have hcatalog : (PriceList.ofJson "prices.json" circularPrices).result =
      .ok ⟨circularCatalog, .standard⟩ := by rfl
  have hprices : ∀ price ∈ circularCatalog.prices, ∀ a ∈ price.amounts, a.IsWhole := by
    simp [circularCatalog, Catalog.prices, Price.amounts, Amount.IsWhole]
  have hconstants : ∀ a ∈ wholeConstants.amounts, a.IsWhole := by
    simp [wholeConstants, Constants.amounts, Amount.IsWhole]
  have hwhole : (PriceList.mk circularCatalog wholeConstants).Whole :=
    ⟨PriceList.stated_of_ofJson hcatalog, hprices, hconstants⟩
  obtain ⟨line, hline, hlines⟩ := hwhole.exists_line none
  obtain ⟨names, hnames⟩ := exists_collectNames_iff.mpr ⟨List.mem_cons_self, fun _ => circular_sound⟩
  have hcost := usage_eq_ok_iff.mpr ⟨names, hnames, hwhole.aggregate_eq hline hlines names⟩
  obtain ⟨hab, hba⟩ := circular_imports
  obtain ⟨part, hpart, -, -, hback⟩ :=
    usage_of_imported hcatalog hprices hconstants hcost (.single hab)
  exact ⟨_, part, hcost, hpart, hback (.single hba)⟩

end Scripts

end ScriptAudit
