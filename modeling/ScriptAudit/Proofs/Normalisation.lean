/-
Catalogs without what no lookup comes to: the tables of namespaces that are not in the priority list, prices
that a namespace further up already has, prices of names that have one of their own, and the repetitions and
gaps of the priority list. Leaving all of that out at once changes no price (`aggregate_normalised`), and no
error either.

A lookup takes the first namespace that has the name, so a price may be blanked out wherever an earlier
namespace has one (`findSome?_congr_until`); the rest is what a filter does to a table.
-/
import Mathlib.Data.List.Basic
import ScriptAudit.Cost.Breakdown

namespace ScriptAudit

/-! ## First answers of a list -/

section FirstAnswer

variable {α β : Type} {f g : α → Option β}

/-- What has no answer may be left out. -/
theorem findSome?_filter {keep : α → Bool} {as : List α} (h : ∀ a ∈ as, keep a = false → f a = none) :
    (as.filter keep).findSome? f = as.findSome? f := by
  induction as with
  | nil => rfl
  | cons a as ih =>
    obtain ⟨ha, has⟩ := List.forall_mem_cons.mp h
    rw [List.filter_cons, List.findSome?_cons]
    cases hkeep : keep a with
    | true => rw [if_pos rfl, List.findSome?_cons, ih has]
    | false => rw [if_neg nofun, ha hkeep, ih has]

/-- What has been asked before has no new answer. -/
theorem findSome?_eraseDups [BEq α] [LawfulBEq α] (as : List α) :
    as.eraseDups.findSome? f = as.findSome? f := by
  induction hn : as.length using Nat.strongRecOn generalizing as with
  | ind n ih =>
    cases as with
    | nil => rfl
    | cons a as =>
      have hlt : (as.filter fun b => !b == a).length < n := by
        rw [← hn]
        exact Nat.lt_succ_of_le (List.length_filter_le _ _)
      rw [List.eraseDups_cons, List.findSome?_cons, List.findSome?_cons, ih _ hlt _ rfl]
      cases ha : f a with
      | some b => rfl
      | none =>
        refine findSome?_filter fun b _ hb => ?_
        rw [Bool.not_eq_false', beq_iff_eq] at hb
        rw [hb, ha]

/-- Only up to the first answer do the answers matter. -/
theorem findSome?_congr_until {as : List α}
    (h : ∀ before a after, as = before ++ a :: after → (∀ b ∈ before, f b = none) → g a = f a) :
    as.findSome? g = as.findSome? f := by
  induction as with
  | nil => rfl
  | cons a as ih =>
    rw [List.findSome?_cons, List.findSome?_cons, h [] a as rfl nofun]
    cases ha : f a with
    | some b => rfl
    | none =>
      refine ih fun before b after hsplit hbefore => h (a :: before) b after (by rw [hsplit]; rfl) ?_
      exact List.forall_mem_cons.mpr ⟨ha, hbefore⟩

end FirstAnswer

/-! ## Tables -/

namespace Table

variable {κ α β : Type}

/-- The entries whose keys are to be kept. -/
def restrict (t : Table κ α) (keep : κ → Bool) : Table κ α := t.filter fun entry => keep entry.1

/-- The same keys with other values. -/
def mapValues (t : Table κ α) (f : κ → α → β) : Table κ β := t.map fun entry => (entry.1, f entry.1 entry.2)

variable [BEq κ] [LawfulBEq κ]

theorem get?_restrict (t : Table κ α) (keep : κ → Bool) (key : κ) :
    (t.restrict keep).get? key = if keep key then t.get? key else none := by
  have hfind : (fun entry : κ × α => decide (keep entry.1 = true ∧ (entry.1 == key) = true)) =
      fun entry => keep key && entry.1 == key := by
    funext entry
    cases hkey : entry.1 == key with
    | false => simp
    | true => rw [eq_of_beq hkey]; simp
  rw [get?, restrict, List.find?_filter, hfind]
  cases keep key with
  | true => rfl
  | false => simp

theorem get?_mapValues (t : Table κ α) (f : κ → α → β) (key : κ) :
    (t.mapValues f).get? key = (t.get? key).map (f key) := by
  rw [get?, get?, mapValues, List.find?_map, Option.map_map, Option.map_map]
  cases hfind : t.find? (·.1 == key) with
  | none => simpa [Function.comp_def] using hfind
  | some entry =>
    have hkey : entry.1 = key := by simpa using List.find?_some hfind
    simp [Function.comp_def, hfind, hkey]

theorem not_mem_keys_of_get? {t : Table κ α} {key : κ} (h : t.get? key = none) : key ∉ t.keys := by
  rw [get?, Option.map_eq_none_iff, List.find?_eq_none] at h
  intro hkey
  obtain ⟨entry, hentry, rfl⟩ := List.mem_map.mp hkey
  exact h entry hentry (beq_self_eq_true _)

end Table

/-! ## Normalised catalogs -/

/-- The names that no table is asked for. -/
def Constants.specialNames : List Text := ["hacknet", "document", "window", "corporation"]

theorem Constants.specials_keys (c : Constants) : c.specials.keys = specialNames := rfl

namespace Catalog

/-- Another namespace that comes first in the priority list before this one does has the name. -/
def isShadowed (c : Catalog) (ns name : Text) : Bool :=
  c.priority.any fun other => other != ns && decide (c.priority.idxOf other < c.priority.idxOf ns) &&
    (c.inNamespace? name other).isSome

/-- Some namespace in the priority list has the name. -/
def isClaimed (c : Catalog) (name : Text) : Bool := c.priority.any fun ns => (c.inNamespace? name ns).isSome

/-- The catalog without what no lookup comes to. -/
def normalised (c : Catalog) : Catalog where
  default := c.default.restrict fun name => !Constants.specialNames.contains name && !c.isClaimed name
  namespaces := (c.namespaces.restrict c.priority.contains).mapValues fun ns table =>
    table.restrict fun name => !Constants.specialNames.contains name && !c.isShadowed ns name
  priority := (c.priority.filter fun ns => (c.namespaces.get? ns).isSome).eraseDups

variable {c : Catalog} {name ns : Text}

/-- What a namespace of the priority list still has of a name. -/
theorem inNamespace?_normalised (hname : name ∉ Constants.specialNames) (hns : ns ∈ c.priority) :
    c.normalised.inNamespace? name ns = if c.isShadowed ns name then none else c.inNamespace? name ns := by
  have hspecial : Constants.specialNames.contains name = false := by simpa using hname
  rw [inNamespace?, inNamespace?, normalised, Table.get?_mapValues, Table.get?_restrict,
    if_pos (List.contains_iff_mem.mpr hns)]
  cases c.namespaces.get? ns with
  | none => simp
  | some table =>
    rw [Option.map_some, Option.bind_some, Option.bind_some, Table.get?_restrict, hspecial]
    cases c.isShadowed ns name <;> rfl

/-- Where no namespace before has the name, it is not shadowed. -/
theorem isShadowed_eq_false {before after : List Text} (hsplit : c.priority = before ++ ns :: after)
    (hbefore : ∀ other ∈ before, c.inNamespace? name other = none) : c.isShadowed ns name = false := by
  rw [isShadowed, List.any_eq_false]
  intro other hother hshadows
  simp only [Bool.and_eq_true, bne_iff_ne, decide_eq_true_eq] at hshadows
  obtain ⟨⟨-, hlt⟩, hsome⟩ := hshadows
  have hns : c.priority.idxOf ns ≤ before.length := by
    rw [hsplit, List.idxOf_append]
    split
    · exact List.idxOf_le_length
    · simp
  have hmem : other ∈ before := by
    have htake := (List.mem_take_iff_idxOf_lt hother).mpr (Nat.lt_of_lt_of_le hlt hns)
    rwa [hsplit, List.take_left] at htake
  rw [hbefore other hmem] at hsome
  cases hsome

/-- The first namespace that has the name is the same, and so is the price there. -/
theorem findSome?_normalised {β : Type} (hname : name ∉ Constants.specialNames) (f : Text → Price → β) :
    (c.normalised.priority.findSome? fun ns => (c.normalised.inNamespace? name ns).map (f ns)) =
      c.priority.findSome? fun ns => (c.inNamespace? name ns).map (f ns) := by
  rw [normalised, findSome?_eraseDups, ← normalised, findSome?_filter]
  · refine findSome?_congr_until fun before ns after hsplit hbefore => ?_
    have hshadowed : c.isShadowed ns name = false :=
      isShadowed_eq_false hsplit fun other hother => Option.map_eq_none_iff.mp (hbefore other hother)
    rw [inNamespace?_normalised hname (by rw [hsplit]; simp), hshadowed, if_neg nofun]
  · intro ns hns htable
    have hnone : c.namespaces.get? ns = none := by simpa using htable
    rw [inNamespace?_normalised hname hns, inNamespace?, hnone, Option.bind_none, ite_self, Option.map_none]

/-- **Every name that is looked for is found where it was.** -/
theorem lookup_normalised (c : Catalog) (hname : name ∉ Constants.specialNames) :
    c.normalised.lookup name = c.lookup name := by
  rw [lookup, lookup, findSome?_normalised hname fun ns price => (qualified ns name, price)]
  split
  · rfl
  · rename_i hnone
    -- no namespace has the name, so the default table has kept it
    have hclaimed : c.isClaimed name = false := by
      rw [isClaimed, List.any_eq_false]
      intro ns hns
      rw [Option.map_eq_none_iff.mp (List.findSome?_eq_none_iff.mp hnone ns hns)]
      nofun
    have hspecial : Constants.specialNames.contains name = false := by simpa using hname
    rw [normalised, Table.get?_restrict, hspecial, hclaimed]
    rfl

end Catalog

/-- **Normalising a catalog changes no breakdown and no error**, whatever the prices, the player and the names
are. -/
theorem aggregate_normalised (c : Catalog) (constants : Constants) (player : Option Player) (names : List Text) :
    PriceList.aggregate ⟨c.normalised, constants⟩ player names =
      PriceList.aggregate ⟨c, constants⟩ player names := by
  have hresolve : PriceList.resolve ⟨c.normalised, constants⟩ player =
      PriceList.resolve ⟨c, constants⟩ player := by
    funext name
    unfold PriceList.resolve
    simp only
    split
    · rfl
    · rename_i hspecial
      have hname := Table.not_mem_keys_of_get? hspecial
      rw [Constants.specials_keys] at hname
      rw [c.lookup_normalised hname]
  simp only [PriceList.aggregate, PriceList.entries, hresolve]

/-- The second namespace is never asked, the first one twice, the third has a price that the first hides, the
fourth has no table, and `window` has a price of its own. -/
example : (Catalog.mk [("f", .malformed), ("h", .malformed), ("window", .malformed)]
      [("gang", [("f", .fixed (.whole 1))]), ("stock", [("h", .fixed (.whole 2))]),
        ("ui", [("f", .fixed (.whole 3)), ("g", .fixed (.whole 4))])]
      ["gang", "ui", "gang", "sleeve"]).normalised =
    ⟨[("h", .malformed)], [("gang", [("f", .fixed (.whole 1))]), ("ui", [("g", .fixed (.whole 4))])],
      ["gang", "ui"]⟩ := by rfl

end ScriptAudit
