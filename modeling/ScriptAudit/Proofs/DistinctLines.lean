/-
The lines of a breakdown are all different. A name is displayed alone or after the name of a namespace and
a dot. Names of namespaces may have dots in them or be empty, but what a script uses are identifiers, and no
identifier has a dot (`dotless_of_collectNames`). So the name of a line can be read off what is displayed
(`afterLastDot_of_resolve`), and different names have different lines.
-/
import Mathlib.Data.List.DropRight
import ScriptAudit.Proofs.CostOfImports
import ScriptAudit.Proofs.NameOrder
import ScriptAudit.Proofs.Outcomes

namespace ScriptAudit

/-! ## Names without dots -/

namespace Text

def dot : CodePoint := '.'

/-- What follows the last dot of a text, which is all of it if there is none. -/
def afterLastDot (t : Text) : Text := List.rtakeWhile (fun c => c != dot) t

theorem afterLastDot_of_dotless {t : Text} (h : dot ∉ t) : t.afterLastDot = t := by
  rw [afterLastDot, List.rtakeWhile_eq_self_iff]
  intro c hc
  have hne : c ≠ dot := fun heq => h (heq ▸ hc)
  simpa using hne

theorem afterLastDot_qualified (ns : Text) {name : Text} (h : dot ∉ name) :
    (Catalog.qualified ns name).afterLastDot = name := by
  have hname : ∀ c ∈ name.reverse, (c != dot) = true := by
    intro c hc
    have hne : c ≠ dot := fun heq => h (heq ▸ List.mem_reverse.mp hc)
    simpa using hne
  have hreverse : (Catalog.qualified ns name).reverse = name.reverse ++ (dot :: ns.reverse) := by
    simp only [Catalog.qualified, List.reverse_append]
    rfl
  rw [afterLastDot, List.rtakeWhile, hreverse, List.takeWhile_append_of_pos hname, List.takeWhile_cons]
  simp

end Text

theorem CodePoint.ne_dot_of_continuesName {c : CodePoint} (h : c.continuesName = true) : c ≠ Text.dot := by
  intro heq
  subst heq
  exact absurd h (by decide)

/-- All code points of a name go on with a name. -/
theorem Lexeme.continuesName_of_name {t : Text} {n : Nat} (h : Lexeme.name.length? t = some n) :
    ∀ c ∈ t.take n, c.continuesName = true := by
  simp only [Lexeme.length?] at h
  split at h
  · cases h
    intro c hc
    have htake : t.take (Text.spanLength CodePoint.continuesName t) = t.takeWhile CodePoint.continuesName :=
      (List.prefix_iff_eq_take.mp (List.takeWhile_prefix _)).symm
    rw [htake] at hc
    exact List.mem_takeWhile_imp hc
  · cases h

theorem dotless_of_read {source filename : Text} {p : Program} (h : Program.read source filename = .ok p)
    {name : Text} (hname : name ∈ p.root.referencedNames) : Text.dot ∉ name := by
  obtain ⟨n, hn, hform⟩ := Node.mem_referencedNames.mp hname
  have hmem : n ∈ p.root.nodes := Node.mem_nodes_of_mem_preorder (Node.mem_uses.mp hn).1
  have hfits : n.Fits source := by
    rcases (arranged_of_parse (read_eq_ok_iff.mp h)).eq_or_all hmem with rfl | hall
    · cases hform
    · exact hall.self
  have hwritten := hfits.written
  rw [hform] at hwritten
  obtain ⟨hstands, rfl⟩ := hwritten
  intro hdot
  exact CodePoint.ne_dot_of_continuesName (Lexeme.continuesName_of_name hstands _ hdot) rfl

theorem Scripts.dotless_of_collectNames {scripts : Scripts} {filename : Text} {names : List Text}
    (h : scripts.collectNames filename = .ok names) {name : Text} (hname : name ∈ names) :
    Text.dot ∉ name := by
  obtain ⟨file, -, hused⟩ := (mem_iff_of_collectNames h).mp hname
  simp only [namesOf, List.mem_flatMap, Option.mem_toList] at hused
  obtain ⟨p, hp, hused⟩ := hused
  obtain ⟨source, -, hread⟩ := program?_eq_some_iff.mp hp
  exact dotless_of_read hread hused

/-! ## What a line displays -/

theorem Constants.kind_of_specials {c : Constants} {name : Text} {kind : UsageKind} {cost : Amount}
    (h : c.specials.get? name = some (kind, cost)) : kind ≠ .base := by
  obtain ⟨entry, hentry, heq⟩ := Table.exists_of_get? h
  simp only [specials, List.mem_cons, List.not_mem_nil, or_false] at hentry
  rcases hentry with rfl | rfl | rfl | rfl <;> cases heq <;> decide

/-- A name is displayed alone or after its namespace. -/
theorem Catalog.shown_of_lookup {c : Catalog} {name shown : Text} {price : Price}
    (h : c.lookup name = some (shown, price)) : shown = name ∨ ∃ ns, shown = qualified ns name := by
  obtain ⟨ns, hshown, -⟩ | ⟨hshown, -⟩ := lookup_cases h
  · exact .inr ⟨ns, hshown⟩
  · exact .inl hshown

namespace PriceList

variable {list : PriceList} {player : Option Player} {names : List Text} {b : Breakdown} {e : UsageEntry}

theorem shown_of_resolve {name : Text} (h : list.resolve player name = .ok e) :
    e.kind ≠ .base ∧ (e.name = name ∨ ∃ ns, e.name = Catalog.qualified ns name) := by
  unfold resolve at h
  split at h
  · rename_i kind cost hspecial
    cases h
    exact ⟨Constants.kind_of_specials hspecial, .inl rfl⟩
  · split at h
    · cases h
      exact ⟨by simp, .inl rfl⟩
    · rename_i shown price hlookup
      obtain ⟨cost, -, h⟩ := Except.bind_eq_ok.mp h
      cases h
      exact ⟨by simp, Catalog.shown_of_lookup hlookup⟩

/-- A name without dots can be read off its line. -/
theorem afterLastDot_of_resolve {name : Text} (h : list.resolve player name = .ok e)
    (hdot : Text.dot ∉ name) : e.name.afterLastDot = name := by
  rcases (shown_of_resolve h).2 with hname | ⟨ns, hname⟩
  · rw [hname, Text.afterLastDot_of_dotless hdot]
  · rw [hname, Text.afterLastDot_qualified ns hdot]

/-! ## The lines of a breakdown -/

def baseLine (list : PriceList) : UsageEntry := ⟨.base, baseEntryName, list.constants.base⟩

/-- A breakdown has the lines of the base price and of the names, as far as they cost anything. -/
theorem aggregate_eq_ok_iff : list.aggregate player names = .ok b ↔
    ∃ lines, names.eraseDups.mapM (list.resolve player) = .ok lines ∧
      b.entries = (list.baseLine :: lines).filter (·.cost.isPositive) ∧
      Amount.sum (b.entries.map (·.cost)) = .ok b.total := by
  simp only [aggregate, entries, Except.bind_eq_ok, Except.pure_eq_ok, Except.mapError_eq_ok]
  constructor
  · intro h
    obtain ⟨_, ⟨lines, hlines, rfl⟩, total, htotal, rfl⟩ := h
    exact ⟨lines, hlines, rfl, htotal⟩
  · intro h
    obtain ⟨lines, hlines, hentries, htotal⟩ := h
    rw [hentries] at htotal
    refine ⟨_, ⟨lines, hlines, rfl⟩, b.total, htotal, ?_⟩
    obtain ⟨total, entries⟩ := b
    rw [show entries = _ from hentries]
    rfl

/-- The breakdown of names: its lines are different, the one of the base price comes first if it is there,
each of them costs something, and every other one is that of one name only. -/
structure Itemises (list : PriceList) (player : Option Player) (names : List Text) (b : Breakdown) : Prop where
  distinct : (b.entries.map fun e => (e.kind, e.name)).Nodup
  base_first : ∀ (i : Nat) (e : UsageEntry), b.entries[i]? = some e → e.kind = .base → i = 0
  positive : ∀ e ∈ b.entries, e.cost.isPositive = true
  /-- From left to right, beginning with zero. -/
  total : (b.entries.map (·.cost)).foldlM Amount.add Amount.zero = .ok b.total
  owner : ∀ e ∈ b.entries, e.kind ≠ .base →
    e.name.afterLastDot ∈ names ∧ list.resolve player e.name.afterLastDot = .ok e
  no_other : ∀ e ∈ b.entries, ∀ name ∈ names, ∀ e', list.resolve player name = .ok e' →
    (e'.kind, e'.name) = (e.kind, e.name) → name = e.name.afterLastDot
  /-- Nothing is left out that costs something. -/
  complete : ∀ name ∈ names, ∀ e, list.resolve player name = .ok e → e.cost.isPositive = true → e ∈ b.entries

/-- The names of lines, in order. -/
theorem map_afterLastDot_of_mapM {lines : List UsageEntry} (hdot : ∀ name ∈ names, Text.dot ∉ name)
    (h : names.mapM (list.resolve player) = .ok lines) :
    lines.map (fun e => e.name.afterLastDot) = names := by
  have hboth := (List.forall₂_and_left _ _).mpr ⟨hdot, Except.forall₂_of_mapM h⟩
  symm
  rw [← List.forall₂_eq_eq_eq, List.forall₂_map_right_iff]
  exact hboth.imp fun name e hline => (afterLastDot_of_resolve hline.2 hline.1).symm

/-- Every one of these lines is that of the name read off it. -/
theorem owner_of_mapM {lines : List UsageEntry} (hdot : ∀ name ∈ names, Text.dot ∉ name)
    (h : names.mapM (list.resolve player) = .ok lines) (he : e ∈ lines) :
    e.kind ≠ .base ∧ e.name.afterLastDot ∈ names ∧ list.resolve player e.name.afterLastDot = .ok e := by
  obtain ⟨name, hname, hline⟩ := Except.exists_of_mem_result h he
  rw [afterLastDot_of_resolve hline (hdot name hname)]
  exact ⟨(shown_of_resolve hline).1, hname, hline⟩

/-- The base price has a kind of its own, so that a name displayed like it does no harm. -/
theorem nodup_titles {lines : List UsageEntry} (hnames : names.Nodup)
    (hdot : ∀ name ∈ names, Text.dot ∉ name) (h : names.mapM (list.resolve player) = .ok lines) :
    ((list.baseLine :: lines).map fun e => (e.kind, e.name)).Nodup := by
  refine List.nodup_cons.mpr ⟨?_, ?_⟩
  · intro hmem
    obtain ⟨e, he, htitle⟩ := List.mem_map.mp hmem
    exact (owner_of_mapM hdot h he).1 (congrArg Prod.fst htitle)
  · refine List.Nodup.of_map (fun title => title.2.afterLastDot) ?_
    rw [List.map_map]
    show (lines.map fun e => e.name.afterLastDot).Nodup
    rw [map_afterLastDot_of_mapM hdot h]
    exact hnames

theorem eq_zero_of_kind_base {lines : List UsageEntry} {i : Nat} {p : UsageEntry → Bool}
    (hlines : ∀ e ∈ lines, e.kind ≠ .base) (hi : ((list.baseLine :: lines).filter p)[i]? = some e)
    (hkind : e.kind = .base) : i = 0 := by
  have hrest : e ∉ lines.filter p := fun he => hlines e (List.mem_filter.mp he).1 hkind
  by_cases hp : p list.baseLine = true
  · rw [List.filter_cons_of_pos hp] at hi
    cases i with
    | zero => rfl
    | succ i =>
      rw [List.getElem?_cons_succ] at hi
      exact absurd (List.mem_of_getElem? hi) hrest
  · rw [List.filter_cons_of_neg hp] at hi
    exact absurd (List.mem_of_getElem? hi) hrest

theorem itemises_of_aggregate (h : list.aggregate player names = .ok b)
    (hdot : ∀ name ∈ names, Text.dot ∉ name) : list.Itemises player names b := by
  obtain ⟨lines, hlines, hentries, htotal⟩ := aggregate_eq_ok_iff.mp h
  have hdot' : ∀ name ∈ names.eraseDups, Text.dot ∉ name :=
    fun name hname => hdot name (List.mem_eraseDups.mp hname)
  have howner : ∀ e ∈ lines, e.kind ≠ .base ∧ e.name.afterLastDot ∈ names ∧
      list.resolve player e.name.afterLastDot = .ok e := by
    intro e he
    obtain ⟨hkind, hname, hline⟩ := owner_of_mapM hdot' hlines he
    exact ⟨hkind, List.mem_eraseDups.mp hname, hline⟩
  constructor
  case distinct =>
    rw [hentries]
    exact (nodup_titles (nodup_eraseDups names) hdot' hlines).sublist (List.filter_sublist.map _)
  case base_first =>
    intro i e hi hkind
    rw [hentries] at hi
    exact eq_zero_of_kind_base (fun e he => (howner e he).1) hi hkind
  case positive =>
    intro e he
    rw [hentries] at he
    exact (List.mem_filter.mp he).2
  case total => exact htotal
  case owner =>
    intro e he hkind
    rw [hentries] at he
    rcases List.mem_cons.mp (List.mem_filter.mp he).1 with rfl | he
    · exact absurd rfl hkind
    · exact (howner e he).2
  case no_other =>
    intro e _ name hname e' hresolve htitle
    have hshown : e'.name = e.name := congrArg Prod.snd htitle
    rw [← hshown, afterLastDot_of_resolve hresolve (hdot name hname)]
  case complete =>
    intro name hname e hresolve hpositive
    obtain ⟨e', he', hline⟩ := Except.exists_of_mem_mapM hlines (List.mem_eraseDups.mpr hname)
    obtain rfl : e' = e := Except.ok.inj (hline.symm.trans hresolve)
    rw [hentries]
    exact List.mem_filter.mpr ⟨List.mem_cons_of_mem _ he', hpositive⟩

end PriceList

namespace Scripts

/-- **A breakdown never has the same line twice.** Its lines belong to the names that the script and its
imports use, each to the name after the last dot of what it displays, and to no other; only the line of the
base price, which comes first, belongs to none. -/
theorem itemises_of_usage {scripts : Scripts} {filename : Text} {list : PriceList}
    {player : Option Player} {b : Breakdown} (h : scripts.usage filename list player = .ok b) :
    ∃ names, scripts.collectNames filename = .ok names ∧ list.Itemises player names b := by
  obtain ⟨names, hnames, hcost⟩ := usage_eq_ok_iff.mp h
  exact ⟨names, hnames, PriceList.itemises_of_aggregate hcost fun _ => dotless_of_collectNames hnames⟩

/-- Namespaces whose names are empty and have dots, with prices that the default table has as well. -/
def dottedCatalog : Catalog :=
  ⟨[("f", .fixed (.whole 2)), ("g", .bySourceFile (.whole 3))],
    [("", [("f", .bySourceFile (.whole 5))]), ("a.b", [("f", .fixed (.whole 7)), ("g", .fixed (.whole 8))])],
    ["", "a.b"]⟩

theorem itemises_of_usage_dotted : ∃ b,
    circular.usage "a.js" ⟨dottedCatalog, wholeConstants⟩ none = .ok b ∧
    ∃ names, circular.collectNames "a.js" = .ok names ∧
      PriceList.Itemises ⟨dottedCatalog, wholeConstants⟩ none names b := by
  have hwhole : (PriceList.mk dottedCatalog wholeConstants).Whole := by
    constructor
    case stated => simp [dottedCatalog, Catalog.prices, Price.Stated]
    case prices => simp [dottedCatalog, Catalog.prices, Price.amounts, Amount.IsWhole]
    case constants => simp [wholeConstants, Constants.amounts, Amount.IsWhole]
  obtain ⟨line, hline, hlines⟩ := hwhole.exists_line none
  obtain ⟨names, hnames⟩ := exists_collectNames_iff.mpr ⟨List.mem_cons_self, fun _ => circular_sound⟩
  have husage := usage_eq_ok_iff.mpr ⟨names, hnames, hwhole.aggregate_eq hline hlines names⟩
  exact ⟨_, husage, itemises_of_usage husage⟩

end Scripts

end ScriptAudit
