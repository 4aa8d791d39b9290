/-
Which documents are catalogs. A document has to have the shape of a catalog (`Json.isCatalog`); what its prices are
like does not matter, only that each value that is no price is warned about. The parts of a document are read one
after the other and the first that has the wrong shape ends the reading, so what has been warned about by then is the
beginning of what there is to warn about (`Json.warnings`).

`Noted.Reports` says this of any computation that takes notes, and follows the steps of the reading.
-/
import ScriptAudit.Proofs.MalformedPrices

namespace ScriptAudit

/-! ## Computations that take notes -/

namespace Noted

variable {ν ε α β : Type}

instance : LawfulMonad (Noted ν ε) := by
  refine .mk' _ ?_ (fun _ _ => rfl) ?_
  · rintro α ⟨notes, result⟩
    cases result with
    | error error => rfl
    | ok a => exact congrArg (Noted.mk · (.ok a)) (List.append_nil notes)
  · rintro α β γ ⟨notes, result⟩ f g
    cases result with
    | error error => rfl
    | ok a =>
      simp only [bind, andThen]
      cases (f a).result with
      | error error => rfl
      | ok b => exact congrArg (Noted.mk · (g b).result) (List.append_assoc notes (f a).notes (g b).notes)

/-- The computation comes to something exactly under the condition, and has then taken these notes. Otherwise it
stops with such an error, after the first few of the notes. -/
structure Reports (x : Noted ν ε α) (accepted : Prop) (IsError : ε → Prop) (notes : List ν) : Prop where
  ok : accepted → (∃ a, x.result = .ok a) ∧ x.notes = notes
  error : ¬accepted → (∃ e, x.result = .error e ∧ IsError e) ∧ x.notes <+: notes

namespace Reports

variable {x : Noted ν ε α} {f : α → Noted ν ε β} {A B : Prop} {E : ε → Prop} {notes more : List ν}

theorem pure (a : α) : (Pure.pure a : Noted ν ε α).Reports True E [] :=
  ⟨fun _ => ⟨⟨a, rfl⟩, rfl⟩, fun h => absurd trivial h⟩

theorem note (notes : List ν) : (Noted.note notes : Noted ν ε Unit).Reports True E notes :=
  ⟨fun _ => ⟨⟨(), rfl⟩, rfl⟩, fun h => absurd trivial h⟩

/-- A step that follows another one is only taken if the other one was accepted. -/
theorem bind (hx : x.Reports A E notes) (hf : ∀ a, x.result = .ok a → (f a).Reports B E more) :
    (x >>= f).Reports (A ∧ B) E (notes ++ more) := by
  obtain ⟨taken, result⟩ := x
  cases result with
  | error error =>
    have hA : ¬A := fun hA => by
      obtain ⟨⟨a, ha⟩, -⟩ := hx.ok hA
      cases ha
    refine ⟨fun h => absurd h.1 hA, fun _ => ?_⟩
    obtain ⟨⟨e, he, hE⟩, htaken⟩ := hx.error hA
    cases he
    exact ⟨⟨error, rfl, hE⟩, htaken.trans (List.prefix_append notes more)⟩
  | ok a =>
    have hA : A := Classical.byContradiction fun hA => by
      obtain ⟨⟨e, he, -⟩, -⟩ := hx.error hA
      cases he
    obtain rfl : taken = notes := (hx.ok hA).2
    have hnext := hf a rfl
    constructor
    · rintro ⟨-, hB⟩
      obtain ⟨hok, hmore⟩ := hnext.ok hB
      exact ⟨hok, congrArg (taken ++ ·) hmore⟩
    · intro hAB
      obtain ⟨herror, hmore⟩ := hnext.error fun hB => hAB ⟨hA, hB⟩
      exact ⟨herror, (List.prefix_append_right_inj taken).mpr hmore⟩

theorem congr (hx : x.Reports A E notes) (hA : A ↔ B) (hnotes : notes = more) : x.Reports B E more := by
  rw [← propext hA, ← hnotes]
  exact hx

theorem mapM {as : List α} {C : α → Prop} {notes : α → List ν}
    (hf : ∀ a ∈ as, (f a).Reports (C a) E (notes a)) :
    (as.mapM f).Reports (∀ a ∈ as, C a) E (as.flatMap notes) := by
  induction as with
  | nil => exact (Reports.pure []).congr (by simp) rfl
  | cons a as ih =>
    obtain ⟨ha, has⟩ := List.forall_mem_cons.mp hf
    rw [List.mapM_cons]
    refine (ha.bind fun b _ => (ih has).bind fun bs _ => .pure (b :: bs)).congr ?_ (by simp)
    rw [and_true, List.forall_mem_cons]

theorem foldlM {as : List α} {C : α → Prop} {g : β → α → Noted ν ε β}
    (hg : ∀ b, ∀ a ∈ as, (g b a).Reports (C a) E []) (b : β) :
    (as.foldlM g b).Reports (∀ a ∈ as, C a) E [] := by
  induction as generalizing b with
  | nil => exact (Reports.pure b).congr (by simp) rfl
  | cons a as ih =>
    rw [List.foldlM_cons]
    refine ((hg b a List.mem_cons_self).bind fun b' _ => ih (fun b a ha => hg b a (List.mem_cons_of_mem _ ha)) b').congr
      ?_ rfl
    rw [List.forall_mem_cons]

theorem not_of_error (hx : x.Reports A E notes) {e : ε} (he : x.result = .error e) : ¬A := by
  intro hA
  obtain ⟨⟨a, ha⟩, -⟩ := hx.ok hA
  cases ha.symm.trans he

end Reports

end Noted

/-! ## The shape of a catalog -/

namespace Json

def isObject : Json → Bool
  | .object _ => true
  | _ => false

def isNumber : Json → Bool
  | .number _ => true
  | _ => false

def isNull : Json → Bool
  | .null => true
  | _ => false

/-- The fields of an object. Nothing else has any. -/
def fields : Json → List (Text × Json)
  | .object fields => fields
  | _ => []

/-- A list of nothing but texts. -/
def isTexts : Json → Bool
  | .array items => items.all fun item => (PriceList.asText? item).isSome
  | _ => false

/-- The texts of a list. -/
def texts : Json → List Text
  | .array items => items.filterMap PriceList.asText?
  | _ => []

/-- An object with nothing but numbers for constants. -/
def isSettings (value : Json) : Bool :=
  value.isObject && value.fields.all fun field => PriceList.constantNames.contains field.1 && field.2.isNumber

/-- An object whose parts, as far as it has them, are a table, an object of tables, a list of texts, and the
settings of constants or null. -/
def isCatalog (document : Json) : Bool :=
  document.isObject
    && (document.field? "default").all isObject
    && (document.field? "namespaces").all (fun tables => tables.isObject && tables.fields.all (·.2.isObject))
    && (document.field? "priority").all isTexts
    && (document.field? "constants").all fun settings => settings.isNull || settings.isSettings

/-- A part of a document, which is empty where there is none. -/
def part (document : Json) (name : Text) : Json := (document.field? name).getD (.object [])

/-- The namespaces that are looked at. -/
def priorities (document : Json) : List Text :=
  ((document.field? "priority").map texts).getD Catalog.defaultPriority

/-! ## What there is to warn about -/

/-- A warning for each value of a table that is no price. -/
def malformedIn (label : Text) (table : Json) : List CatalogWarning :=
  (table.fields.filter fun field => !field.2.isPrice).map fun field =>
    .malformed (Catalog.qualified label field.1) field.2

/-- A warning for each namespace that is never looked at. -/
def unconsulted (document : Json) : List CatalogWarning :=
  ((Table.keys (document.part "namespaces").fields).filter fun ns => !document.priorities.contains ns).map .unconsulted

/-- First the values of the default table that are no prices, then those of the tables of the namespaces, then the
namespaces that are never looked at. -/
def warnings (document : Json) : List CatalogWarning :=
  malformedIn "default" (document.part "default")
    ++ (document.part "namespaces").fields.flatMap (fun table => malformedIn table.1 table.2)
    ++ document.unconsulted

end Json

/-! ## Reading the parts -/

namespace PriceList

/-- An error about a catalog that names the document and no place in it. -/
def IsRefusal (source : Text) (e : AuditError) : Prop := e.kind = .catalog ∧ e.place = .inFile source

variable {α : Type} {source : Text}

theorem reports_refuse {message : Text} {notes : List CatalogWarning} {A : Prop} (hA : ¬A) :
    (refuse source message : CatalogReading α).Reports A (IsRefusal source) notes :=
  ⟨fun h => absurd h hA, fun _ => ⟨⟨_, rfl, rfl, rfl⟩, List.nil_prefix⟩⟩

/-- Every value has a price, but there may be a warning. -/
theorem reports_readPrice (place : Text) (value : Json) :
    (readPrice place value).Reports True (IsRefusal source)
      (if value.isPrice then [] else [.malformed place value]) := by
  rw [← Price.isSome_ofJson?]
  unfold readPrice
  cases Price.ofJson? value with
  | some price => exact .pure price
  | none => exact ((Noted.Reports.note _).bind fun _ _ => .pure _).congr (iff_of_eq (and_true _)) rfl

theorem reports_readTable (label : Text) (table : Json) :
    (readTable label source table).Reports (table.isObject = true) (IsRefusal source) (table.malformedIn label) := by
  cases table with
  | object fields =>
    refine (Noted.Reports.mapM fun field _ => (reports_readPrice _ field.2).bind fun _ _ => .pure _).congr ?_ ?_
    · simp [Json.isObject]
    · rw [Json.malformedIn, Json.fields]
      induction fields with
      | nil => rfl
      | cons field fields ih =>
        rw [List.flatMap_cons, ih, List.filter_cons]
        cases field.2.isPrice <;> rfl
  | _ => exact reports_refuse Bool.false_ne_true

theorem reports_readNamespaces (tables : Json) :
    (readNamespaces source tables).Reports (tables.isObject = true ∧ ∀ table ∈ tables.fields, table.2.isObject = true)
      (IsRefusal source) (tables.fields.flatMap fun table => table.2.malformedIn table.1) := by
  cases tables with
  | object fields =>
    refine (Noted.Reports.mapM fun table _ => (reports_readTable table.1 table.2).bind fun _ _ => .pure _).congr ?_ ?_
    · simp [Json.isObject, Json.fields]
    · simp [Json.fields]
  | _ => exact reports_refuse fun h => Bool.false_ne_true h.1

theorem mapM_asText? (items : List Json) : items.mapM asText? =
    if items.all fun item => (asText? item).isSome then some (items.filterMap asText?) else none := by
  induction items with
  | nil => rfl
  | cons item items ih =>
    rw [List.mapM_cons, ih, List.all_cons]
    cases htext : asText? item with
    | none => rfl
    | some text =>
      rw [List.filterMap_cons_some htext]
      cases items.all fun item => (asText? item).isSome <;> rfl

theorem reports_readPriority (value : Json) :
    (readPriority source value).Reports (value.isTexts = true) (IsRefusal source) [] := by
  cases value with
  | array items =>
    simp only [readPriority, mapM_asText?]
    by_cases h : (items.all fun item => (asText? item).isSome) = true
    · rw [if_pos h]
      exact (Noted.Reports.pure _).congr (iff_of_true trivial h) rfl
    · rw [if_neg h]
      exact reports_refuse h
  | _ => exact reports_refuse Bool.false_ne_true

theorem texts_of_readPriority {value : Json} {names : List Text}
    (h : (readPriority source value).result = .ok names) : names = value.texts := by
  cases value with
  | array items =>
    simp only [readPriority, mapM_asText?] at h
    by_cases hall : (items.all fun item => (asText? item).isSome) = true
    · rw [if_pos hall] at h
      exact (Noted.result_pure_eq_ok.mp h).symm
    · rw [if_neg hall] at h
      cases h
  | _ => cases h

theorem isSome_setConstant? (c : Constants) (name : Text) (amount : Amount) :
    (setConstant? c name amount).isSome = constantNames.contains name := by
  by_cases hname : name ∈ constantNames
  · rw [List.contains_iff_mem.mpr hname]
    simp only [constantNames, List.mem_cons, List.not_mem_nil, or_false] at hname
    rcases hname with rfl | rfl | rfl | rfl <;> rfl
  · rw [Bool.eq_false_iff.mpr (mt List.contains_iff_mem.mp hname), Option.isSome_eq_false_iff,
      Option.isNone_iff_eq_none, Option.eq_none_iff_forall_ne_some]
    exact fun c' hset => hname (mem_constantNames hset)

theorem reports_readConstant (c : Constants) (field : Text × Json) :
    (readConstant source c field).Reports (constantNames.contains field.1 = true ∧ field.2.isNumber = true)
      (IsRefusal source) [] := by
  rw [← isSome_setConstant? c field.1 .zero]
  obtain ⟨name, value⟩ := field
  unfold readConstant
  cases setConstant? c name .zero with
  | none => exact ⟨fun h => absurd h.1 Bool.false_ne_true, fun _ => ⟨⟨_, rfl, rfl, rfl⟩, List.nil_prefix⟩⟩
  | some c' =>
    cases value with
    | number amount => exact (Noted.Reports.pure _).congr (iff_of_true trivial ⟨rfl, rfl⟩) rfl
    | _ => exact reports_refuse fun h => Bool.false_ne_true h.2

theorem reports_readConstants (settings : Json) :
    (readConstants source settings).Reports (settings.isNull = true ∨ settings.isSettings = true)
      (IsRefusal source) [] := by
  cases settings with
  | null => exact (Noted.Reports.pure _).congr (by simp [Json.isNull]) rfl
  | object fields =>
    refine (Noted.Reports.foldlM (fun c field _ => reports_readConstant c field) _).congr ?_ rfl
    simp [Json.isNull, Json.isSettings, Json.isObject, Json.fields]
  | _ => exact reports_refuse (by rintro (h | h) <;> cases h)

/-! ## Documents -/

theorem keys_of_readTable {label : Text} {value : Json} {table : Table Text Price}
    (h : (readTable label source value).result = .ok table) : table.keys = Table.keys value.fields := by
  rw [eq_tableOf_of_readTable h]
  cases value with
  | object fields => exact List.map_map
  | _ => rfl

theorem names_of_readNamespaces {tables : Json} {namespaces : Table Text (Table Text Price)}
    (h : (readNamespaces source tables).result = .ok namespaces) :
    (namespaces.map fun table => (table.1, table.2.keys)) =
      tables.fields.map fun table => (table.1, Table.keys table.2.fields) := by
  cases tables with
  | object fields =>
    rw [result_readNamespaces] at h
    rw [← List.forall₂_eq_eq_eq, List.forall₂_map_left_iff, List.forall₂_map_right_iff]
    refine (Except.forall₂_of_mapM h).flip.imp fun entry field hentry => ?_
    obtain ⟨table, htable, rfl⟩ := Except.map_eq_ok.mp hentry
    rw [keys_of_readTable htable]
  | _ => cases h

theorem keys_of_readNamespaces {tables : Json} {namespaces : Table Text (Table Text Price)}
    (h : (readNamespaces source tables).result = .ok namespaces) : namespaces.keys = Table.keys tables.fields := by
  have hnames := congrArg (List.map Prod.fst) (names_of_readNamespaces h)
  rwa [List.map_map, List.map_map] at hnames

/-- What comes after the tables and the priority list have been read. -/
theorem reports_rest {fields : List (Text × Json)} {default : Table Text Price}
    {namespaces : Table Text (Table Text Price)} {priority : List Text}
    (hkeys : namespaces.keys = Table.keys ((Json.object fields).part "namespaces").fields)
    (hpriority : priority = (Json.object fields).priorities) :
    Noted.Reports (do
      Noted.note ((namespaces.keys.filter fun ns => !priority.contains ns).map .unconsulted)
      let constants ← readConstants source ((Table.get? fields "constants").getD .null)
      return ⟨⟨default, namespaces, priority⟩, constants⟩ : CatalogReading PriceList)
    (((Json.object fields).field? "constants").all (fun settings => settings.isNull || settings.isSettings) = true)
    (IsRefusal source) (Json.object fields).unconsulted := by
  rw [hkeys, hpriority]
  refine ((Noted.Reports.note _).bind fun _ _ => (reports_readConstants _).bind fun _ _ => .pure _).congr ?_ ?_
  · rw [true_and, and_true, Json.field?]
    cases Table.get? fields (Text.ofString "constants") with
    | none => exact iff_of_true (.inl rfl) rfl
    | some settings => exact Bool.or_eq_true_iff.symm
  · rw [List.append_nil, List.append_nil]
    rfl

theorem isCatalog_object_iff (fields : List (Text × Json)) : (Json.object fields).isCatalog = true ↔
    ((Json.object fields).part "default").isObject = true ∧
      (((Json.object fields).part "namespaces").isObject = true ∧
        ∀ table ∈ ((Json.object fields).part "namespaces").fields, table.2.isObject = true) ∧
      ((Table.get? fields "priority").getD (.array (Catalog.defaultPriority.map .string))).isTexts = true ∧
      ((Json.object fields).field? "constants").all
        (fun settings => settings.isNull || settings.isSettings) = true := by
  have hdefault : ((Json.object fields).part "default").isObject =
      ((Json.object fields).field? "default").all Json.isObject := by
    rw [Json.part]
    cases (Json.object fields).field? (Text.ofString "default") <;> rfl
  have hnamespaces : (((Json.object fields).part "namespaces").isObject = true ∧
        ∀ table ∈ ((Json.object fields).part "namespaces").fields, table.2.isObject = true) ↔
      ((Json.object fields).field? "namespaces").all
        (fun tables => tables.isObject && tables.fields.all (·.2.isObject)) = true := by
    rw [Json.part]
    cases (Json.object fields).field? (Text.ofString "namespaces") with
    | none => exact iff_of_true ⟨rfl, fun _ h => absurd h List.not_mem_nil⟩ rfl
    | some tables => simp
  have hpriority : ((Table.get? fields "priority").getD (.array (Catalog.defaultPriority.map .string))).isTexts =
      ((Json.object fields).field? "priority").all Json.isTexts := by
    rw [Json.field?]
    cases Table.get? fields (Text.ofString "priority") <;> rfl
  rw [hdefault, hnamespaces, hpriority, Json.isCatalog]
  simp only [Bool.and_eq_true, and_assoc, Json.isObject, true_and]

theorem texts_getD_priority (fields : List (Text × Json)) :
    ((Table.get? fields "priority").getD (.array (Catalog.defaultPriority.map .string))).texts =
      (Json.object fields).priorities := by
  rw [Json.priorities, Json.field?]
  cases Table.get? fields (Text.ofString "priority") <;> rfl

theorem reports_ofJson (source : Text) (document : Json) :
    (ofJson source document).Reports (document.isCatalog = true) (IsRefusal source) document.warnings := by
  cases document with
  | object fields =>
    simp only [ofJson]
    exact ((reports_readTable "default" _).bind fun default _ =>
      (reports_readNamespaces _).bind fun namespaces hnamespaces =>
      (reports_readPriority _).bind fun priority hpriority =>
        reports_rest (keys_of_readNamespaces hnamespaces)
          ((texts_of_readPriority hpriority).trans (texts_getD_priority fields))).congr
      (isCatalog_object_iff fields).symm (List.append_assoc _ _ _).symm
  | _ => exact reports_refuse Bool.false_ne_true

/-! ## What a catalog has of its document -/

/-- Everything that the document has is in the catalog: all names of all tables, and all settings of constants. What
is not set is as it is by default. -/
structure Keeps (list : PriceList) (document : Json) : Prop where
  default : list.catalog.default.keys = Table.keys (document.part "default").fields
  namespaces : (list.catalog.namespaces.map fun table => (table.1, table.2.keys)) =
    (document.part "namespaces").fields.map fun table => (table.1, Table.keys table.2.fields)
  priority : list.catalog.priority = document.priorities
  unset : ∀ name, (document.part "constants").field? name = none →
    list.constants.table.get? name = Constants.standard.table.get? name
  set : ∀ name amount, (Table.keys (document.part "constants").fields).Nodup →
    (document.part "constants").field? name = some (.number amount) → list.constants.table.get? name = some amount

/-- The table of the second namespace is none, so nobody is warned about the third one. -/
example : (ofJson "prices.json" (.object [("default", .object [("f", .null)]), ("namespaces", .object
      [("gang", .object [("g", .bool true)]), ("ui", .array []), ("other", .object [("h", .string "2")])])])).notes =
    [.malformed "default.f" .null, .malformed "gang.g" (.bool true)] := by rfl

end PriceList

end ScriptAudit
