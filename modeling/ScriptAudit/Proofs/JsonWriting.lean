/-
What can be written as JSON: a value whose numbers can be written, on one line or indented and wherever it
stands (`exists_write_iff`). Whole numbers can be written unless they are huge (`writable_ofInt`).
-/
import Mathlib.Data.Nat.Digits.Defs
import ScriptAudit.Json.Writer
import ScriptAudit.Proofs.Outcomes

namespace ScriptAudit.Json

/-- All numbers in the value can be written. -/
inductive Writable : Json → Prop
  | null : Writable .null
  | bool (truth : Bool) : Writable (.bool truth)
  | number {amount : Amount} {t : Text} (h : numberText amount = .ok t) : Writable (.number amount)
  | string (text : Text) : Writable (.string text)
  | array {items : List Json} (h : ∀ item ∈ items, Writable item) : Writable (.array items)
  | object {fields : List (Text × Json)} (h : ∀ field ∈ fields, Writable field.2) : Writable (.object fields)

theorem writable_number_iff {amount : Amount} :
    Writable (.number amount) ↔ ∃ t, numberText amount = .ok t := by
  constructor
  · intro h; cases h with | number h => exact ⟨_, h⟩
  · intro h
    obtain ⟨t, ht⟩ := h
    exact .number ht

theorem writable_array_iff {items : List Json} : Writable (.array items) ↔ ∀ item ∈ items, Writable item := by
  constructor
  · intro h; cases h with | array h => exact h
  · exact .array

theorem writable_object_iff {fields : List (Text × Json)} :
    Writable (.object fields) ↔ ∀ field ∈ fields, Writable field.2 := by
  constructor
  · intro h; cases h with | object h => exact h
  · exact .object

/-- What holds of a value whenever it holds of what is in it holds of every value. -/
theorem induction {P : Json → Prop} (null : P .null) (bool : ∀ truth, P (.bool truth))
    (number : ∀ amount, P (.number amount)) (string : ∀ text, P (.string text))
    (array : ∀ items, (∀ item ∈ items, P item) → P (.array items))
    (object : ∀ fields, (∀ field ∈ fields, P field.2) → P (.object fields)) : ∀ json, P json
  | .null => null
  | .bool truth => bool truth
  | .number amount => number amount
  | .string text => string text
  | .array items => array items fun item _ => induction null bool number string array object item
  | .object fields => object fields fun field _ => induction null bool number string array object field.2
termination_by json => sizeOf json
decreasing_by
  · have := List.sizeOf_lt_of_mem ‹item ∈ items›
    simp
    omega
  · have := List.sizeOf_lt_of_mem ‹field ∈ fields›
    obtain ⟨key, value⟩ := field
    simp at this ⊢
    omega

/-! ## Writing -/

section Writing

variable {indent : Option Nat}

theorem exists_writeItems_iff {level : Nat} {items : List Json} {rest : Text}
    (h : ∀ item ∈ items, ∀ level rest, (∃ t, write indent level item rest = .ok t) ↔ item.Writable) :
    (∃ t, writeItems indent level items rest = .ok t) ↔ ∀ item ∈ items, item.Writable := by
  induction items with
  | nil => simp [writeItems]
  | cons item items ih =>
    have hitem := h item List.mem_cons_self level
    have hitems := ih fun other hother => h other (List.mem_cons_of_mem _ hother)
    rw [List.forall_mem_cons, ← hitems]
    cases items with
    | nil => simp [writeItems, hitem]
    | cons next items =>
      simp only [writeItems, Except.exists_bind_eq_ok, hitem, exists_and_right]
      exact and_comm

theorem exists_writeFields_iff {level : Nat} {fields : List (Text × Json)} {rest : Text}
    (h : ∀ field ∈ fields, ∀ level rest, (∃ t, write indent level field.2 rest = .ok t) ↔ field.2.Writable) :
    (∃ t, writeFields indent level fields rest = .ok t) ↔ ∀ field ∈ fields, field.2.Writable := by
  induction fields with
  | nil => simp [writeFields]
  | cons field fields ih =>
    obtain ⟨key, value⟩ := field
    have hvalue : ∀ rest, (∃ t, write indent level value rest = .ok t) ↔ value.Writable :=
      h _ List.mem_cons_self level
    have hfields := ih fun other hother => h other (List.mem_cons_of_mem _ hother)
    rw [List.forall_mem_cons, ← hfields]
    cases fields with
    | nil =>
      simp only [writeFields, Except.exists_bind_eq_ok, Except.exists_pure_eq_ok, and_true, hvalue]
      simp
    | cons next fields =>
      simp only [writeFields, Except.exists_bind_eq_ok, Except.exists_pure_eq_ok, and_true, hvalue,
        exists_and_right]
      exact and_comm

/-- Whether a value can be written depends neither on where it stands nor on the layout. -/
theorem exists_write_iff {json : Json} : ∀ (level : Nat) (rest : Text),
    (∃ t, write indent level json rest = .ok t) ↔ json.Writable := by
  induction json using Json.induction with
  | null => simp [write, Writable.null]
  | bool truth => simp [write, Writable.bool]
  | string text => simp [write, Writable.string]
  | number amount =>
    intro level rest
    simp only [write, Except.exists_bind_eq_ok, Except.exists_pure_eq_ok, and_true, writable_number_iff]
  | array items ih =>
    intro level rest
    rw [writable_array_iff]
    cases items with
    | nil => simp [write]
    | cons item items =>
      simp only [write, Except.exists_bind_eq_ok, Except.exists_pure_eq_ok, and_true]
      exact exists_writeItems_iff ih
  | object fields ih =>
    intro level rest
    rw [writable_object_iff]
    cases fields with
    | nil => simp [write]
    | cons field fields =>
      simp only [write, Except.exists_bind_eq_ok, Except.exists_pure_eq_ok, and_true]
      exact exists_writeFields_iff ih

end Writing

theorem exists_render_iff {json : Json} : (∃ t, json.render = .ok t) ↔ json.Writable := exists_write_iff 0 []

theorem exists_renderIndented_iff {json : Json} : (∃ t, json.renderIndented = .ok t) ↔ json.Writable :=
  exists_write_iff 0 []

/-! ## Numbers -/

/-- Enough for everything that is counted in a file. -/
theorem writable_ofInt {n : Int} (h : n.natAbs ≤ 2 ^ 64) : (ofInt n).Writable := by
  have hlength : (Text.ofNat n.natAbs).length ≤ 20 := by
    rw [Text.ofNat, List.length_map, Nat.length_toDigits_le_iff (by omega) (by omega)]
    omega
  refine .number (t := Text.ofInt n) ?_
  show (if 4300 < (Text.ofNat n.natAbs).length then _ else _) = _
  rw [if_neg (by omega)]

end ScriptAudit.Json
