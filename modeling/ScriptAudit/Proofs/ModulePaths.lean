/-
What the path of an import means. A path may begin with leads, `./` and `/`, in any number and any order. Taking
them off one at a time comes to an end, and always to the same one (`strips_iff`): what follows the longest
sequence of leads. So leads make no difference to an import, and a name that an import was resolved to begins with
none and is resolved to itself.
-/
import ScriptAudit.Script.Imports

namespace ScriptAudit

/-! ## Leads -/

/-- What the path of a module may begin with and need not. -/
inductive Lead
  | here
  | root

namespace Lead

def text : Lead → Text
  | here => ['.', '/']
  | root => ['/']

/-- Leads, one after the other. -/
def joined (leads : List Lead) : Text := leads.flatMap text

theorem joined_cons (lead : Lead) (leads : List Lead) : joined (lead :: leads) = lead.text ++ joined leads := rfl

end Lead

/-- A path that begins with no lead. -/
def Leadless (path : Text) : Prop := ∀ lead : Lead, ¬ lead.text <+: path

/-- Leads are taken off one at a time, until the path begins with none. -/
inductive Strips : Text → Text → Prop
  | done {path : Text} (h : Leadless path) : Strips path path
  | round {path core : Text} (lead : Lead) (h : Strips path core) : Strips (lead.text ++ path) core

/-- What follows the longest sequence of leads. -/
def IsCore (path core : Text) : Prop :=
  ∃ leads, path = Lead.joined leads ++ core ∧
    ∀ others, Lead.joined others <+: path → (Lead.joined others).length ≤ (Lead.joined leads).length

/-! ## Taking leads off -/

theorem moduleName_text (lead : Lead) (path : Text) : moduleName (lead.text ++ path) = moduleName path := by
  cases lead with
  | here => rw [Lead.text, List.cons_append, List.cons_append, List.nil_append, moduleName.eq_def]; rfl
  | root => rw [Lead.text, List.cons_append, List.nil_append, moduleName.eq_def]; rfl

theorem moduleName_joined (leads : List Lead) (path : Text) :
    moduleName (Lead.joined leads ++ path) = moduleName path := by
  induction leads with
  | nil => rfl
  | cons lead leads ih => rw [Lead.joined_cons, List.append_assoc, moduleName_text, ih]

/-- Every path is taken to its module name by the rounds of `Strips`. -/
theorem strips_moduleName (path : Text) : Strips path (moduleName path) := by
  fun_induction moduleName path with
  | case1 => exact .done fun lead h => by cases lead <;> simp [Lead.text] at h
  | case2 rest ih => exact ih.round .root
  | case3 c hc => exact .done fun lead h => by cases lead <;> simp_all [Lead.text]
  | case4 c hc d more hd ih =>
    simp only [Bool.and_eq_true, decide_eq_true_eq] at hd
    exact hd.1 ▸ hd.2 ▸ ih.round .here
  | case5 c hc d more hd => exact .done fun lead h => by cases lead <;> simp_all [Lead.text]

namespace Strips

variable {path core : Text}

theorem eq_of_leadless (h : Strips path core) (hpath : Leadless path) : core = path := by
  cases h with
  | done => rfl
  | round lead => exact absurd (List.prefix_append ..) (hpath lead)

theorem eq_moduleName (h : Strips path core) : core = moduleName path := by
  induction h with
  | done h => exact ((strips_moduleName _).eq_of_leadless h).symm
  | round lead _ ih => rw [moduleName_text, ih]

theorem leadless (h : Strips path core) : Leadless core := by
  induction h with
  | done h => exact h
  | round _ _ ih => exact ih

theorem exists_leads (h : Strips path core) : ∃ leads, path = Lead.joined leads ++ core := by
  induction h with
  | done => exact ⟨[], rfl⟩
  | round lead _ ih =>
    obtain ⟨leads, rfl⟩ := ih
    exact ⟨lead :: leads, by rw [Lead.joined_cons, List.append_assoc]⟩

end Strips

/-- **The rounds come to an end**, and to no other than the module name. -/
theorem strips_iff {path core : Text} : Strips path core ↔ core = moduleName path :=
  ⟨Strips.eq_moduleName, fun h => h ▸ strips_moduleName path⟩

theorem leadless_moduleName (path : Text) : Leadless (moduleName path) := (strips_moduleName path).leadless

theorem Lead.getLast?_text (lead : Lead) : lead.text.getLast? = some (CodePoint.ofChar '/') := by
  cases lead <;> rfl

/-- The ending of a script makes no lead at the beginning: it holds no `/`, with which every lead ends. -/
theorem Leadless.append_js {path : Text} (h : Leadless path) : Leadless (path ++ ".js") := by
  rintro lead ⟨rest, hrest⟩
  obtain ⟨more, rfl, -⟩ | ⟨tail, hlead, hjs⟩ := List.append_eq_append_iff.mp hrest
  · exact h lead (List.prefix_append ..)
  · have hslash : CodePoint.ofChar '/' ∉ Text.ofString ".js" := by decide
    obtain rfl | ⟨front, last, rfl⟩ := List.eq_nil_or_concat tail
    · exact h lead (by simp [hlead])
    · have hlast := lead.getLast?_text
      rw [hlead, List.concat_eq_append, ← List.append_assoc, List.getLast?_concat, Option.some.injEq] at hlast
      exact hslash (by simp [hjs, hlast])

/-- No other sequence of leads at the beginning is longer: whatever follows it has the same core. -/
theorem isCore_moduleName (path : Text) : IsCore path (moduleName path) := by
  obtain ⟨leads, hleads⟩ := (strips_moduleName path).exists_leads
  refine ⟨leads, hleads, ?_⟩
  rintro others ⟨rest, hrest⟩
  obtain ⟨more, hmore⟩ := (strips_moduleName rest).exists_leads
  have hsame : moduleName rest = moduleName path := by rw [← hrest, moduleName_joined]
  have hpath := congrArg List.length hleads
  have hothers := congrArg List.length hrest
  rw [hmore, hsame] at hothers
  simp only [List.length_append] at hpath hothers
  omega

/-! ## Resolving an import -/

theorem resolveImport_eq_some_iff {path target : Text} {names : List Text} :
    resolveImport path names = some target ↔
      target ∈ names ∧ (target = moduleName path ∨ target = moduleName path ++ ".js" ∧ moduleName path ∉ names) := by
  by_cases hbare : moduleName path ∈ names
  · have : resolveImport path names = some (moduleName path) := by simp [resolveImport, hbare]
    grind
  · by_cases hjs : moduleName path ++ ".js" ∈ names
    · have : resolveImport path names = some (moduleName path ++ ".js") := by simp [resolveImport, hbare, hjs]
      grind
    · have : resolveImport path names = none := by simp [resolveImport, hbare, hjs]
      grind

theorem resolveImport_eq_none_iff {path : Text} {names : List Text} :
    resolveImport path names = none ↔ moduleName path ∉ names ∧ moduleName path ++ ".js" ∉ names := by
  simp [resolveImport]

theorem leadless_of_resolveImport {path target : Text} {names : List Text}
    (h : resolveImport path names = some target) : Leadless target := by
  obtain ⟨-, rfl | ⟨rfl, -⟩⟩ := resolveImport_eq_some_iff.mp h
  · exact leadless_moduleName path
  · exact (leadless_moduleName path).append_js

theorem resolveImport_of_resolveImport {path target : Text} {names : List Text}
    (h : resolveImport path names = some target) : resolveImport target names = some target := by
  have hname : moduleName target = target :=
    (strips_moduleName target).eq_of_leadless (leadless_of_resolveImport h)
  exact resolveImport_eq_some_iff.mpr ⟨(resolveImport_eq_some_iff.mp h).1, .inl hname.symm⟩

/-- **Resolving an import.** Whatever leads stand before a path, taking them off ends with what follows the longest
sequence of leads of the path, and so they make no difference. That is the script meant, or with `.js` added if there
is no script of the bare name; there is none if neither is a script. A script that was found begins with no lead and
is found again under its own name. -/
theorem resolveImport_leads (leads : List Lead) (path : Text) (names : List Text) :
    ∃ core, IsCore path core ∧ (∀ last, Strips (Lead.joined leads ++ path) last ↔ last = core) ∧
      resolveImport (Lead.joined leads ++ path) names = resolveImport path names ∧
      (∀ target, resolveImport path names = some target ↔
        target ∈ names ∧ (target = core ∨ target = core ++ ".js" ∧ core ∉ names)) ∧
      (resolveImport path names = none ↔ core ∉ names ∧ core ++ ".js" ∉ names) ∧
      ∀ target, resolveImport path names = some target →
        Leadless target ∧ resolveImport target names = some target := by
  refine ⟨moduleName path, isCore_moduleName path, fun last => ?_, ?_, fun target => resolveImport_eq_some_iff,
    resolveImport_eq_none_iff, fun target h => ?_⟩
  · rw [strips_iff, moduleName_joined]
  · rw [resolveImport, resolveImport, moduleName_joined]
  · exact ⟨leadless_of_resolveImport h, resolveImport_of_resolveImport h⟩

end ScriptAudit
