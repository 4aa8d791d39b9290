/-
The two ways an error is written. An error writes itself with the known parts of its place; the diagnostic that is
printed for it writes a location, which leaves out a column of zero but not a line of zero. Of the errors that reading
a script, collecting names or reading a catalog ends with, those with a line have a column too, and both ways agree.
The others name only a file, and their diagnostic goes on with a line zero that there is not
(`Diagnostic.text_ofError_iff`).
-/
import ScriptAudit.Proofs.AcceptedDocuments
import ScriptAudit.Proofs.ImportClosure
import ScriptAudit.Proofs.ParseOutcome
import ScriptAudit.Report.Diagnostic

namespace ScriptAudit

namespace AuditError

/-! ## What an error can be about -/

/-- What reading a script, collecting names or reading a catalog ends with. -/
inductive Raised : AuditError → Prop
  | script {source filename : Text} {e : AuditError} (h : Program.read source filename = .error e) : Raised e
  | names {scripts : Scripts} {filename : Text} {e : AuditError} (h : scripts.collectNames filename = .error e) : Raised e
  | catalog {source : Text} {document : Json} {e : AuditError} (h : (PriceList.ofJson source document).result = .error e) :
    Raised e

/-- The error has a line and a column. -/
structure Located (e : AuditError) : Prop where
  line : 0 < e.place.line
  column : 0 < e.place.column
  notCatalog : e.kind ≠ .catalog
  unexpected : e.kind = .script → Text.ofString "Unexpected " <+: e.message

/-- The error names a file and nothing in it. -/
structure Unlocated (e : AuditError) : Prop where
  place : e.place = .inFile e.place.file
  about : e.kind = .catalog ∨ e.kind = .script ∧ ¬ Text.ofString "Unexpected " <+: e.message

theorem located_or_of_read {source filename : Text} {e : AuditError} (h : Program.read source filename = .error e) :
    e.Located ∨ e.Unlocated := by
  cases hparse : parse source filename with
  | ok p =>
    rw [Program.read, hparse] at h
    cases h
  | error failure =>
    rw [read_of_parse_error hparse] at h
    cases h
    cases failure with
    | unexpected offset =>
      obtain ⟨hline, hcolumn⟩ := Place.ofOffset_pos source offset filename
      exact .inl ⟨hline, hcolumn, by rintro ⟨⟩, fun _ => ParseFailure.unexpected_message ..⟩
    | tooDeep =>
      have hmessage : ¬ Text.ofString "Unexpected " <+: Text.ofString "Script nests too deeply to parse" := by
        decide
      exact .inr ⟨rfl, .inr ⟨rfl, hmessage⟩⟩
    | malformed fault =>
      have hmessage : ¬ Text.ofString "Unexpected " <+:
          Text.ofString "Malformed construct: " ++ Text.ofString (ParseFailure.faultName fault) := by
        cases fault <;> decide
      exact .inr ⟨rfl, .inr ⟨rfl, hmessage⟩⟩

theorem located_of_unresolved {scripts : Scripts} {name : Text} {e : AuditError} (h : scripts.Unresolved name e) :
    e.Located := by
  obtain ⟨p, -, before, declaration, path, after, -, -, -, rfl⟩ := h
  exact ⟨Int.natCast_pos.mpr (Nat.succ_pos _), Text.columnAt_pos (Int.natCast_nonneg _), nofun, nofun⟩

theorem Raised.located_or {e : AuditError} (h : e.Raised) (hfile : e.place.file ≠ []) : e.Located ∨ e.Unlocated := by
  cases h with
  | script h => exact located_or_of_read h
  | @names scripts filename _ h =>
    have hfailure := Scripts.collectNames_eq_error_iff.mp h
    by_cases hkey : filename ∈ scripts.keys
    · obtain ⟨-, hnone, -⟩ | ⟨_, name, _, _, -, -, -, hsome, herror⟩ := Scripts.survey_cases hkey
      · rw [hfailure] at hnone
        cases hnone
      · rw [hfailure] at hsome
        cases hsome
        obtain ⟨⟨source, -, hread⟩, -⟩ | ⟨hunresolved, -⟩ := herror
        · exact located_or_of_read hread
        · exact .inl (located_of_unresolved hunresolved)
    · rw [Scripts.survey, if_neg (by rwa [List.contains_iff_mem])] at hfailure
      cases hfailure
      exact absurd rfl hfile
  | @catalog source document _ h =>
    have hreports := PriceList.reports_ofJson source document
    obtain ⟨⟨e', he', hkind, hplace⟩, -⟩ := hreports.error (hreports.not_of_error h)
    cases h.symm.trans he'
    exact .inr ⟨by rw [hplace]; rfl, .inl hkind⟩

/-! ## The two ways to write it -/

/-- What follows the place in either way. -/
def afterPlace (e : AuditError) : Text :=
  ": error: " ++ e.message ++ " [" ++ Text.ofString e.kind.id ++ "]" ++ hintText e.hint

theorem text_eq_append (e : AuditError) : e.text = e.place.text ++ e.afterPlace := by
  simp only [text, afterPlace, List.append_assoc]

end AuditError

theorem Place.text_of_pos {p : Place} (hfile : p.file ≠ []) (hline : 0 < p.line) (hcolumn : 0 < p.column) :
    p.text = p.file ++ ":" ++ Text.ofInt p.line ++ (":" ++ Text.ofInt p.column) := by
  have hempty : p.file.isEmpty = false := List.isEmpty_eq_false_iff.mpr hfile
  simp [text, hempty, hline, hcolumn, Text.join, List.intercalate]

theorem Place.text_inFile {file : Text} (hfile : file ≠ []) : (inFile file).text = file := by
  have hempty : file.isEmpty = false := List.isEmpty_eq_false_iff.mpr hfile
  simp [text, inFile, point, spanning, hempty, Text.join, List.intercalate]

namespace Diagnostic

theorem text_ofError_eq_append (e : AuditError) :
    (ofError e).text = (ofError e).location.text ++ e.afterPlace := by
  have hseverity : Text.ofString ": error: " = Text.ofString ": " ++ (Text.ofString "error" ++ Text.ofString ": ") := rfl
  simp only [text, AuditError.afterPlace, hseverity, List.append_assoc]
  rfl

theorem text_ofError_of_located {e : AuditError} (h : e.Located) (hfile : e.place.file ≠ []) :
    (ofError e).text = e.text := by
  have hcolumn : e.place.column ≠ 0 := Int.ne_of_gt h.column
  rw [text_ofError_eq_append, e.text_eq_append, Place.text_of_pos hfile h.line h.column]
  simp [Location.text, ofError, hcolumn]

/-- After the file comes the line zero. -/
theorem text_ofError_of_unlocated {e : AuditError} (h : e.Unlocated) (hfile : e.place.file ≠ []) :
    ∃ rest, e.text = e.place.file ++ rest ∧ (ofError e).text = e.place.file ++ (":0" ++ rest) := by
  have hplace := Place.text_inFile hfile
  rw [← h.place] at hplace
  refine ⟨e.afterPlace, by rw [e.text_eq_append, hplace], ?_⟩
  have hzero : Text.ofString ":0" = Text.ofString ":" ++ Text.ofInt 0 := rfl
  have hline : e.place.line = 0 := by rw [h.place]; rfl
  have hcolumn : e.place.column = 0 := by rw [h.place]; rfl
  rw [text_ofError_eq_append]
  simp [Location.text, ofError, hline, hcolumn, hzero]

/-- **How errors are printed.** The diagnostic of an error with a file is written as the error itself exactly if the
error has a line. It has none if it is about a catalog, or about a script that is wrong in another way than at an
offset; then the diagnostic has a line zero after the file. -/
theorem text_ofError_iff {e : AuditError} (h : e.Raised) (hfile : e.place.file ≠ []) :
    ((ofError e).text = e.text ↔ e.place.line ≠ 0) ∧
    (e.place.line = 0 ↔ e.kind = .catalog ∨ e.kind = .script ∧ ¬ Text.ofString "Unexpected " <+: e.message) ∧
    (e.place.line = 0 →
      ∃ rest, e.text = e.place.file ++ rest ∧ (ofError e).text = e.place.file ++ (":0" ++ rest)) := by
  obtain hlocated | hunlocated := h.located_or hfile
  · have hline : e.place.line ≠ 0 := Int.ne_of_gt hlocated.line
    refine ⟨iff_of_true (text_ofError_of_located hlocated hfile) hline, iff_of_false hline ?_,
      fun hzero => absurd hzero hline⟩
    rintro (hcatalog | ⟨hscript, hmessage⟩)
    · exact hlocated.notCatalog hcatalog
    · exact hmessage (hlocated.unexpected hscript)
  · have hline : e.place.line = 0 := by rw [hunlocated.place]; rfl
    have hrest := text_ofError_of_unlocated hunlocated hfile
    refine ⟨iff_of_false ?_ (not_not_intro hline), iff_of_true hline hunlocated.about, fun _ => hrest⟩
    obtain ⟨rest, htext, hdiagnostic⟩ := hrest
    intro heq
    have hlength := congrArg List.length (htext.symm.trans (heq.symm.trans hdiagnostic))
    have hzero : (Text.ofString ":0").length = 2 := rfl
    simp only [List.length_append, hzero] at hlength
    omega

/-- What is said of a list that should be a catalog. -/
def listRefused : AuditError := .badCatalog "catalog must be a JSON object" (.inFile "prices.json") []

theorem text_ofError_iff_listRefused :
    listRefused.Raised ∧ listRefused.place.file ≠ [] ∧ listRefused.place.line = 0 ∧
      (ofError listRefused).text ≠ listRefused.text := by
  have hraised : listRefused.Raised := @AuditError.Raised.catalog "prices.json" (.array []) _ rfl
  have hfile : listRefused.place.file ≠ [] := by decide
  exact ⟨hraised, hfile, rfl, fun heq => (text_ofError_iff hraised hfile).1.mp heq rfl⟩

end Diagnostic

end ScriptAudit
