/-
Reading catalogs from files.
-/
import ScriptAudit.Cost.Document
import ScriptAudit.Files.Tree
import ScriptAudit.Text.Utf8

namespace ScriptAudit

/-- Why a catalog file is not accepted. Only an audit error says where it is. -/
inductive LoadError
  | audit (error : AuditError)
  | undecodable (error : Utf8Error)
  | tooManyDigits (count : Nat)

def LoadError.message : LoadError → Text
  | audit error => error.text
  | undecodable error => error.message
  | tooManyDigits count => digitLimitText (": value has " ++ Text.ofNat count ++ " digits")

namespace PriceList

def readError (text source : Text) : Json.ReadError → LoadError
  | .flaw flaw offset =>
    .audit (.badCatalog ("invalid JSON: " ++ Text.ofString flaw.message)
      (.point source (text.lineAt offset) (text.columnAt offset)) [])
  | .tooManyDigits count => .tooManyDigits count

/-- The price list in the text of a file. -/
def ofText (source text : Text) : Noted CatalogWarning LoadError PriceList := do
  let document ← Noted.ofExcept ((Json.read text).mapError (readError text source))
  (ofJson source document).convert id .audit

/-- The price list in a file whose path is followed from a directory. -/
def load (disk : FileTree) (base : Route) (path : Path) : Noted CatalogWarning LoadError PriceList := do
  let source := path.text
  let unreadable (e : AccessError) : LoadError :=
    .audit (.badCatalog ("cannot read catalog: " ++ Text.ofString e.message) (.inFile source) [])
  let bytes ← Noted.ofExcept ((disk.read (path.under base)).mapError unreadable)
  let text ← Noted.ofExcept ((Text.ofFile bytes).mapError .undecodable)
  ofText source text

end PriceList

end ScriptAudit
