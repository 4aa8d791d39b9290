/-
Paths. A path keeps the difference between one and two slashes at its beginning; otherwise repeated
slashes and single dots mean nothing. Resolving a path makes it absolute and takes out `..`.
-/
import ScriptAudit.Text.Basic

namespace ScriptAudit

structure Path where
  /-- The slashes at the beginning: none, one or two. -/
  slashes : Nat
  parts : List Text

/-- The parts of an absolute path, without dots. -/
abbrev Route := List Text

namespace Text

/-- The pieces between the slashes. -/
def splitSlashes : Text → List Text
  | [] => [[]]
  | c :: rest =>
    if c = '/' then [] :: splitSlashes rest
    else
      match splitSlashes rest with
      | [] => [[c]]
      | piece :: pieces => (c :: piece) :: pieces

end Text

def parentMark : Text := ".."

namespace Path

/-- Reads a path. Three or more slashes at the beginning count as one. -/
def ofText (t : Text) : Path :=
  let slashes := Text.spanLength (fun (c : CodePoint) => c == '/') t
  ⟨if slashes ≤ 2 then slashes else 1,
    (Text.splitSlashes t).filter fun part => !part.isEmpty && part != Text.ofString "."⟩

def text (p : Path) : Text :=
  if p.slashes = 0 && p.parts.isEmpty then "."
  else List.replicate p.slashes (CodePoint.ofChar '/') ++ Text.join "/" p.parts

/-- The way to a path that is read in a directory, with `..` left in it. -/
def under (base : Route) (p : Path) : List Text := if p.slashes = 0 then base ++ p.parts else p.parts

/-- One step of a path; above the top there is only the top. -/
def step (route : Route) (part : Text) : Route :=
  if part == parentMark then route.dropLast else route ++ [part]

/-- The absolute path, without `..`. -/
def resolve (base : Route) (p : Path) : Route := (p.under base).foldl step []

end Path

namespace Route

def text (r : Route) : Text := "/" ++ Text.join "/" r

def parent (r : Route) : Route := r.dropLast

/-- What follows the directory in a path, if the path is in it. -/
def within? (directory r : Route) : Option (List Text) :=
  if directory.isPrefixOf r then some (r.drop directory.length) else none

end Route

/-- A path inside a directory, as scripts name each other. The directory itself is a dot. -/
def relativeName (parts : List Text) : Text := if parts.isEmpty then "." else Text.join "/" parts

/-- The end of a file name from its last dot on. A dot at either end does not count. -/
def nameSuffix (name : Text) : Text :=
  match Text.splitAtFirst? '.' name.reverse with
  | some (last, first) => if first.isEmpty || last.isEmpty then [] else '.' :: last.reverse
  | none => []

/-- Before and after all parts but the last, the order of texts decides. -/
def Route.le : Route → Route → Bool
  | [], _ => true
  | _ :: _, [] => false
  | a :: as, b :: bs => if a == b then le as bs else Text.le a b

end ScriptAudit
