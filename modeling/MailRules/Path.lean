import MailRules.Fault
/-!
Names of files. A path is a root and the parts below it; empty parts and parts that are a single dot
say nothing and are left out.
-/
namespace MailRules

structure Path where
  /-- Empty for a relative path. Two slashes in front, and no more, are a root of their own. -/
  root : String
  parts : List String
  deriving DecidableEq, Repr

namespace Path

/-- The texts between separators; `piece` holds the characters of the first one so far, last
first. -/
def piecesFrom (separator : Char) (piece : List Char) : List Char → List (List Char)
  | [] => [piece.reverse]
  | c :: rest =>
    if c = separator then piece.reverse :: piecesFrom separator [] rest
    else piecesFrom separator (c :: piece) rest

def pieces (separator : Char) (cs : List Char) : List (List Char) := piecesFrom separator [] cs

def isPart (piece : List Char) : Bool := piece ≠ [] && piece ≠ ['.']

def rootOf (cs : List Char) : String :=
  match (cs.takeWhile (· = '/')).length with
  | 0 => ""
  | 2 => "//"
  | _ => "/"

def ofText (text : String) : Path :=
  let cs := text.toList
  ⟨rootOf cs, ((pieces '/' cs).filter isPart).map String.ofList⟩

/-- The path as it is written; the relative path without parts is a dot. -/
def text (p : Path) : String :=
  if p.root.isEmpty && p.parts.isEmpty then "." else p.root ++ "/".intercalate p.parts

def entry (p : Path) (name : String) : Path := { p with parts := p.parts ++ [name] }

/-- A home directory without slashes at its end; nothing but slashes is the root. -/
def homeText (home : String) : String :=
  match home.toList.reverse.dropWhile (· = '/') with
  | [] => "/"
  | cs => String.ofList cs.reverse

/-- The path with a home directory in the place of a first part that starts with a tilde. What
follows the tilde is the name of a user; without a name it is the user of the program. -/
def expandHome (homes : String → Option String) (p : Path) : Except Fault Path :=
  match p.root.isEmpty, p.parts with
  | true, first :: rest =>
    match first.toList with
    | '~' :: user =>
      match homes (String.ofList user) with
      | none => .error .homeUnknown
      | some home =>
        if (homeText home).toList.head? = some '~' then .error .homeUnknown
        else
          let base := ofText (homeText home)
          .ok { base with parts := base.parts ++ rest }
    | _ => .ok p
  | _, _ => .ok p

/-- The home directory of a user in a table of accounts: one account a line, its fields between
colons, the name first and the home directory sixth. -/
def homeIn? (table : List Char) (user : String) : Option String :=
  ((pieces '\n' table).map (pieces ':')).findSome? fun fields =>
    if fields.head? = some user.toList then fields[5]?.map String.ofList else none

theorem ofText_parts (text : String) : ∀ s ∈ (ofText text).parts, s ≠ "" ∧ s ≠ "." := by
  intro s hs
  simp only [ofText, List.mem_map, List.mem_filter, isPart] at hs
  obtain ⟨piece, ⟨-, h⟩, rfl⟩ := hs
  have hne : piece ≠ [] ∧ piece ≠ ['.'] := by simpa using h
  constructor
  · intro e
    exact hne.1 (by simpa using congrArg String.toList e)
  · intro e
    exact hne.2 (by simpa using congrArg String.toList e)

end Path
end MailRules
