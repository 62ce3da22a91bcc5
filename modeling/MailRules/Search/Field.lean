/-!
The fields that a precondition may have: what kind of arguments each takes, how many, and the tag
that it is sent under.
-/
namespace MailRules.Search

inductive ArgumentKind
  | none
  | string
  | uint32
  | date
  | duration
  | uint32List
  | stringList
  | nested
  | nestedList
  deriving DecidableEq, Repr

def ArgumentKind.label : ArgumentKind → String
  | none => "none"
  | string => "string"
  | uint32 => "uint32"
  | date => "date"
  | duration => "duration"
  | uint32List => "uint32 list"
  | stringList => "string list"
  | nested => "precondition"
  | nestedList => "precondition list"

structure Field where
  name : String
  kind : ArgumentKind
  /-- How many arguments; any number where it is not given. -/
  arity : Option Nat
  /-- The tag sent, where one is. -/
  tag : Option String
  deriving DecidableEq, Repr

namespace Field

def own (kind : ArgumentKind) (arity : Nat) (name : String) : Field :=
  ⟨name, kind, some arity, some name⟩

def markers : List String :=
  ["ALL", "ANSWERED", "DELETED", "DRAFT", "FLAGGED", "NEW", "OLD", "RECENT", "SEEN", "UNANSWERED",
   "UNDELETED", "UNDRAFT", "UNFLAGGED", "UNSEEN"]

def texts : List String :=
  ["BCC", "BODY", "CC", "FROM", "KEYWORD", "SUBJECT", "TEXT", "TO", "UNKEYWORD"]

def dates : List String := ["BEFORE", "ON", "SENTBEFORE", "SENTON", "SENTSINCE", "SINCE"]

def sizes : List String := ["LARGER", "SMALLER"]

def all : List Field :=
  markers.map (own .none 0) ++ texts.map (own .string 1) ++ dates.map (own .date 1) ++
    sizes.map (own .uint32 1) ++
    [own .string 2 "HEADER",
     ⟨"OLDERTHAN", .duration, some 1, some "BEFORE"⟩,
     ⟨"MSG", .uint32List, none, none⟩,
     ⟨"UID", .stringList, none, some "UID"⟩,
     own .nested 1 "NOT",
     ⟨"OR", .nestedList, none, some "OR"⟩]

def named? (name : String) : Option Field := all.find? (·.name = name)

end Field
end MailRules.Search
