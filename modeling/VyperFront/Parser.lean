import VyperFront.Language.Basic

namespace VyperFront

/-- A parser. It parses once it has a language. -/
structure Parser where
  language : Option Language

namespace Parser

/-- What a parser cannot be used for. -/
inductive Misuse where
  | noLanguage
  /-- Something else than a language, with its type. -/
  | notALanguage (type : String)
  deriving DecidableEq, Repr

def Misuse.message : Misuse → String
  | noLanguage => "Parser has no language; set parser.language first"
  | notALanguage type => s!"language must be a Language, not {type}"

/-- A parser without a language. -/
def empty : Parser := ⟨none⟩

def setLanguage (p : Parser) (l : Language) : Parser := { p with language := some l }

def parse (p : Parser) (source : Source) : Except Misuse Parse :=
  match p.language with
  | some l => .ok (l.parse source)
  | none => .error .noLanguage

end Parser

end VyperFront
