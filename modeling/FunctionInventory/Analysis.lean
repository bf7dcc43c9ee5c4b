import FunctionInventory.Language
import FunctionInventory.Log

/-!
# Analyzing one source

A source is parsed in the language of the given name, and its functions are extracted.
A source without any text, or one that cannot be parsed, has no functions.
-/
namespace FunctionInventory

/-- Why a source could not be analyzed. -/
inductive AnalysisError where
  | unsupported (language : Text)
  | text (e : TextError) (message : Text)
  /-- The functions were found, and did not come back from the worker that found them. -/
  | lost (message : Text)
deriving DecidableEq, Inhabited

namespace AnalysisError

def message : AnalysisError → Text
  | unsupported language => ("Unsupported language: " : Text) ++ language
  | text _ message => message
  | lost message => message

end AnalysisError

/-- Whether parsing is possible at all. -/
inductive ParserHealth where
  | working
  | grammarMissing
  | failing
deriving DecidableEq, Inhabited

/-- A source with its syntax tree. -/
structure ParsedSource where
  language : Language
  source : SourceText
  root : SyntaxNode
  hasErrors : Bool
deriving Inhabited

/-- A way to parse sources. -/
structure TreeParser where
  /-- The syntax tree of bytes in a language, and whether a part of them does not fit the
  grammar. -/
  tree : Language → Array UInt8 → Option (SyntaxNode × Bool)
  /-- What is said of a source in a language, where a part of it cannot be decoded. -/
  undecodable : (source language : Text) → Text := fun _ _ => unspecified

/-- Parses a source in the language of the given name. -/
def parseSourceBy (parse : TreeParser) (health : ParserHealth) (source language : Text) :
    ExceptT AnalysisError Logged (Option ParsedSource) := do
  let some l := Language.ofName? language | throw (.unsupported language)
  if Text.isBlank source then
    Logged.note .debug ("  Empty source, nothing to parse" : Text)
    return none
  if health = .grammarMissing then
    Logged.note .warning (("  tree-sitter binding not available for " : Text) ++ language ++
      (": " : Text) ++ unspecified)
    return none
  let text := SourceText.ofText source
  match if health = .failing then none else parse.tree l text.bytes with
  | none =>
    Logged.note .warning (("  Failed to parse " : Text) ++ language ++ (" source: " : Text) ++
      unspecified)
    return none
  | some (root, hasErrors) =>
    if hasErrors then
      Logged.note .debug (("  " : Text) ++ language ++
        (" source has syntax errors, continuing with partial tree" : Text))
    return some ⟨l, text, root, hasErrors⟩

/-- The parser of the languages. -/
def Language.treeParser : TreeParser := { tree := Language.parse }

def parseSource : ParserHealth → (source language : Text) →
    ExceptT AnalysisError Logged (Option ParsedSource) := parseSourceBy Language.treeParser

namespace ParsedSource

/-- The functions that no other function contains, in the order of the source. -/
def functions (s : ParsedSource) : Except TextError (List FunctionRecord) :=
  Extraction.functions s.language.profile s.source s.root

/-- The bare names called anywhere. -/
def calls (s : ParsedSource) : Except TextError NameSet := Extraction.calls s.source s.root

end ParsedSource

/-- A way to get the functions of a source in the language of a given name. -/
abbrev Analyzer := (source language : Text) → ExceptT AnalysisError Logged (List FunctionRecord)

/-- The functions of a source, by a parser that works. -/
def analyzeBy (parse : TreeParser) : Analyzer := fun source language => do
  match ← parseSourceBy parse .working source language with
  | none => return []
  | some s =>
    match s.functions with
    | .ok records => return records
    | .error e => throw (.text e (parse.undecodable source language))

/-- The functions of a source. -/
def analyze : Analyzer := analyzeBy Language.treeParser

end FunctionInventory
