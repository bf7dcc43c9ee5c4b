import FunctionInventory.Extraction
import FunctionInventory.Language.JavaScript
import FunctionInventory.Language.Scanner
import FunctionInventory.Language.TypeScript
import FunctionInventory.Parsing.Syntax
import FunctionInventory.Path

/-!
# The languages of the inventory

A language has a name, a grammar and a profile for extraction. Paths choose a language
by their suffix.
-/
namespace FunctionInventory

inductive Language where
  | typeScript
  | tsx
  | javaScript
deriving DecidableEq, Repr, Inhabited

namespace Language

def name : Language → String
  | typeScript => "typescript"
  | tsx => "tsx"
  | javaScript => "javascript"

def all : List Language := [typeScript, tsx, javaScript]

/-- The language of the given name. -/
def ofName? (name : Text) : Option Language := all.find? fun l => Text.ofString l.name == name

/-- What extraction looks for in trees of the language. -/
def profile : Language → Profile
  | typeScript | tsx => .typeScript
  | javaScript => .javaScript

/-- The suffixes of source files, in lower case. -/
def suffixes : List (String × Language) := [
  (".ts", typeScript), (".mts", typeScript), (".cts", typeScript), (".tsx", tsx),
  (".js", javaScript), (".jsx", javaScript), (".mjs", javaScript), (".cjs", javaScript)]

/-- The language of a suffix, in whatever case it is written. -/
def ofSuffix? (suffix : Text) : Option Language :=
  let lower := suffix.map CodePoint.toLower
  (suffixes.find? fun e => Text.ofString e.1 == lower).map (·.2)

/-- The language of a path; TypeScript if the suffix tells nothing. -/
def ofPath (p : Path) : Language := (ofSuffix? p.suffix).getD typeScript

def typeScriptAutomaton : Automaton := .ofGrammar (.compile (TypeScript.specification false))

def tsxAutomaton : Automaton := .ofGrammar (.compile (TypeScript.specification true))

def javaScriptAutomaton : Automaton := .ofGrammar (.compile JavaScript.specification)

def automaton : Language → Automaton
  | typeScript => typeScriptAutomaton
  | tsx => tsxAutomaton
  | javaScript => javaScriptAutomaton

def scanner : Language → Scanner
  | typeScript | tsx => TypeScript.scanner
  | javaScript => JavaScript.scanner

/-- The syntax tree of some bytes, and whether a part of them does not fit the grammar. -/
def parse (l : Language) (bytes : Array UInt8) : Option (SyntaxNode × Bool) := do
  let a := l.automaton
  let (tree, src, _) := Parser.run a l.scanner bytes
  let tree ← tree
  return (← tree.toSyntax? a.grammar src, tree.errorCost > 0)

end Language

end FunctionInventory
