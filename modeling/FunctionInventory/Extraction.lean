import FunctionInventory.Record
import FunctionInventory.SourceText
import FunctionInventory.SyntaxNode

/-!
# Extracting functions from a syntax tree

Every function node gives a record. A record is nested in that of the closest function
around it, and lists the bare names called anywhere inside.
-/
namespace FunctionInventory

/-- The node kinds that drive extraction for a language. -/
structure Profile where
  name : String
  functions : List String
  declarations : List String
  wrappers : List String

namespace Profile

def typeScript : Profile where
  name := "typescript"
  functions := ["function_declaration", "generator_function_declaration", "function_signature",
    "function_expression", "function", "generator_function", "arrow_function"]
  declarations := ["function_declaration", "generator_function_declaration", "function_signature"]
  wrappers := ["export_statement", "ambient_declaration"]

def javaScript : Profile where
  name := "javascript"
  functions := ["function_declaration", "generator_function_declaration", "function_expression",
    "function", "generator_function", "arrow_function"]
  declarations := ["function_declaration", "generator_function_declaration"]
  wrappers := ["export_statement"]

def isFunction (p : Profile) (n : SyntaxNode) : Bool := p.functions.contains n.kind

end Profile

namespace Extraction

variable (p : Profile) (src : SourceText)

abbrev Result := Except TextError

def textOf (n : SyntaxNode) : Result Text := src.slice n.start n.stop

/-- The callee of a call by a bare name; tagged templates are no calls. -/
def bareCallee (n : SyntaxNode) : Option SyntaxNode :=
  if n.kind != "call_expression" then none
  else if (n.childWithField "arguments").any (·.kind == "template_string") then none
  else match n.childWithField "function" with
    | some c => if c.kind == "identifier" then some c else none
    | none => none

/-- The bare names called in a node or below it. -/
def calls (n : SyntaxNode) : Result NameSet := do
  let names ← (n.preorder.filterMap bareCallee).mapM fun c => src.sliceStrict c.start c.stop
  return .ofList names

/-- Drops the given character at the front, then blanks at both ends. -/
def withoutMark (mark : Char) (t : Text) : Text :=
  Text.trim (t.dropWhile (· == CodePoint.ofChar mark))

/-- The text of a type annotation, from its first construct to its last. -/
def annotationText (n : SyntaxNode) : Result Text :=
  match n.constructs with
  | [] => return withoutMark ':' (← textOf src n)
  | first :: rest => src.slice first.start ((first :: rest).getLast (by simp)).stop

mutual

/-- The name of a parameter: rest marks and defaults are left out, destructuring
patterns keep their text. -/
def patternName : SyntaxNode → Result Text
  | ⟨kind, start, stop, named, field, children⟩ =>
    let n : SyntaxNode := ⟨kind, start, stop, named, field, children⟩
    if kind == "rest_pattern" then
      match n.constructs with
      | inner :: _ => textOf src inner
      | [] => return withoutMark '.' (← textOf src n)
    else if kind == "assignment_pattern" then
      (leftName children).getD (textOf src n)
    else textOf src n

/-- The name of the first child with the field `left`. -/
def leftName : List SyntaxNode → Option (Result Text)
  | [] => none
  | n :: ns => if n.field == some "left" then some (patternName n) else leftName ns

end

/-- A text, or `default` in place of an empty one. -/
def orDefault (default t : Text) : Text := if t.isEmpty then default else t

def parameter (n : SyntaxNode) : Result Parameter := do
  if n.kind != "required_parameter" && n.kind != "optional_parameter" then
    return { name := ← patternName src n }
  let name ← match n.childWithField "pattern" with
    | some pattern => patternName src pattern
    | none => textOf src n
  match (n.childWithField "type").orElse fun _ => n.childOfKind "type_annotation" with
  | some annotation => return { name, type := orDefault anyType (← annotationText src annotation) }
  | none => return { name }

def parameters (n : SyntaxNode) : Result (List Parameter) :=
  match n.childWithField "parameters" with
  | some list => list.constructs.mapM (parameter src)
  | none =>
    match n.childWithField "parameter" with
    | some single => return [{ name := ← textOf src single }]
    | none => return []

def returnType (n : SyntaxNode) : Result Text :=
  match n.childWithField "return_type" with
  | some annotation => return orDefault voidType (← annotationText src annotation)
  | none => return voidType

/-- Whether the node is a function that a default export declares. `ancestors` are the
nodes around it, the closest first. -/
def isDefaultExport (ancestors : List SyntaxNode) (n : SyntaxNode) : Bool :=
  ["function_expression", "function", "generator_function"].contains n.kind &&
    match ancestors with
    | parent :: _ => parent.kind == "export_statement" && (parent.childOfKind "default").isSome
    | [] => false

/-- Whether the node declares a name. -/
def declares (ancestors : List SyntaxNode) (n : SyntaxNode) : Bool :=
  p.declarations.contains n.kind || isDefaultExport ancestors n

def functionName (ancestors : List SyntaxNode) (n : SyntaxNode) : Result Text :=
  if declares p ancestors n then
    match n.childWithField "name" with
    | some name => textOf src name
    | none => return anonymous
  else return anonymous

/-- Where a function starts: at the outermost of the export or ambient wrappers right
around a declaration. -/
def extentStart (ancestors : List SyntaxNode) (n : SyntaxNode) : Nat :=
  if declares p ancestors n then
    (ancestors.takeWhile fun a => p.wrappers.contains a.kind).getLast?.elim n.start (·.start)
  else n.start

/-- The lines of an extent; the last one is that of its last byte. -/
def lineRange (start stop : Nat) : LineRange :=
  let first := max 1 (src.lineOf start)
  ⟨first, max first (if start < stop then src.lineOf (stop - 1 : Nat) else first),
    Nat.le_max_left .., Nat.le_max_left ..⟩

/-- The record of a function node, without the records nested in it. -/
def record (ancestors : List SyntaxNode) (n : SyntaxNode) : Result FunctionRecord := do
  let start := extentStart p ancestors n
  return {
    name := ← functionName p src ancestors n
    parameters := ← parameters src n
    returnType := ← returnType src n
    lines := lineRange src start n.stop
    sourceText := ← src.slice start n.stop
    calls := ← calls src n }

/-- A node in its place: with the nodes around it, the closest first. -/
structure Site where
  ancestors : List SyntaxNode
  node : SyntaxNode

namespace Site

/-- Whether the node has a record of its own. -/
def isFunction (s : Site) : Bool := s.node.named && p.isFunction s.node

/-- The sites of the constructs right below. -/
def children (s : Site) : List Site := s.node.namedChildren.map fun n => ⟨s.node :: s.ancestors, n⟩

theorem totalOf_sizeOf_children_lt (s : Site) :
    totalOf (fun t => sizeOf t.node) s.children < sizeOf s.node := by
  rw [children, totalOf_map]
  exact s.node.totalOf_sizeOf_namedChildren_lt

end Site

/-- A site to be visited, with the container for the records found there. -/
structure Visit where
  site : Site
  container : FunctionRecord.Container

namespace Visit

/-- The visits of some sites whose records go to one container. -/
def allIn (container : FunctionRecord.Container) (row : List Site) : List Visit :=
  row.map fun s => ⟨s, container⟩

theorem totalOf_allIn_children_lt (v : Visit) (container : FunctionRecord.Container)
    (rest : List Visit) :
    totalOf (fun w => sizeOf w.site.node) (allIn container v.site.children ++ rest) <
      totalOf (fun w => sizeOf w.site.node) (v :: rest) := by
  have h := v.site.totalOf_sizeOf_children_lt
  simp only [allIn, totalOf_append, totalOf_map, totalOf_cons]
  exact Nat.add_lt_add_right h _

end Visit

/-- Makes the visits on a stack, the top first, and adds the records found to the forest
of those found before. -/
def visitAll (stack : List Visit) (forest : List FunctionRecord) : Result (List FunctionRecord) :=
  match stack with
  | [] => return forest
  | v :: rest =>
    if v.site.isFunction p then do
      let r ← record p src v.site.ancestors v.site.node
      let inner := v.container ++ [FunctionRecord.countIn v.container forest]
      visitAll (Visit.allIn inner v.site.children ++ rest) (r.addTo v.container forest)
    else visitAll (Visit.allIn v.container v.site.children ++ rest) forest
termination_by totalOf (fun v => sizeOf v.site.node) stack
decreasing_by all_goals exact Visit.totalOf_allIn_children_lt ..

/-- The functions of a tree that no other function contains. -/
def functions (root : SyntaxNode) : Result (List FunctionRecord) :=
  visitAll p src [⟨⟨[], root⟩, []⟩] []

end Extraction

end FunctionInventory
