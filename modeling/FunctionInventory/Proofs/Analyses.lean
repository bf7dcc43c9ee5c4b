import FunctionInventory.Analysis
import FunctionInventory.Proofs.Outcomes

/-!
# The analysis of a source

What the analysis of a source ends in does not depend on the log. With a syntax tree it is the
extraction of the functions from the tree, and in a language that is not supported it fails.
-/
namespace FunctionInventory

open Logged

theorem exists_gives_parseSourceBy (parse : TreeParser) (health : ParserHealth)
    (source language : Text) : ∃ r, Gives (parseSourceBy parse health source language) r := by
  unfold parseSourceBy
  split
  · split
    · exact ⟨_, (gives_logged (returns_unit _)).bind_ok (gives_pure none)⟩
    · split
      · exact ⟨_, (gives_logged (returns_unit _)).bind_ok (gives_pure none)⟩
      · dsimp only
        split
        · exact ⟨_, (gives_logged (returns_unit _)).bind_ok (gives_pure none)⟩
        · split
          · exact ⟨_, (gives_logged (returns_unit _)).bind_ok (gives_pure _)⟩
          · exact ⟨_, gives_pure _⟩
  · exact ⟨_, gives_throw _⟩

theorem exists_gives_analyzeBy (parse : TreeParser) (source language : Text) :
    ∃ r, Gives (analyzeBy parse source language) r := by
  obtain ⟨parsed, hparsed⟩ := exists_gives_parseSourceBy parse .working source language
  unfold analyzeBy
  cases parsed with
  | error e => exact ⟨_, hparsed.bind_error⟩
  | ok parsed =>
    cases parsed with
    | none => exact ⟨_, hparsed.bind_ok (gives_pure [])⟩
    | some s =>
      cases hs : s.functions with
      | ok records =>
        refine ⟨.ok records, hparsed.bind_ok ?_⟩
        simp only [hs]
        exact gives_pure records
      | error e =>
        refine ⟨.error (.text e (parse.undecodable source language)), hparsed.bind_ok ?_⟩
        simp only [hs]
        exact gives_throw _

/-- The outcome of analyzing a source. -/
def analysisOutcome (parse : TreeParser) (source language : Text) :
    Except AnalysisError (List FunctionRecord) := (outcome (analyzeBy parse source language).run).1

/-- The analysis of a source with a syntax tree is the extraction from the tree. -/
theorem analysisOutcome_of_parse {parse : TreeParser} {source : Text} {l : Language}
    {root : SyntaxNode} {hasErrors : Bool} {records : List FunctionRecord}
    (hblank : Text.isBlank source = false)
    (hparse : parse.tree l (SourceText.ofText source).bytes = some (root, hasErrors))
    (hfunctions : Extraction.functions l.profile (.ofText source) root = .ok records) :
    analysisOutcome parse source l.name = .ok records := by
  have hname : Language.ofName? l.name = some l := by cases l <;> rfl
  have hparsed : Gives (parseSourceBy parse .working source l.name)
      (.ok (some ⟨l, .ofText source, root, hasErrors⟩)) := by
    unfold parseSourceBy
    rw [hname]
    simp only [hblank, hparse, reduceCtorEq, if_false]
    cases hasErrors with
    | false => exact gives_pure _
    | true => exact (gives_logged (returns_unit _)).bind_ok (gives_pure _)
  refine (hparsed.bind_ok ?_).outcome
  simp only [ParsedSource.functions, hfunctions]
  exact gives_pure records

theorem gives_analyzeBy (parse : TreeParser) (source language : Text) :
    Gives (analyzeBy parse source language) (analysisOutcome parse source language) := by
  obtain ⟨r, hr⟩ := exists_gives_analyzeBy parse source language
  rw [analysisOutcome, hr.outcome]
  exact hr

/-- The records of a source, if it can be analyzed. -/
def analysisOf (parse : TreeParser) (source language : Text) : List FunctionRecord :=
  match analysisOutcome parse source language with
  | .ok records => records
  | .error _ => []

theorem analysisOf_of_eq_ok {parse : TreeParser} {source language : Text}
    {records : List FunctionRecord} (h : analysisOutcome parse source language = .ok records) :
    analysisOf parse source language = records := by
  rw [analysisOf, h]

theorem analysisOutcome_of_unsupported (parse : TreeParser) {language : Text}
    (h : Language.ofName? language = none) (source : Text) :
    analysisOutcome parse source language = .error (.unsupported language) := by
  have hparsed : Gives (parseSourceBy parse .working source language)
      (.error (.unsupported language)) := by
    unfold parseSourceBy
    rw [h]
    exact gives_throw _
  have hanalyzed : Gives (analyzeBy parse source language) (.error (.unsupported language)) :=
    hparsed.bind_error
  exact hanalyzed.outcome

end FunctionInventory
