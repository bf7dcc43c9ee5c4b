import FunctionInventory.Parsing.Lexer

/-!
# Tokens that depend on their surroundings

Some tokens of JavaScript and TypeScript are not described by patterns: semicolons
that a line break stands for, the text of templates and of JSX elements, the question
mark of conditional expressions, and the old comment marks of HTML.
-/
namespace FunctionInventory

/-- The external tokens, in the order in which the grammars list them. -/
inductive ExternalToken where
  | automaticSemicolon
  | templateText
  | questionMark
  | htmlComment
  | logicalOr
  | escapeSequence
  | regexPattern
  | jsxText
  | signatureSemicolon

namespace ExternalToken

def index : ExternalToken → Nat
  | automaticSemicolon => 0
  | templateText => 1
  | questionMark => 2
  | htmlComment => 3
  | logicalOr => 4
  | escapeSequence => 5
  | regexPattern => 6
  | jsxText => 7
  | signatureSemicolon => 8

end ExternalToken

namespace Scanning

/-- Blanks between tokens, as far as scanning is concerned: no-break spaces are not
among them. -/
def isSpace (c : Nat) : Bool :=
  (9 ≤ c && c ≤ 13) || c == 32 || c == 0x1680 || (0x2000 ≤ c && c ≤ 0x2006) ||
    (0x2008 ≤ c && c ≤ 0x200a) || c == 0x2028 || c == 0x2029 || c == 0x205f || c == 0x3000

def isDigit (c : Nat) : Bool := 48 ≤ c && c ≤ 57

/-- Letters; outside ASCII every character counts as one that is not blank. -/
def isLetter (c : Nat) : Bool :=
  (65 ≤ c && c ≤ 90) || (97 ≤ c && c ≤ 122) || (0xaa ≤ c && c != malformed && !isSpace c)

def isLineBreak (c : Nat) : Bool := c == 10 || c == 0x2028 || c == 0x2029

def isChar (c : Nat) (d : Char) : Bool := c == d.toNat

def isOneOf (c : Nat) (text : String) : Bool := text.toList.any fun d => d.toNat == c

variable (src : Source)

/-- The first position from `pos` on whose unit fails the test, or the end. -/
def skipWhile (p : Nat → Bool) : (fuel pos : Nat) → Nat
  | 0, pos => pos
  | fuel + 1, pos =>
    if pos < src.size && p (src.peek pos) then skipWhile p fuel (pos + 1) else pos

def skipSpaces (pos : Nat) : Nat := skipWhile src isSpace (src.size - pos) pos

/-- The text of a template up to a substitution, an escape or the closing mark. -/
def templateText : (fuel start pos : Nat) → Option Nat
  | 0, _, _ => none
  | fuel + 1, start, pos =>
    let c := src.peek pos
    if c == 0 then none
    else if c == 96 || isChar c '\\' then if pos > start then some pos else none
    else if isChar c '$' && src.peek (pos + 1) == 123 then if pos > start then some pos else none
    else templateText fuel start (pos + 1)

/-- The text of an element up to a tag, a brace or a character reference. Line breaks
with the blanks around them are no text by themselves. -/
def jsxText : (fuel pos : Nat) → (sawText atBreak : Bool) → Option Nat
  | 0, _, _, _ => none
  | fuel + 1, pos, sawText, atBreak =>
    let c := src.peek pos
    if c == 0 || isOneOf c "<>&\x7b\x7d" then if sawText then some pos else none
    else if c == 10 then jsxText fuel (pos + 1) sawText true
    else
      let atBreak := atBreak && isSpace c
      jsxText fuel (pos + 1) (sawText || !atBreak) atBreak

/-- The question mark of a conditional expression in JavaScript: one, and no optional
chain. -/
def questionMark (pos : Nat) : Option (Nat × Nat) :=
  let pos := skipSpaces src pos
  if !isChar (src.peek pos) '?' then none
  else
    let next := src.peek (pos + 1)
    if isChar next '?' then none
    else if isChar next '.' && !isDigit (src.peek (pos + 2)) then none
    else some (pos, pos + 1)

/-- The same in TypeScript, where a question mark may also make a parameter optional:
then a colon, a comma or a closing parenthesis follows. -/
def typedQuestionMark (pos : Nat) : Option (Nat × Nat) :=
  let pos := skipSpaces src pos
  if !isChar (src.peek pos) '?' || isOneOf (src.peek (pos + 1)) "?." then none
  else
    let after := skipSpaces src (pos + 1)
    let next := src.peek after
    if isOneOf next ":)," then none
    else if isChar next '.' && !isDigit (src.peek (after + 1)) then none
    else some (pos, pos + 1)

/-- Whether the units from `pos` on spell a text. -/
def spells (pos : Nat) (text : String) : Bool :=
  (List.range text.length).all fun i =>
    some (src.peek (pos + i)) == (text.toList[i]?).map Char.toNat

/-- A comment that starts like one of HTML and goes to the end of the line. -/
def htmlComment (pos : Nat) : Option (Nat × Nat) :=
  let pos := skipSpaces src pos
  let toLineEnd (p : Nat) : Nat :=
    skipWhile src (fun c => c != 0 && !isLineBreak c) (src.size - p) p
  if spells src pos "<!--" then some (pos, toLineEnd (pos + 4))
  else if spells src pos "-->" then some (pos, toLineEnd (pos + 3))
  else none

/-- Where a block comment ends that was opened before `pos`, and whether it holds a
line break. -/
def blockComment : (fuel pos : Nat) → (sawBreak : Bool) → Nat × Bool × Bool
  | 0, pos, sawBreak => (pos, sawBreak, false)
  | fuel + 1, pos, sawBreak =>
    let c := src.peek pos
    if c == 0 then (pos, sawBreak, false)
    else if isChar c '*' then
      if isChar (src.peek (pos + 1)) '/' then (pos + 2, sawBreak, true)
      else blockComment fuel (pos + 1) sawBreak
    else blockComment fuel (pos + 1) (sawBreak || isLineBreak c)

/-- What skipping blanks and comments came to. -/
inductive Gap where
  | refused
  | sameLine (pos : Nat)
  | passed (pos : Nat)

/-- Skips blanks and comments. With `whole` unset it stops behind the first block
comment and tells whether that one spans lines. -/
def skipGap (breaks : Nat → Bool) (whole : Bool) : (fuel pos : Nat) → (sawComment sawBreak : Bool) → Gap × Bool
  | 0, pos, sawComment, _ => (.passed pos, sawComment)
  | fuel + 1, pos, sawComment, sawBreak =>
    let pos := skipSpaces src pos
    if !isChar (src.peek pos) '/' then (.passed pos, sawComment)
    else if isChar (src.peek (pos + 1)) '/' then
      let stop := skipWhile src (fun c => c != 0 && !breaks c) (src.size - pos) (pos + 2)
      skipGap breaks whole fuel stop true sawBreak
    else if isChar (src.peek (pos + 1)) '*' then
      let (stop, broke, closed) := blockComment src (src.size - pos) (pos + 2) sawBreak
      if closed && !whole && !isChar (src.peek stop) '/' then
        (if broke then .passed stop else .sameLine stop, true)
      else skipGap breaks whole fuel stop (sawComment || (closed && !whole) || (closed && breaks 0x2028)) broke
    else (.refused, sawComment)

/-- Whether a statement can end before the word at `pos`: not before the operators
`in` and `instanceof`. -/
def endsBeforeWord (pos : Nat) : Bool :=
  if !isChar (src.peek (pos + 1)) 'n' then true
  else if !isLetter (src.peek (pos + 2)) then false
  else !(spells src (pos + 2) "stanceof" && !isLetter (src.peek (pos + 10)))

/-- The outcome of looking for a semicolon: whether one may be supposed, where looking
stopped, and whether a comment was passed. -/
structure Semicolon where
  supposed : Bool
  pos : Nat
  sawComment : Bool

end Scanning

open Scanning in
/-- JavaScript: a statement may end at the end of input, before a closing brace, and at
a line break unless the next line continues it. -/
def javaScriptSemicolon (src : Source) (commentsCount : Bool) :
    (fuel pos : Nat) → (sawComment : Bool) → Semicolon
  | 0, pos, sawComment => ⟨false, pos, sawComment⟩
  | fuel + 1, pos, sawComment =>
    if src.peek pos == 0 then ⟨true, pos, sawComment⟩
    else
      let gap : Option (Nat × Bool × Bool) :=
        if isChar (src.peek pos) '/' then
          match skipGap src isLineBreak false (src.size - pos + 1) pos sawComment false with
          | (.refused, _) => none
          | (.sameLine p, c) => some (p, c, false)
          | (.passed p, c) => some (p, c, commentsCount && !isOneOf (src.peek p) ",=")
        else some (pos, sawComment, false)
      match gap with
      | none => ⟨false, pos + 1, sawComment⟩
      | some (p, c, true) => ⟨true, p, c⟩
      | some (p, c, false) =>
        let unit := src.peek p
        if isChar unit '\x7d' then ⟨true, p, c⟩
        else if isLineBreak unit then
          match skipGap src isLineBreak true (src.size - p + 1) (p + 1) c false with
          | (.refused, c) => ⟨false, p, c⟩
          | (.sameLine q, c) | (.passed q, c) =>
            let next := src.peek q
            let after := src.peek (q + 1)
            let supposed :=
              if isOneOf next "\x60,:;*%><=[(?^|&/" then false
              else if isChar next '.' then isDigit after
              else if isChar next '+' then isChar after '+'
              else if isChar next '-' then isChar after '-'
              else if isChar next '!' then !isChar after '='
              else if isChar next 'i' then endsBeforeWord src q
              else true
            ⟨supposed, q, c⟩
        else if !isSpace unit then ⟨false, p, c⟩
        else javaScriptSemicolon src commentsCount fuel (p + 1) c

open Scanning in
/-- TypeScript: as above, with comments left to be read first; a closing brace before a
colon ends no statement outside expressions, and a bracket on the next line continues an
expression only. -/
def typeScriptSemicolon (src : Source) (inExpression afterSignature : Bool) :
    (fuel pos : Nat) → Semicolon
  | 0, pos => ⟨false, pos, false⟩
  | fuel + 1, pos =>
    let unit := src.peek pos
    if unit == 0 then ⟨true, pos, false⟩
    else if isChar unit '\x7d' then
      let q := skipSpaces src (pos + 1)
      ⟨if isChar (src.peek q) ':' then inExpression else true, q, false⟩
    else if !isSpace unit then ⟨false, pos, false⟩
    else if unit != 10 then typeScriptSemicolon src inExpression afterSignature fuel (pos + 1)
    else
      match skipGap src (· == 10) true (src.size - pos + 1) (pos + 1) false false with
      | (.refused, c) => ⟨false, pos, c⟩
      | (.sameLine q, c) | (.passed q, c) =>
        let next := src.peek q
        let after := src.peek (q + 1)
        let supposed :=
          if isOneOf next "\x60,.;*%><=?^|&/:" then false
          else if isChar next '\x7b' then !afterSignature
          else if isOneOf next "([" then !inExpression
          else if isChar next '+' then isChar after '+'
          else if isChar next '-' then isChar after '-'
          else if isChar next '!' then !isChar after '='
          else if isChar next 'i' then endsBeforeWord src q
          else true
        ⟨supposed, q, c⟩

open Scanning in
/-- The scanner of a language, given how it looks for semicolons and question marks. -/
def scannerWith (semicolon : (ExternalToken → Bool) → Source → Nat → Semicolon)
    (question : Source → Nat → Option (Nat × Nat)) : Scanner :=
  fun possible src pos =>
    let can (t : ExternalToken) : Bool := possible t.index
    let rest := src.size - pos + 1
    let result (t : ExternalToken) (extent : Option (Nat × Nat)) : Option (Nat × Nat × Nat) :=
      extent.map fun (a, b) => (t.index, a, b)
    if can .templateText then
      if can .automaticSemicolon then none
      else result .templateText ((templateText src rest pos pos).map fun stop => (pos, stop))
    else
      let text := if can .jsxText then jsxText src rest pos false false else none
      match text with
      | some stop => result .jsxText (some (pos, stop))
      | none =>
        if can .automaticSemicolon || can .signatureSemicolon then
          let found := semicolon can src pos
          if found.supposed then result .automaticSemicolon (some (pos, pos))
          else if !found.sawComment && can .questionMark && isChar (src.peek found.pos) '?' then
            result .questionMark (question src found.pos)
          else none
        else if can .questionMark then result .questionMark (question src pos)
        else if can .htmlComment && !can .logicalOr && !can .escapeSequence && !can .regexPattern then
          result .htmlComment (htmlComment src pos)
        else none

def JavaScript.scanner : Scanner :=
  scannerWith (fun can src pos =>
    javaScriptSemicolon src (!can .logicalOr) (src.size - pos + 1) pos false) Scanning.questionMark

def TypeScript.scanner : Scanner :=
  scannerWith (fun can src pos =>
    typeScriptSemicolon src (can .logicalOr) (can .signatureSemicolon) (src.size - pos + 1) pos)
    Scanning.typedQuestionMark

end FunctionInventory
