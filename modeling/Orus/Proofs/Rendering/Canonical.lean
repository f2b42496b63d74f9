import Mathlib.Data.List.Chain
import Orus.Number.Reading
import Orus.Syntax.Grammar
import Orus.Token.Scan

/-! # Canonical renderings

A program can be written out as tokens in one canonical way: every expression inside
another one or inside a statement is put in parentheses, every simple statement ends with
a semicolon, and functions come before globals. Number literals are written as a given
function from Numbers to texts says.
-/

namespace Orus.Syntax

open Text

/-! ## Well-formed trees -/

def IsWord (word : String) : Prop :=
  (∃ c cs, word.toList = c :: cs ∧ isWordStart c = true ∧ ∀ d ∈ cs, isWordChar d = true) ∧
    word ∉ Token.keywords

def IsMarkerName (name : List Char) : Prop :=
  ∃ c cs, name = c :: cs ∧ isMarkerStart c = true ∧ ∀ d ∈ cs, isWordChar d = true

/-- A text is written as a number literal that stands for the Number. -/
def IsNumeralOf (x : Float) (text : String) : Prop :=
  (∃ source, ∃ t ∈ Token.scan source, t.kind = .number ∧ t.text = text) ∧
    Number.readNumber? text = some x

inductive WellFormedMarker : Node → Prop where
  | identifier {name : String} {mark : Option Mark} : IsMarkerName name.toList →
      WellFormedMarker (.identifier (.str name) mark)
  | field {target : Node} {name : String} {mark : Option Mark} : WellFormedMarker target →
      IsMarkerName name.toList → WellFormedMarker (.field target (.str name) mark)

def isText : Node → Bool
  | .raw (.str _) => true
  | _ => false

/-- The segments of a string: plain texts and markers, with a marker between any two texts
and no empty text unless it is all there is. -/
structure WellFormedSegments (segments : List Node) : Prop where
  nonempty : segments ≠ []
  kind : ∀ n ∈ segments, isText n = true ∨ WellFormedMarker n
  apart : segments.IsChain fun n n' => ¬ (isText n = true ∧ isText n' = true)
  filled : ∀ n ∈ segments, n = .raw (.str "") → segments = [n]

inductive WellFormedExpression : Node → Prop where
  | number {x : Float} {mark : Option Mark} : (∃ text, IsNumeralOf x text) →
      WellFormedExpression (.number x mark)
  | nilLiteral {mark : Option Mark} : WellFormedExpression (.nilLiteral mark)
  | string {segments : List Node} {mark : Option Mark} : WellFormedSegments segments →
      WellFormedExpression (.string segments mark)
  | identifier {name : String} {mark : Option Mark} : IsWord name →
      WellFormedExpression (.identifier (.str name) mark)
  | array {elements : List Node} {mark : Option Mark} :
      (∀ n ∈ elements, WellFormedExpression n) → WellFormedExpression (.array elements mark)
  | range {first last : Node} {mark : Option Mark} : WellFormedExpression first →
      WellFormedExpression last → WellFormedExpression (.range first last mark)
  | unary {op : String} {operand : Node} {mark : Option Mark} : op ∈ ["!", "-"] →
      WellFormedExpression operand → WellFormedExpression (.unary (.str op) operand mark)
  | binary {op : String} {left right : Node} {mark : Option Mark} : op ∈ priorities.flatten →
      WellFormedExpression left → WellFormedExpression right →
      WellFormedExpression (.binary (.str op) left right mark)
  | assignment {name : String} {expr : Node} {mark : Option Mark} : IsWord name →
      WellFormedExpression expr → WellFormedExpression (.assignment (.str name) expr mark)
  | call {name : String} {args : List Node} {mark : Option Mark} : IsWord name →
      name ≠ "print" → name ≠ "range" → (∀ n ∈ args, WellFormedExpression n) →
      WellFormedExpression (.call (.str name) args mark)
  | index {target position : Node} {mark : Option Mark} : WellFormedExpression target →
      WellFormedExpression position → WellFormedExpression (.index target position mark)
  | field {target : Node} {name : String} {mark : Option Mark} : WellFormedExpression target →
      IsWord name → WellFormedExpression (.field target (.str name) mark)

/-- A tree of a statement of the language, inside a loop or not. -/
inductive WellFormedStatement : (inLoop : Bool) → Node → Prop where
  | letDecl {inLoop : Bool} {name : String} {init : Node} {isMutable : Bool}
      {mark : Option Mark} : IsWord name → WellFormedExpression init →
      WellFormedStatement inLoop (.letDecl (.str name) init isMutable mark)
  | assignment {inLoop : Bool} {name : Name} {expr : Node} {mark : Option Mark} :
      WellFormedExpression (.assignment name expr mark) →
      WellFormedStatement inLoop (.assignment name expr mark)
  | expression {inLoop : Bool} {expr : Node} {mark : Option Mark} : WellFormedExpression expr →
      (∀ name value mark', expr ≠ .assignment name value mark') →
      WellFormedStatement inLoop (.expression expr mark)
  | printEmpty {inLoop : Bool} {mark : Option Mark} :
      WellFormedStatement inLoop (.printLine .absent mark)
  | printLine {inLoop : Bool} {expr : Node} {mark : Option Mark} : WellFormedExpression expr →
      WellFormedStatement inLoop (.printLine expr mark)
  | block {inLoop : Bool} {statements : List Node} {mark : Option Mark} :
      (∀ n ∈ statements, WellFormedStatement inLoop n) →
      WellFormedStatement inLoop (.block statements mark)
  | ifOnly {inLoop : Bool} {cond : Node} {statements : List Node} {thenMark mark : Option Mark} :
      WellFormedExpression cond → (∀ n ∈ statements, WellFormedStatement inLoop n) →
      WellFormedStatement inLoop (.ifElse cond (.block statements thenMark) .absent mark)
  | ifElse {inLoop : Bool} {cond : Node} {statements others : List Node}
      {thenMark elseMark mark : Option Mark} : WellFormedExpression cond →
      (∀ n ∈ statements, WellFormedStatement inLoop n) →
      (∀ n ∈ others, WellFormedStatement inLoop n) →
      WellFormedStatement inLoop
        (.ifElse cond (.block statements thenMark) (.block others elseMark) mark)
  | ifChain {inLoop : Bool} {cond cond' thenPart elsePart : Node} {statements : List Node}
      {mark' thenMark mark : Option Mark} : WellFormedExpression cond →
      (∀ n ∈ statements, WellFormedStatement inLoop n) →
      WellFormedStatement inLoop (.ifElse cond' thenPart elsePart mark') →
      WellFormedStatement inLoop
        (.ifElse cond (.block statements thenMark) (.ifElse cond' thenPart elsePart mark') mark)
  | forIn {inLoop : Bool} {name : String} {iterable : Node} {statements : List Node}
      {bodyMark mark : Option Mark} : IsWord name → WellFormedExpression iterable →
      (∀ n ∈ statements, WellFormedStatement true n) →
      WellFormedStatement inLoop (.forIn (.str name) iterable (.block statements bodyMark) mark)
  | whileLoop {inLoop : Bool} {cond : Node} {statements : List Node}
      {bodyMark mark : Option Mark} : WellFormedExpression cond →
      (∀ n ∈ statements, WellFormedStatement true n) →
      WellFormedStatement inLoop (.whileLoop cond (.block statements bodyMark) mark)
  | breakLoop {mark : Option Mark} : WellFormedStatement true (.breakLoop mark)
  | continueLoop {mark : Option Mark} : WellFormedStatement true (.continueLoop mark)
  | returnOnly {inLoop : Bool} {mark : Option Mark} :
      WellFormedStatement inLoop (.returnWith .absent mark)
  | returnWith {inLoop : Bool} {value : Node} {mark : Option Mark} : WellFormedExpression value →
      WellFormedStatement inLoop (.returnWith value mark)

inductive WellFormedFunction : Node → Prop where
  | fnDecl {name : String} {params : List String} {statements : List Node}
      {bodyMark mark : Option Mark} : IsWord name → (∀ param ∈ params, IsWord param) →
      (∀ n ∈ statements, WellFormedStatement false n) →
      WellFormedFunction
        (.fnDecl (.str name) (params.map .str) (.block statements bodyMark) mark)

inductive WellFormedGlobal : Node → Prop where
  | letDecl {name : String} {init : Node} {isMutable : Bool} {mark : Option Mark} :
      IsWord name → WellFormedExpression init →
      WellFormedGlobal (.letDecl (.str name) init isMutable mark)

/-- A tree of a program of the language, which has a `main` function without parameters. -/
inductive WellFormedProgram : Node → Prop where
  | program {functions globals : List Node} {length : Int} {mark : Option Mark} :
      (∀ fn ∈ functions, WellFormedFunction fn) → (∀ n ∈ globals, WellFormedGlobal n) →
      functions.any Grammar.isMain = true →
      WellFormedProgram (.program functions globals length mark)

/-! ## Pieces -/

/-- A token, without its place, that is neither an error nor the end of input. -/
inductive Piece where
  | word (text : String)
  | keyword (text : String)
  | number (text : String)
  | string (body : String)
  | op (text : String)
  | punct (text : String)

namespace Piece

def kind : Piece → Token.Kind
  | .word _ => .ident
  | .keyword _ => .keyword
  | .number _ => .number
  | .string _ => .string
  | .op _ => .op
  | .punct _ => .punct

/-- The text of the token; that of a string includes its quotes. -/
def text : Piece → String
  | .string body => "\"" ++ body ++ "\""
  | .word text | .keyword text | .number text | .op text | .punct text => text

def value : Piece → Option String
  | .string body => some body
  | _ => none

def token (p : Piece) : Token :=
  ⟨p.kind, p.text, .start, p.value⟩

end Piece

def paren (ps : List Piece) : List Piece :=
  .punct "(" :: (ps ++ [.punct ")"])

theorem paren_append (ps rest : List Piece) :
    paren ps ++ rest = .punct "(" :: (ps ++ .punct ")" :: rest) := by
  simp [paren]

def commas : List (List Piece) → List Piece
  | [] => []
  | [item] => item
  | item :: items => item ++ .punct "," :: commas items

/-! ## Rendering -/

def escape : Char → List Char
  | '\\' => ['\\', '\\']
  | '"' => ['\\', '"']
  | '{' => ['\\', '{']
  | c => [c]

def markerPath : Node → List (List Char)
  | .identifier (.str name) _ => [name.toList]
  | .field target (.str name) _ => markerPath target ++ [name.toList]
  | _ => []

def renderSegment : Node → List Char
  | .raw (.str text) => text.toList.flatMap escape
  | node => '{' :: (['.'].intercalate (markerPath node) ++ ['}'])

def wordOf : Name → String
  | .str word => word
  | _ => ""

variable (numeral : Float → String)

mutual

/-- An expression without parentheses around it. -/
def renderInside : Node → List Piece
  | .number x _ => [.number (numeral x)]
  | .nilLiteral _ => [.keyword "nil"]
  | .string segments _ => [.string (String.ofList (segments.flatMap renderSegment))]
  | .identifier name _ => [.word (wordOf name)]
  | .array elements _ => .punct "[" :: (commas (renderAll elements) ++ [.punct "]"])
  | .range first last _ =>
    .word "range" :: paren (commas [paren (renderInside first), paren (renderInside last)])
  | .unary op operand _ => .op (wordOf op) :: paren (renderInside operand)
  | .binary op left right _ =>
    paren (renderInside left) ++ .op (wordOf op) :: paren (renderInside right)
  | .assignment name expr _ => .word (wordOf name) :: .op "=" :: paren (renderInside expr)
  | .call name args _ => .word (wordOf name) :: paren (commas (renderAll args))
  | .index target position _ =>
    paren (renderInside target) ++
      .punct "[" :: (paren (renderInside position) ++ [.punct "]"])
  | .field target name _ => paren (renderInside target) ++ [.punct ".", .word (wordOf name)]
  | _ => []

def renderAll : List Node → List (List Piece)
  | [] => []
  | n :: ns => paren (renderInside n) :: renderAll ns

end

def renderExpression (n : Node) : List Piece :=
  paren (renderInside numeral n)

def renderOptional : Node → List Piece
  | .raw .null => []
  | n => renderExpression numeral n

/-- Whether a part of a statement is left out. -/
def isLeftOut : Node → Bool
  | .raw _ => true
  | _ => false

mutual

def renderStatement : Node → List Piece
  | .letDecl name init isMutable _ =>
    .keyword "let" :: ((if isMutable then [.keyword "mut"] else []) ++
      .word (wordOf name) :: .op "=" :: (renderExpression numeral init ++ [.punct ";"]))
  | node@(.assignment ..) => renderExpression numeral node ++ [.punct ";"]
  | .expression expr _ => renderExpression numeral expr ++ [.punct ";"]
  | .printLine expr _ => .word "print" :: (paren (renderOptional numeral expr) ++ [.punct ";"])
  | .block statements _ =>
    .punct "\x7b" :: (renderStatements statements ++ [.punct "\x7d"])
  | .ifElse cond thenPart elsePart _ =>
    .keyword "if" :: (renderExpression numeral cond ++ (renderStatement thenPart ++
      if isLeftOut elsePart then [] else .keyword "else" :: renderStatement elsePart))
  | .forIn name iterable body _ =>
    .keyword "for" :: .word (wordOf name) :: .keyword "in" ::
      (renderExpression numeral iterable ++ renderStatement body)
  | .whileLoop cond body _ =>
    .keyword "while" :: (renderExpression numeral cond ++ renderStatement body)
  | .breakLoop _ => [.keyword "break", .punct ";"]
  | .continueLoop _ => [.keyword "continue", .punct ";"]
  | .returnWith value _ => .keyword "return" :: (renderOptional numeral value ++ [.punct ";"])
  | _ => []

def renderStatements : List Node → List Piece
  | [] => []
  | n :: ns => renderStatement n ++ renderStatements ns

end

def renderFunction : Node → List Piece
  | .fnDecl name params body _ =>
    .keyword "fn" :: .word (wordOf name) ::
      (paren (commas (params.map fun param => [.word (wordOf param)])) ++
        renderStatement numeral body)
  | _ => []

/-- A program: its functions, then its globals. -/
def renderProgram : Node → List Piece
  | .program functions globals _ _ =>
    functions.flatMap (renderFunction numeral) ++ globals.flatMap (renderStatement numeral)
  | _ => []

/-- The tokens of a program, all at the start of a text. -/
def render (program : Node) : List Token :=
  (renderProgram numeral program).map Piece.token ++ [.eofAt .start]

end Orus.Syntax
