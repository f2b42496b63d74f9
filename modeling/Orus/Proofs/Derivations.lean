import Orus.Syntax.Grammar

/-! # What the grammar derives

The grammar as a relation between a kind of phrase, the tokens of a phrase and its tree.
It says nothing about how a phrase is found: a token list may have several derivations.
The trees have the places of the tokens they are derived from.
-/

namespace Orus

/-- A token that is neither a string nor the end of input and has the given text. -/
structure Token.Is (t : Token) (text : String) : Prop where
  not_string : t.kind ≠ .string
  not_eof : t.kind ≠ .eof
  text_eq : t.text = text

def Token.IsPrint (t : Token) : Prop :=
  t.kind = .ident ∧ t.text = "print"

namespace Syntax

/-- Nothing, or one token with the given text. -/
def IsOptional (text : String) (tokens : List Token) : Prop :=
  tokens = [] ∨ ∃ t : Token, t.Is text ∧ tokens = [t]

inductive CommaList {α : Type} (item : List Token → α → Prop) : List Token → List α → Prop where
  | nil : CommaList item [] []
  | last {ts : List Token} {a : α} : item ts a → CommaList item ts [a]
  | cons {ts rest : List Token} {comma : Token} {a : α} {as : List α} : item ts a →
      comma.Is "," → CommaList item rest as → CommaList item (ts ++ comma :: rest) (a :: as)

/-! ## Types -/

mutual

/-- A type: `T`, `[T]` or `T<T, ...>`. -/
inductive IsType : List Token → Prop where
  | name {t : Token} : t.kind = .ident → IsType [t]
  | list {opened closed : Token} {ts : List Token} : opened.Is "[" → IsType ts → closed.Is "]" →
      IsType (opened :: (ts ++ [closed]))
  | generic {t opened closed : Token} {ts : List Token} : t.kind = .ident → opened.Is "<" →
      IsTypeList ts → closed.Is ">" → IsType (t :: opened :: (ts ++ [closed]))

inductive IsTypeList : List Token → Prop where
  | last {ts : List Token} : IsType ts → IsTypeList ts
  | cons {ts rest : List Token} {comma : Token} : IsType ts → comma.Is "," → IsTypeList rest →
      IsTypeList (ts ++ comma :: rest)

end

/-- A type after a mark, or nothing. -/
def IsAnnotation (mark : String) (tokens : List Token) : Prop :=
  tokens = [] ∨ ∃ (t : Token) (ts : List Token), t.Is mark ∧ IsType ts ∧ tokens = t :: ts

/-! ## Phrases -/

inductive Phrase where
  /-- An expression that may be an assignment. -/
  | expression
  /-- Operands with operators of the given priorities, loosest first. -/
  | operators (priorities : List (List String))
  /-- An operand with its suffixes. -/
  | suffixed
  /-- A literal, a variable or something in parentheses. -/
  | primary
  /-- A `let` or `const`. -/
  | declaration
  /-- A condition that starts with the given word. -/
  | conditional (word : String) (inLoop : Bool)
  /-- What may follow the block of a condition. -/
  | otherwise (inLoop : Bool)
  | block (inLoop : Bool)
  | statement (inLoop : Bool)

/-- A variable, perhaps in parentheses: what can be assigned to and called. -/
inductive IsTarget : List Token → Name → Option Mark → Prop where
  | name {t : Token} : t.kind = .ident → IsTarget [t] t.name t.mark
  | group {opened closed : Token} {ts : List Token} {name : Name} {mark : Option Mark} :
      opened.Is "(" → IsTarget ts name mark → closed.Is ")" →
      IsTarget (opened :: (ts ++ [closed])) name mark

mutual

inductive Derives : Phrase → List Token → Node → Prop where
  /- Expressions -/
  | operand {ts : List Token} {e : Node} : Derives (.operators priorities) ts e →
      Derives .expression ts e
  | assign {ts us : List Token} {equals : Token} {name : Name} {mark : Option Mark} {e : Node} :
      IsTarget ts name mark → equals.Is "=" → Derives .expression us e →
      Derives .expression (ts ++ equals :: us) (.assignment name e mark)
  | tighter {ts : List Token} {e : Node} {loosest : List String} {tighter : List (List String)} :
      Derives (.operators tighter) ts e → Derives (.operators (loosest :: tighter)) ts e
  | binary {ts us : List Token} {op : Token} {left right : Node} {text : String}
      {loosest : List String} {tighter : List (List String)} :
      Derives (.operators (loosest :: tighter)) ts left → op.Is text → text ∈ loosest →
      Derives (.operators tighter) us right →
      Derives (.operators (loosest :: tighter)) (ts ++ op :: us)
        (.binary op.name left right op.mark)
  | unary {ts : List Token} {op : Token} {operand : Node} {text : String} :
      op.Is text → text ∈ ["!", "-"] → Derives (.operators []) ts operand →
      Derives (.operators []) (op :: ts) (.unary op.name operand op.mark)
  | suffixed {ts : List Token} {e : Node} : Derives .suffixed ts e → Derives (.operators []) ts e
  | primary {ts : List Token} {e : Node} : Derives .primary ts e → Derives .suffixed ts e
  | index {ts us : List Token} {opened closed : Token} {target position : Node} :
      Derives .suffixed ts target → opened.Is "[" → Derives .expression us position →
      closed.Is "]" →
      Derives .suffixed (ts ++ opened :: (us ++ [closed])) (.index target position opened.mark)
  | field {ts : List Token} {dot name : Token} {target : Node} :
      Derives .suffixed ts target → dot.Is "." → name.kind = .ident →
      Derives .suffixed (ts ++ [dot, name]) (.field target name.name name.mark)
  | call {ts us : List Token} {opened closed : Token} {name : Name} {mark : Option Mark}
      {args : List Node} : IsTarget ts name mark → name ≠ .str "print" → name ≠ .str "range" →
      opened.Is "(" → CommaList (Derives .expression) us args → closed.Is ")" →
      Derives .suffixed (ts ++ opened :: (us ++ [closed])) (.call name args mark)
  | range {ts us : List Token} {opened closed : Token} {mark : Option Mark} {first last : Node} :
      IsTarget ts (.str "range") mark → opened.Is "(" →
      CommaList (Derives .expression) us [first, last] → closed.Is ")" →
      Derives .suffixed (ts ++ opened :: (us ++ [closed])) (.range first last mark)
  | number {t : Token} {x : Float} : t.kind = .number → Number.readNumber? t.text = some x →
      Derives .primary [t] (.number x t.mark)
  | string {t : Token} : t.kind = .string →
      Derives .primary [t] (stringLiteral (t.value.getD "") t.mark)
  | identifier {t : Token} : t.kind = .ident → Derives .primary [t] (.identifier t.name t.mark)
  | truth {t : Token} (value : Bool) : t.Is (if value then "true" else "false") →
      Derives .primary [t] (.number (if value then 1.0 else 0.0) t.mark)
  | nilLiteral {t : Token} : t.Is "nil" → Derives .primary [t] (.nilLiteral t.mark)
  | group {opened closed : Token} {ts : List Token} {e : Node} : opened.Is "(" →
      Derives .expression ts e → closed.Is ")" → Derives .primary (opened :: (ts ++ [closed])) e
  | array {opened closed : Token} {ts : List Token} {elements : List Node} : opened.Is "[" →
      CommaList (Derives .expression) ts elements → closed.Is "]" →
      Derives .primary (opened :: (ts ++ [closed])) (.array elements opened.mark)
  /- Declarations -/
  | letValue {word name equals : Token} {mutable ascription ts semicolon : List Token} {e : Node} :
      word.Is "let" → IsOptional "mut" mutable → name.kind = .ident → IsAnnotation ":" ascription →
      equals.Is "=" → Derives .expression ts e → IsOptional ";" semicolon →
      Derives .declaration
        (word :: (mutable ++ name :: (ascription ++ equals :: (ts ++ semicolon))))
        (.letDecl name.name e (!mutable.isEmpty) word.mark)
  | letOnly {word name : Token} {mutable ascription semicolon : List Token} :
      word.Is "let" → IsOptional "mut" mutable → name.kind = .ident → IsAnnotation ":" ascription →
      IsOptional ";" semicolon →
      Derives .declaration (word :: (mutable ++ name :: (ascription ++ semicolon)))
        (.letDecl name.name (.nilLiteral word.mark) (!mutable.isEmpty) word.mark)
  | constant {word name equals : Token} {ascription ts semicolon : List Token} {e : Node} :
      word.Is "const" → name.kind = .ident → IsAnnotation ":" ascription → equals.Is "=" →
      Derives .expression ts e → IsOptional ";" semicolon →
      Derives .declaration (word :: name :: (ascription ++ equals :: (ts ++ semicolon)))
        (.letDecl name.name e false word.mark)
  /- Conditions -/
  | conditional {inLoop : Bool} {word : Token} {text : String} {ts us vs : List Token}
      {cond thenPart elsePart : Node} : word.Is text → Derives .expression ts cond →
      Derives (.block inLoop) us thenPart → Derives (.otherwise inLoop) vs elsePart →
      Derives (.conditional text inLoop) (word :: (ts ++ (us ++ vs)))
        (.ifElse cond thenPart elsePart word.mark)
  | nothing (inLoop : Bool) : Derives (.otherwise inLoop) [] .absent
  | elif {inLoop : Bool} {ts : List Token} {n : Node} : Derives (.conditional "elif" inLoop) ts n →
      Derives (.otherwise inLoop) ts n
  | elseIf {inLoop : Bool} {word : Token} {ts : List Token} {n : Node} : word.Is "else" →
      Derives (.conditional "if" inLoop) ts n → Derives (.otherwise inLoop) (word :: ts) n
  | elseBlock {inLoop : Bool} {word : Token} {ts : List Token} {n : Node} : word.Is "else" →
      Derives (.block inLoop) ts n → Derives (.otherwise inLoop) (word :: ts) n
  /- Statements -/
  | block {inLoop : Bool} {opened closed : Token} {ts : List Token} {statements : List Node} :
      opened.Is "\x7b" → DerivesAll inLoop ts statements → closed.Is "\x7d" →
      Derives (.block inLoop) (opened :: (ts ++ [closed])) (.block statements opened.mark)
  | declared {inLoop : Bool} {ts : List Token} {n : Node} : Derives .declaration ts n →
      Derives (.statement inLoop) ts n
  | decided {inLoop : Bool} {ts : List Token} {n : Node} : Derives (.conditional "if" inLoop) ts n →
      Derives (.statement inLoop) ts n
  | forIn {inLoop : Bool} {word name joint : Token} {ts us : List Token} {iterable body : Node} :
      word.Is "for" → name.kind = .ident → joint.Is "in" → Derives .expression ts iterable →
      Derives (.block true) us body →
      Derives (.statement inLoop) (word :: name :: joint :: (ts ++ us))
        (.forIn name.name iterable body word.mark)
  | whileLoop {inLoop : Bool} {word : Token} {ts us : List Token} {cond body : Node} :
      word.Is "while" → Derives .expression ts cond → Derives (.block true) us body →
      Derives (.statement inLoop) (word :: (ts ++ us)) (.whileLoop cond body word.mark)
  | breakLoop {word : Token} {semicolon : List Token} : word.Is "break" → IsOptional ";" semicolon →
      Derives (.statement true) (word :: semicolon) (.breakLoop word.mark)
  | continueLoop {word : Token} {semicolon : List Token} : word.Is "continue" →
      IsOptional ";" semicolon →
      Derives (.statement true) (word :: semicolon) (.continueLoop word.mark)
  | returnOnly {inLoop : Bool} {word : Token} {semicolon : List Token} : word.Is "return" →
      IsOptional ";" semicolon →
      Derives (.statement inLoop) (word :: semicolon) (.returnWith .absent word.mark)
  | returnValue {inLoop : Bool} {word : Token} {ts semicolon : List Token} {e : Node} :
      word.Is "return" → Derives .expression ts e → IsOptional ";" semicolon →
      Derives (.statement inLoop) (word :: (ts ++ semicolon)) (.returnWith e word.mark)
  | nested {inLoop : Bool} {ts : List Token} {n : Node} : Derives (.block inLoop) ts n →
      Derives (.statement inLoop) ts n
  | printEmpty {inLoop : Bool} {word opened closed : Token} {semicolon : List Token} :
      word.IsPrint → opened.Is "(" → closed.Is ")" → IsOptional ";" semicolon →
      Derives (.statement inLoop) (word :: opened :: closed :: semicolon)
        (.printLine .absent word.mark)
  | printValue {inLoop : Bool} {word opened closed : Token} {ts semicolon : List Token} {e : Node} :
      word.IsPrint → opened.Is "(" → Derives .expression ts e → closed.Is ")" →
      IsOptional ";" semicolon →
      Derives (.statement inLoop) (word :: opened :: (ts ++ closed :: semicolon))
        (.printLine e word.mark)
  | assignment {inLoop : Bool} {first : Token} {ts semicolon : List Token} {name : Name} {e : Node}
      {mark : Option Mark} : Derives .expression (first :: ts) (.assignment name e mark) →
      ¬ first.IsPrint → IsOptional ";" semicolon →
      Derives (.statement inLoop) (first :: (ts ++ semicolon)) (.assignment name e mark)
  | expression {inLoop : Bool} {first : Token} {ts semicolon : List Token} {e : Node} :
      Derives .expression (first :: ts) e → (∀ name value mark, e ≠ .assignment name value mark) →
      ¬ first.IsPrint → IsOptional ";" semicolon →
      Derives (.statement inLoop) (first :: (ts ++ semicolon)) (.expression e first.mark)

/-- Statements one after the other, with any number of semicolons between them. -/
inductive DerivesAll : (inLoop : Bool) → List Token → List Node → Prop where
  | nil (inLoop : Bool) : DerivesAll inLoop [] []
  | semicolon {inLoop : Bool} {t : Token} {ts : List Token} {ns : List Node} : t.Is ";" →
      DerivesAll inLoop ts ns → DerivesAll inLoop (t :: ts) ns
  | cons {inLoop : Bool} {ts us : List Token} {n : Node} {ns : List Node} :
      Derives (.statement inLoop) ts n → DerivesAll inLoop us ns →
      DerivesAll inLoop (ts ++ us) (n :: ns)

end

/-! ## Programs -/

inductive DerivesParameter : List Token → Name → Prop where
  | name {t : Token} {ascription : List Token} : t.kind = .ident → IsAnnotation ":" ascription →
      DerivesParameter (t :: ascription) t.name

inductive DerivesFunction : List Token → Node → Prop where
  | function {word name opened closed : Token} {ts ascription us : List Token}
      {params : List Name} {body : Node} : word.Is "fn" → name.kind = .ident → opened.Is "(" →
      CommaList DerivesParameter ts params → closed.Is ")" → IsAnnotation "->" ascription →
      Derives (.block false) us body →
      DerivesFunction (word :: name :: opened :: (ts ++ closed :: (ascription ++ us)))
        (.fnDecl name.name params body word.mark)

/-- Functions and global declarations, each in order, with any number of semicolons
between them. -/
inductive DerivesDeclarations : List Token → List Node → List Node → Prop where
  | nil : DerivesDeclarations [] [] []
  | semicolon {t : Token} {ts : List Token} {functions globals : List Node} : t.Is ";" →
      DerivesDeclarations ts functions globals → DerivesDeclarations (t :: ts) functions globals
  | function {ts us : List Token} {fn : Node} {functions globals : List Node} :
      DerivesFunction ts fn → DerivesDeclarations us functions globals →
      DerivesDeclarations (ts ++ us) (fn :: functions) globals
  | global {ts us : List Token} {decl : Node} {functions globals : List Node} :
      Derives .declaration ts decl → DerivesDeclarations us functions globals →
      DerivesDeclarations (ts ++ us) functions (decl :: globals)

/-- A program with the length of its source text, one of whose functions is a `main`
function without parameters. -/
inductive DerivesProgram (length : Int) : List Token → Node → Prop where
  | program {ts : List Token} {functions globals : List Node} :
      DerivesDeclarations ts functions globals → functions.any Grammar.isMain = true →
      DerivesProgram length ts (.program functions globals length none)

end Syntax

end Orus
