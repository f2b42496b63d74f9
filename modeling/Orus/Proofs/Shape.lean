import Orus.Proofs.Contracts.Parsing
import Orus.Syntax.Program

/-! # The shape of parsed trees

Trees that come from source text have an expression wherever one is evaluated, a block
wherever statements are executed and text for every name. They break and continue only
inside loops and return only inside functions.
-/

namespace Orus

inductive IsPath : Node → Prop where
  | identifier (name : String) (mark : Option Mark) : IsPath (.identifier (.str name) mark)
  | field {target : Node} (name : String) (mark : Option Mark) : IsPath target →
      IsPath (.field target (.str name) mark)

def IsSegment (node : Node) : Prop :=
  (∃ text, node = .raw (.str text)) ∨ IsPath node

inductive IsExpression : Node → Prop where
  | number (x : Float) (mark : Option Mark) : IsExpression (.number x mark)
  | nilLiteral (mark : Option Mark) : IsExpression (.nilLiteral mark)
  | string {segments : List Node} (mark : Option Mark) : (∀ n ∈ segments, IsSegment n) →
      IsExpression (.string segments mark)
  | identifier (name : String) (mark : Option Mark) : IsExpression (.identifier (.str name) mark)
  | array {elements : List Node} (mark : Option Mark) : (∀ n ∈ elements, IsExpression n) →
      IsExpression (.array elements mark)
  | range {first last : Node} (mark : Option Mark) : IsExpression first → IsExpression last →
      IsExpression (.range first last mark)
  | unary (op : Name) {operand : Node} (mark : Option Mark) : IsExpression operand →
      IsExpression (.unary op operand mark)
  | binary (op : Name) {left right : Node} (mark : Option Mark) : IsExpression left →
      IsExpression right → IsExpression (.binary op left right mark)
  | assignment (name : String) {expr : Node} (mark : Option Mark) : IsExpression expr →
      IsExpression (.assignment (.str name) expr mark)
  | call (name : String) {args : List Node} (mark : Option Mark) : (∀ n ∈ args, IsExpression n) →
      IsExpression (.call (.str name) args mark)
  | index {target position : Node} (mark : Option Mark) : IsExpression target →
      IsExpression position → IsExpression (.index target position mark)
  | field {target : Node} (name : String) (mark : Option Mark) : IsExpression target →
      IsExpression (.field target (.str name) mark)

def IsOptionalExpression (node : Node) : Prop :=
  node = .absent ∨ IsExpression node

/-- A tree that can be executed, inside a function or not and inside a loop or not. -/
inductive IsStatement (inFunction : Bool) : (inLoop : Bool) → Node → Prop where
  | letDecl {inLoop : Bool} (name : String) {init : Node} (isMutable : Bool) (mark : Option Mark) :
      IsExpression init → IsStatement inFunction inLoop (.letDecl (.str name) init isMutable mark)
  | assignment {inLoop : Bool} {name : Name} {expr : Node} {mark : Option Mark} :
      IsExpression (.assignment name expr mark) →
      IsStatement inFunction inLoop (.assignment name expr mark)
  | expression {inLoop : Bool} {expr : Node} (mark : Option Mark) : IsExpression expr →
      IsStatement inFunction inLoop (.expression expr mark)
  | printLine {inLoop : Bool} {expr : Node} (mark : Option Mark) : IsOptionalExpression expr →
      IsStatement inFunction inLoop (.printLine expr mark)
  | block {inLoop : Bool} {statements : List Node} (mark : Option Mark) :
      (∀ n ∈ statements, IsStatement inFunction inLoop n) →
      IsStatement inFunction inLoop (.block statements mark)
  | ifOnly {inLoop : Bool} {cond : Node} {statements : List Node} (thenMark mark : Option Mark) :
      IsExpression cond → (∀ n ∈ statements, IsStatement inFunction inLoop n) →
      IsStatement inFunction inLoop (.ifElse cond (.block statements thenMark) .absent mark)
  | ifElse {inLoop : Bool} {cond : Node} {statements others : List Node}
      (thenMark elseMark mark : Option Mark) : IsExpression cond →
      (∀ n ∈ statements, IsStatement inFunction inLoop n) →
      (∀ n ∈ others, IsStatement inFunction inLoop n) →
      IsStatement inFunction inLoop
        (.ifElse cond (.block statements thenMark) (.block others elseMark) mark)
  | ifChain {inLoop : Bool} {cond cond' thenPart elsePart : Node} {statements : List Node}
      {mark' : Option Mark} (thenMark mark : Option Mark) : IsExpression cond →
      (∀ n ∈ statements, IsStatement inFunction inLoop n) →
      IsStatement inFunction inLoop (.ifElse cond' thenPart elsePart mark') →
      IsStatement inFunction inLoop
        (.ifElse cond (.block statements thenMark) (.ifElse cond' thenPart elsePart mark') mark)
  | forIn {inLoop : Bool} (name : String) {iterable : Node} {statements : List Node}
      (bodyMark mark : Option Mark) : IsExpression iterable →
      (∀ n ∈ statements, IsStatement inFunction true n) →
      IsStatement inFunction inLoop (.forIn (.str name) iterable (.block statements bodyMark) mark)
  | whileLoop {inLoop : Bool} {cond : Node} {statements : List Node}
      (bodyMark mark : Option Mark) : IsExpression cond →
      (∀ n ∈ statements, IsStatement inFunction true n) →
      IsStatement inFunction inLoop (.whileLoop cond (.block statements bodyMark) mark)
  | breakLoop (mark : Option Mark) : IsStatement inFunction true (.breakLoop mark)
  | continueLoop (mark : Option Mark) : IsStatement inFunction true (.continueLoop mark)
  | returnWith {inLoop : Bool} {value : Node} (mark : Option Mark) : inFunction = true →
      IsOptionalExpression value → IsStatement inFunction inLoop (.returnWith value mark)

def IsBlock (inFunction inLoop : Bool) (node : Node) : Prop :=
  ∃ statements mark, node = .block statements mark ∧
    ∀ n ∈ statements, IsStatement inFunction inLoop n

def IsConditional (inFunction inLoop : Bool) (node : Node) : Prop :=
  IsStatement inFunction inLoop node ∧
    ∃ cond thenPart elsePart mark, node = .ifElse cond thenPart elsePart mark

def IsFunction (node : Node) : Prop :=
  ∃ (name : String) (params : List Name) (body : Node) (mark : Option Mark),
    node = .fnDecl (.str name) params body mark ∧
      (∀ p ∈ params, ∃ text, p = .str text) ∧ IsBlock true false body

/-- A program whose functions, one of which is `main`, and globals can be executed. -/
def IsProgram (node : Node) : Prop :=
  ∃ functions globals length mark, node = .program functions globals length mark ∧
    (∀ fn ∈ functions, IsFunction fn) ∧ (∀ n ∈ globals, IsStatement false false n) ∧
    functions.any Syntax.Grammar.isMain = true

namespace Syntax

variable {α β : Type}

/-! ## What parsers give -/

def IsReadable (t : Token) : Prop :=
  t.kind = .number → Number.readNumber? t.text ≠ none

/-- How a parser of readable tokens fails: with an error, or from too much nesting. -/
def IsParseFailure : Failure → Prop
  | .error _ => True
  | .fault fault => fault = .tooDeep

abbrev Yields (P : α → Prop) (p : Parse α) : Prop :=
  Delivers IsReadable IsParseFailure P p

theorem isReadable_eofAt (p : Position) : IsReadable (.eofAt p) :=
  nofun

theorem suits_readable : Suits IsReadable IsParseFailure :=
  ⟨fun _ => isReadable_eofAt _, fun _ _ => trivial⟩

theorem yields_failAt {P : α → Prop} (mark : Option Mark) (issue : SyntaxIssue) :
    Yields P (failAt mark issue) :=
  delivers_throw trivial

/-! ## Strings -/

theorem markerNames_ne_nil {fuel : Nat} {cs after : List Char} {names : List (List Char)}
    (h : markerNames fuel cs = some (names, after)) : names ≠ [] := by
  unfold markerNames at h
  split at h
  · cases h
  · cases h
  · split at h
    · dsimp only at h
      split at h
      · obtain ⟨⟨more, rest⟩, -, heq⟩ := Option.map_eq_some_iff.1 h
        cases heq
        exact List.cons_ne_nil _ _
      · cases h
        exact List.cons_ne_nil _ _
    · cases h

theorem marker?_ne_nil {rest : List Char} {names : List (List Char)} {count : Nat}
    (h : marker? rest = some (names, count)) : names ≠ [] := by
  obtain ⟨⟨found, after⟩, hfound, h⟩ := Option.bind_eq_some_iff.1 h
  dsimp only at h
  split at h
  · cases h
    exact markerNames_ne_nil hfound
  · cases h

theorem isPath_foldl (mark : Option Mark) (fields : List String) {target : Node}
    (h : IsPath target) :
    IsPath ((fields.map Json.str).foldl (fun target name => .field target name mark) target) := by
  induction fields generalizing target with
  | nil => exact h
  | cons field fields ih => exact ih (.field field mark h)

theorem isPath_markerNode (mark : Option Mark) {names : List (List Char)} (h : names ≠ []) :
    IsPath (markerNode mark names) := by
  cases names with
  | nil => exact absurd rfl h
  | cons first fields =>
    have hfields := isPath_foldl mark (fields.map String.ofList)
      (.identifier (String.ofList first) mark)
    rw [List.map_map] at hfields
    exact hfields

theorem isExpression_stringLiteral (body : String) (mark : Option Mark) :
    IsExpression (stringLiteral body mark) :=
  .string mark (forall_mem_segmentsFrom (fun text => .inl ⟨text, rfl⟩)
    (fun h => .inr (isPath_markerNode mark (marker?_ne_nil h))) [] body.toList nofun)

/-! ## Rules -/

structure Grammar.IsShapely (g : Grammar) : Prop where
  expression : Yields IsExpression g.expression
  operators (priorities : List (List String)) : Yields IsExpression (g.operators priorities)
  ascription : Yields (fun _ => True) g.ascription
  block (inLoop : Bool) : Yields (IsBlock true inLoop) (g.block inLoop)
  statement (inLoop : Bool) : Yields (IsStatement true inLoop) (g.statement inLoop)
  conditional (inLoop : Bool) : Yields (IsConditional true inLoop) (g.conditional inLoop)

theorem yields_chain (operators : List String) {operand : Parse Node}
    (hoperand : Yields IsExpression operand) (budget : Nat) {left : Node}
    (hleft : IsExpression left) :
    Yields IsExpression (chain operators operand budget left) := by
  induction budget generalizing left with
  | zero => exact delivers_pure hleft
  | succ n ih =>
    refine (delivers_sees _).bind fun isSeen _ => ?_
    split
    · refine (delivers_advance suits_readable).bind fun op _ => hoperand.bind fun right hright => ?_
      exact ih (.binary op.name op.mark hleft hright)
    · exact delivers_pure hleft

namespace Grammar

section Rules

variable {deeper : Grammar} (h : deeper.IsShapely)
include h

theorem yields_expressionRule : Yields IsExpression (expressionRule deeper) := by
  refine (h.operators _).bind fun left hleft => (delivers_sees _).bind fun isAssignment _ => ?_
  split
  · refine (delivers_advance suits_readable).bind fun equals _ => ?_
    cases hleft with
    | identifier name mark =>
      exact h.expression.bind fun right hright => delivers_pure (.assignment name mark hright)
    | _ => exact yields_failAt _ _
  · exact delivers_pure hleft

theorem yields_callRule (name : String) (mark : Option Mark) :
    Yields IsExpression (callRule deeper (.str name) mark) := by
  unfold callRule
  split
  · exact yields_failAt _ _
  · refine (delivers_consume suits_readable _).bind fun _ _ => delivers_get.bind fun c _ => ?_
    refine (delivers_commaList suits_readable _ h.expression _ (List.forall_mem_nil _)).bind
      fun args hargs => ?_
    refine (delivers_consume suits_readable _).bind fun _ _ => ?_
    split
    · split
      next first last =>
        exact delivers_pure (.range mark (hargs first (by simp)) (hargs last (by simp)))
      · exact yields_failAt _ _
    · exact delivers_pure (.call name mark hargs)

theorem yields_suffixes (budget : Nat) {node : Node} (hnode : IsExpression node) :
    Yields IsExpression (suffixes deeper budget node) := by
  induction budget generalizing node with
  | zero => exact delivers_pure hnode
  | succ n ih =>
    refine (delivers_sees _).bind fun isIndex _ => ?_
    split
    · refine (delivers_advance suits_readable).bind fun bracket _ => ?_
      refine h.expression.bind fun position hposition => ?_
      exact (delivers_consume suits_readable _).bind fun _ _ =>
        ih (.index bracket.mark hnode hposition)
    · refine (delivers_accept suits_readable _).bind fun isField _ => ?_
      split
      · refine (delivers_consumeIdent suits_readable _).bind fun name _ => ?_
        exact ih (.field name.text name.mark hnode)
      · refine (delivers_sees _).bind fun isCall _ => ?_
        split
        · split
          next name mark =>
            cases hnode with
            | identifier name => exact (yields_callRule h name mark).bind fun _ => ih
          · exact delivers_pure hnode
        · exact delivers_pure hnode

omit h in
theorem yields_numberLiteral {token : Token} (hkind : token.kind = .number)
    (htoken : IsReadable token) : Yields IsExpression (numberLiteral token) := by
  unfold numberLiteral
  split
  · exact delivers_pure (.number _ _)
  next hnone => exact absurd hnone (htoken hkind)

theorem yields_primaryRule : Yields IsExpression (primaryRule deeper) := by
  refine delivers_peek.bind fun token htoken => ?_
  split
  next hkind =>
    exact (delivers_advance suits_readable).bind fun _ _ =>
      yields_numberLiteral hkind htoken
  split
  · exact (delivers_advance suits_readable).bind fun _ _ =>
      delivers_pure (isExpression_stringLiteral _ _)
  split
  · exact (delivers_advance suits_readable).bind fun _ _ =>
      delivers_pure (.identifier token.text token.mark)
  refine (delivers_sees _).bind fun isTruth _ => ?_
  split
  · exact (delivers_advance suits_readable).bind fun _ _ => delivers_pure (.number _ _)
  refine (delivers_accept suits_readable _).bind fun isNil _ => ?_
  split
  · exact delivers_pure (.nilLiteral _)
  refine (delivers_accept suits_readable _).bind fun isGroup _ => ?_
  split
  · refine h.expression.bind fun inside hinside => ?_
    exact (delivers_consume suits_readable _).bind fun _ _ => delivers_pure hinside
  refine (delivers_accept suits_readable _).bind fun isArray _ => ?_
  split
  · refine delivers_get.bind fun c _ => ?_
    refine (delivers_commaList suits_readable _ h.expression _ (List.forall_mem_nil _)).bind
      fun elements helements => ?_
    exact (delivers_consume suits_readable _).bind fun _ _ =>
      delivers_pure (.array token.mark helements)
  split
  · exact yields_failAt _ _
  · exact yields_failAt _ _

theorem yields_unaryRule : Yields IsExpression (unaryRule deeper) := by
  refine (delivers_sees _).bind fun isUnary _ => ?_
  split
  · refine (delivers_advance suits_readable).bind fun op _ => ?_
    refine (h.operators []).bind fun operand hoperand => ?_
    exact delivers_pure (.unary op.name op.mark hoperand)
  · refine (yields_primaryRule h).bind fun node hnode => delivers_get.bind fun c _ => ?_
    exact yields_suffixes h _ hnode

theorem yields_operatorsRule (priorities : List (List String)) :
    Yields IsExpression (operatorsRule deeper priorities) := by
  cases priorities with
  | nil => exact yields_unaryRule h
  | cons loosest tighter =>
    refine (h.operators tighter).bind fun first hfirst => delivers_get.bind fun c _ => ?_
    exact yields_chain loosest (h.operators tighter) _ hfirst

/-! ## Statements -/

theorem yields_initializer (keyword : Token) :
    Yields IsExpression (initializer deeper keyword) := by
  refine (delivers_sees _).bind fun hasValue _ => ?_
  split
  · exact (delivers_consume suits_readable _).bind fun _ _ => h.expression
  · exact delivers_pure (.nilLiteral _)

theorem yields_letRule (inFunction inLoop : Bool) :
    Yields (IsStatement inFunction inLoop) (letRule deeper) := by
  refine (delivers_advance suits_readable).bind fun keyword _ => ?_
  refine (delivers_mutability suits_readable keyword).bind fun isMutable _ => ?_
  refine (delivers_consumeIdent suits_readable _).bind fun name _ => ?_
  refine (delivers_optionalAscription suits_readable h.ascription _).bind fun _ _ => ?_
  refine (yields_initializer h keyword).bind fun value hvalue => ?_
  refine (delivers_accept suits_readable _).bind fun _ _ => ?_
  exact delivers_pure (.letDecl name.text isMutable keyword.mark hvalue)

theorem yields_expressionUnless (texts : List String) :
    Yields IsOptionalExpression (expressionUnless deeper texts) := by
  refine (delivers_sees _).bind fun isEmpty _ => ?_
  split
  · exact delivers_pure (.inl rfl)
  · exact h.expression.mono fun _ => .inr

theorem yields_printRule (inLoop : Bool) : Yields (IsStatement true inLoop) (printRule deeper) := by
  refine (delivers_advance suits_readable).bind fun token _ => ?_
  refine (delivers_consume suits_readable _).bind fun _ _ => ?_
  refine (yields_expressionUnless h _).bind fun expr hexpr => ?_
  refine (delivers_consume suits_readable _).bind fun _ _ => ?_
  exact (delivers_accept suits_readable _).bind fun _ _ =>
    delivers_pure (.printLine token.mark hexpr)

theorem yields_elseRule (inLoop : Bool) :
    Yields (fun n => n = .absent ∨ IsBlock true inLoop n ∨ IsConditional true inLoop n)
      (elseRule deeper inLoop) := by
  have hconditional := (h.conditional inLoop).mono fun n hn =>
    (.inr (.inr hn) : n = .absent ∨ IsBlock true inLoop n ∨ IsConditional true inLoop n)
  refine (delivers_sees _).bind fun isElif _ => ?_
  split
  · exact hconditional
  refine (delivers_accept suits_readable _).bind fun isElse _ => ?_
  split
  · refine (delivers_sees _).bind fun isIf _ => ?_
    split
    · exact hconditional
    · exact (h.block inLoop).mono fun n hn => .inr (.inl hn)
  · exact delivers_pure (.inl rfl)

theorem yields_conditionalRule (inLoop : Bool) :
    Yields (IsConditional true inLoop) (conditionalRule deeper inLoop) := by
  refine (delivers_advance suits_readable).bind fun token _ => ?_
  refine h.expression.bind fun cond hcond => ?_
  refine (h.block inLoop).bind fun thenPart hthen => ?_
  refine (yields_elseRule h inLoop).bind fun elsePart helse => ?_
  refine delivers_pure ⟨?_, _, _, _, _, rfl⟩
  obtain ⟨statements, thenMark, rfl, hstatements⟩ := hthen
  rcases helse with
    rfl | ⟨others, elseMark, rfl, hothers⟩ | ⟨hchain, cond', then', else', mark', rfl⟩
  · exact .ifOnly thenMark token.mark hcond hstatements
  · exact .ifElse thenMark elseMark token.mark hcond hstatements hothers
  · exact .ifChain thenMark token.mark hcond hstatements hchain

theorem yields_forRule (inLoop : Bool) : Yields (IsStatement true inLoop) (forRule deeper) := by
  refine (delivers_consume suits_readable _).bind fun token _ => ?_
  refine (delivers_consumeIdent suits_readable _).bind fun name _ => ?_
  refine (delivers_consume suits_readable _).bind fun _ _ => ?_
  refine h.expression.bind fun iterable hiterable => ?_
  refine (h.block true).bind fun body hbody => delivers_pure ?_
  obtain ⟨statements, bodyMark, rfl, hstatements⟩ := hbody
  exact .forIn name.text bodyMark token.mark hiterable hstatements

theorem yields_whileRule (inLoop : Bool) : Yields (IsStatement true inLoop) (whileRule deeper) := by
  refine (delivers_consume suits_readable _).bind fun token _ => ?_
  refine h.expression.bind fun cond hcond => ?_
  refine (h.block true).bind fun body hbody => delivers_pure ?_
  obtain ⟨statements, bodyMark, rfl, hstatements⟩ := hbody
  exact .whileLoop bodyMark token.mark hcond hstatements

omit h in
theorem yields_loopControlRule (inLoop : Bool) :
    Yields (IsStatement true inLoop) (loopControlRule inLoop) := by
  refine (delivers_advance suits_readable).bind fun token _ => ?_
  cases inLoop with
  | false => exact yields_failAt _ _
  | true =>
    refine (delivers_accept suits_readable _).bind fun _ _ => delivers_pure ?_
    split
    · exact .breakLoop token.mark
    · exact .continueLoop token.mark

theorem yields_returnRule (inLoop : Bool) :
    Yields (IsStatement true inLoop) (returnRule deeper) := by
  refine (delivers_consume suits_readable _).bind fun token _ => ?_
  refine (yields_expressionUnless h _).bind fun value hvalue => ?_
  refine (delivers_accept suits_readable _).bind fun _ _ => ?_
  exact delivers_pure (.returnWith token.mark rfl hvalue)

theorem yields_expressionStatementRule (inLoop : Bool) :
    Yields (IsStatement true inLoop) (expressionStatementRule deeper) := by
  refine delivers_peek.bind fun token _ => h.expression.bind fun expr hexpr => ?_
  refine (delivers_accept suits_readable _).bind fun _ _ => ?_
  split
  · exact delivers_pure (.assignment hexpr)
  · exact delivers_pure (.expression token.mark hexpr)

theorem yields_blockRule (inLoop : Bool) :
    Yields (IsBlock true inLoop) (blockRule deeper inLoop) := by
  refine (delivers_consume suits_readable _).bind fun brace _ => delivers_get.bind fun c _ => ?_
  refine (delivers_statements suits_readable (h.statement inLoop) _ _ (List.forall_mem_nil _)).bind
    fun inside hinside => ?_
  exact (delivers_consume suits_readable _).bind fun _ _ =>
    delivers_pure ⟨inside, brace.mark, rfl, hinside⟩

theorem yields_statementRule (inLoop : Bool) :
    Yields (IsStatement true inLoop) (statementRule deeper inLoop) := by
  refine delivers_peek.bind fun token _ => ?_
  dsimp only
  split
  · exact yields_letRule h true inLoop
  split
  · exact (h.conditional inLoop).mono fun _ hn => hn.1
  split
  · exact yields_forRule h inLoop
  split
  · exact yields_whileRule h inLoop
  split
  · exact yields_loopControlRule inLoop
  split
  · exact yields_returnRule h inLoop
  split
  · exact yields_failAt _ _
  refine (delivers_sees _).bind fun isBlock _ => ?_
  split
  · refine (h.block inLoop).mono fun n hn => ?_
    obtain ⟨statements, mark, rfl, hstatements⟩ := hn
    exact .block mark hstatements
  split
  · exact yields_printRule h inLoop
  · exact yields_expressionStatementRule h inLoop

end Rules

/-! ## Programs -/

theorem isShapely_ofDepth (n : Nat) : (ofDepth n).IsShapely := by
  induction n with
  | zero =>
    have hthrow : ∀ {P : Node → Prop}, Yields P (throw (.fault .tooDeep)) := fun _ _ => rfl
    exact ⟨hthrow, fun _ => hthrow, fun _ _ => rfl, fun _ => hthrow, fun _ => hthrow,
      fun _ => hthrow⟩
  | succ n ih =>
    exact ⟨yields_expressionRule ih, yields_operatorsRule ih,
      delivers_ascriptionRule suits_readable ih.ascription, yields_blockRule ih,
      yields_statementRule ih, yields_conditionalRule ih⟩

section Programs

variable {deeper : Grammar} (h : deeper.IsShapely)
include h

theorem yields_parameterRule :
    Yields (fun p => ∃ text, p = Json.str text) (parameterRule deeper) := by
  refine (delivers_consumeIdent suits_readable _).bind fun name _ => ?_
  exact (delivers_optionalAscription suits_readable h.ascription _).bind fun _ _ =>
    delivers_pure ⟨name.text, rfl⟩

theorem yields_functionRule : Yields IsFunction (functionRule deeper) := by
  refine (delivers_consume suits_readable _).bind fun token _ => ?_
  refine (delivers_consumeIdent suits_readable _).bind fun name _ => ?_
  refine (delivers_consume suits_readable _).bind fun _ _ => delivers_get.bind fun c _ => ?_
  have hparameter := yields_parameterRule h
  refine (delivers_commaList suits_readable _ hparameter _ (List.forall_mem_nil _)).bind
    fun params hparams => ?_
  refine (delivers_consume suits_readable _).bind fun _ _ => ?_
  refine (delivers_optionalAscription suits_readable h.ascription _).bind fun _ _ => ?_
  refine (h.block false).bind fun body hbody => delivers_pure ?_
  exact ⟨name.text, params, body, token.mark, rfl, hparams, hbody⟩

theorem yields_declarations (budget : Nat) {functions globals : List Node}
    (hfunctions : ∀ fn ∈ functions, IsFunction fn)
    (hglobals : ∀ n ∈ globals, IsStatement false false n) :
    Yields (fun found => (∀ fn ∈ found.1, IsFunction fn) ∧
        ∀ n ∈ found.2, IsStatement false false n)
      (declarations deeper budget functions globals) := by
  have hreverse : (∀ fn ∈ functions.reverse, IsFunction fn) ∧
      ∀ n ∈ globals.reverse, IsStatement false false n :=
    ⟨fun fn hfn => hfunctions fn (List.mem_reverse.1 hfn),
      fun n hn => hglobals n (List.mem_reverse.1 hn)⟩
  induction budget generalizing functions globals with
  | zero => exact delivers_pure hreverse
  | succ k ih =>
    refine delivers_peek.bind fun token _ => ?_
    split
    · exact delivers_pure hreverse
    refine (delivers_accept suits_readable _).bind fun isEmpty _ => ?_
    split
    · exact ih hfunctions hglobals hreverse
    refine (delivers_sees _).bind fun isFunction _ => ?_
    split
    · refine (yields_functionRule h).bind fun fn hfn => ?_
      have hall : ∀ f ∈ fn :: functions, IsFunction f := List.forall_mem_cons.2 ⟨hfn, hfunctions⟩
      exact ih hall hglobals ⟨fun f hf => hall f (List.mem_reverse.1 hf), hreverse.2⟩
    refine (delivers_sees _).bind fun isGlobal _ => ?_
    split
    · refine (yields_letRule h false false).bind fun decl hdecl => ?_
      have hall : ∀ n ∈ decl :: globals, IsStatement false false n :=
        List.forall_mem_cons.2 ⟨hdecl, hglobals⟩
      exact ih hfunctions hall ⟨hreverse.1, fun n hn => hall n (List.mem_reverse.1 hn)⟩
    split
    · exact yields_failAt _ _
    · exact yields_failAt _ _

theorem yields_programRule : Yields IsProgram (programRule deeper) := by
  refine delivers_get.bind fun c _ => ?_
  refine (yields_declarations h _ (List.forall_mem_nil _) (List.forall_mem_nil _)).bind
    fun found hfound => delivers_peek.bind fun last _ => ?_
  split
  next hmain => exact delivers_pure ⟨_, _, _, _, rfl, hfound.1, hfound.2, hmain⟩
  · exact fun _ _ => trivial

end Programs

end Grammar

/-- The tokens of a text that can be read give a program, an error or too much nesting. -/
theorem parseTokens_cases (depth : Nat) {tokens : List Token} (h : ∀ t ∈ tokens, IsReadable t) :
    (∃ program, parseTokens depth tokens = .ok program ∧ IsProgram program) ∨
      (∃ e, parseTokens depth tokens = .error (.error e)) ∨
      parseTokens depth tokens = .error (.fault .tooDeep) := by
  rcases parseTokens_of_delivers suits_readable (fun _ => isReadable_eofAt _) h
    (Grammar.yields_programRule (Grammar.isShapely_ofDepth depth)) with
    hprogram | ⟨failure, hfailed, hfailure⟩
  · exact .inl hprogram
  · cases failure with
    | error e => exact .inr (.inl ⟨e, hfailed⟩)
    | fault f =>
      cases hfailure
      exact .inr (.inr hfailed)

end Syntax

end Orus
