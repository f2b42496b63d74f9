import Orus.Proofs.Contracts.Parsing
import Orus.Proofs.Subtrees
import Orus.Syntax.Program

/-! # The places of parsed trees

Every tree that the parser builds has the place of a token, and so has every error that it
reports. The exceptions are values in the place of trees, which have no place, and errors
that are about the program as a whole.
-/

namespace Orus

variable {M : Option Mark → Prop}

def ErrorKind.isPlaceless : ErrorKind → Bool
  | .missingMain | .resourceExhausted | .cancelled => true
  | _ => false

theorem ErrorKind.isPlaceless_iff {kind : ErrorKind} : kind.isPlaceless = true ↔
    kind = .missingMain ∨ kind = .resourceExhausted ∨ kind = .cancelled := by
  cases kind <;> simp [isPlaceless]

/-- An error that is at a place with a property, unless it is not about any. -/
def Error.IsPlaced (M : Option Mark → Prop) (e : Error) : Prop :=
  if e.cause.kind.isPlaceless then e.mark = none else M e.mark

/-- A tree all of whose parts, except for values in the place of trees, are at places with a
property. -/
def Node.IsPlaced (M : Option Mark → Prop) (n : Node) : Prop :=
  n.Everywhere fun part => (∃ value, part = .raw value) ∨ M part.mark

namespace Node

theorem isPlaced_raw (value : Json) : (Node.raw value).IsPlaced M :=
  .intro (.inl ⟨value, rfl⟩) nofun

theorem isPlaced_of_children {n : Node} (hmark : M n.mark)
    (hchildren : ∀ c ∈ n.children, c.IsPlaced M) : n.IsPlaced M :=
  .intro (.inr hmark) hchildren

theorem isPlaced_of_child {n c : Node} (hmark : M n.mark) (hn : n.children = [c])
    (hc : c.IsPlaced M) : n.IsPlaced M :=
  isPlaced_of_children hmark (hn ▸ List.forall_mem_singleton.2 hc)

theorem isPlaced_of_two {n c d : Node} (hmark : M n.mark) (hn : n.children = [c, d])
    (hc : c.IsPlaced M) (hd : d.IsPlaced M) : n.IsPlaced M :=
  isPlaced_of_children hmark
    (hn ▸ List.forall_mem_cons.2 ⟨hc, List.forall_mem_singleton.2 hd⟩)

theorem isPlaced_of_leaf {n : Node} (hmark : M n.mark) (hn : n.children = []) : n.IsPlaced M :=
  isPlaced_of_children hmark (hn ▸ List.forall_mem_nil _)

end Node

namespace Syntax

variable {α : Type}

/-! ## Strings -/

theorem isPlaced_markerNode {mark : Option Mark} (hmark : M mark) (names : List (List Char)) :
    (markerNode mark names).IsPlaced M := by
  have hfields : ∀ (fields : List Name) {target : Node}, target.IsPlaced M →
      (fields.foldl (fun target name => .field target name mark) target).IsPlaced M := by
    intro fields
    induction fields with
    | nil => exact fun h => h
    | cons field fields ih => exact fun h => ih (Node.isPlaced_of_child hmark rfl h)
  unfold markerNode
  split
  · exact Node.isPlaced_raw _
  · exact hfields _ (Node.isPlaced_of_leaf hmark rfl)

theorem isPlaced_stringLiteral {mark : Option Mark} (hmark : M mark) (body : String) :
    (stringLiteral body mark).IsPlaced M :=
  Node.isPlaced_of_children hmark (forall_mem_segmentsFrom (fun _ => Node.isPlaced_raw _)
    (fun _ => isPlaced_markerNode hmark _) [] body.toList nofun)

/-! ## Rules -/

def IsPlacedFailure (M : Option Mark → Prop) (failure : Failure) : Prop :=
  ∀ e, failure = .error e → e.IsPlaced M ∧ e.cause ≠ .grammar .nestedTooDeeply

/-- Parsers that read tokens at places with a property, give results with a property and
report errors at such places. -/
abbrev Places (M : Option Mark → Prop) (P : α → Prop) (p : Parse α) : Prop :=
  Delivers (fun t => M t.mark) (IsPlacedFailure M) P p

theorem isPlacedFailure_grammar {mark : Option Mark} (hmark : M mark) {issue : SyntaxIssue}
    (hissue : issue ≠ .nestedTooDeeply) : IsPlacedFailure M (.error ⟨.grammar issue, mark⟩) := by
  rintro e ⟨⟩
  exact ⟨hmark, fun h => hissue (Cause.grammar.inj h)⟩

theorem suits_placed : Suits (fun t => M t.mark) (IsPlacedFailure M) :=
  ⟨fun ht => ht, fun ht hissue => isPlacedFailure_grammar ht hissue⟩

theorem places_fault {P : α → Prop} (fault : Fault) : Places M P (throw (.fault fault)) :=
  delivers_throw nofun

structure Grammar.IsPlacing (M : Option Mark → Prop) (g : Grammar) : Prop where
  expression : Places M (Node.IsPlaced M) g.expression
  operators (priorities : List (List String)) :
    Places M (Node.IsPlaced M) (g.operators priorities)
  ascription : Places M (fun _ => True) g.ascription
  block (inLoop : Bool) : Places M (Node.IsPlaced M) (g.block inLoop)
  statement (inLoop : Bool) : Places M (Node.IsPlaced M) (g.statement inLoop)
  conditional (inLoop : Bool) : Places M (Node.IsPlaced M) (g.conditional inLoop)

theorem places_failAt {P : α → Prop} {mark : Option Mark} (hmark : M mark) {issue : SyntaxIssue}
    (hissue : issue ≠ .nestedTooDeeply) : Places M P (failAt mark issue) :=
  delivers_throw (isPlacedFailure_grammar hmark hissue)

theorem places_chain (operators : List String) {operand : Parse Node}
    (hoperand : Places M (Node.IsPlaced M) operand) (budget : Nat) {left : Node}
    (hleft : left.IsPlaced M) :
    Places M (Node.IsPlaced M) (chain operators operand budget left) := by
  induction budget generalizing left with
  | zero => exact delivers_pure hleft
  | succ n ih =>
    refine (delivers_sees _).bind fun isSeen _ => ?_
    split
    · refine (delivers_advance suits_placed).bind fun op hop => hoperand.bind fun right hright => ?_
      exact ih (Node.isPlaced_of_two hop rfl hleft hright)
    · exact delivers_pure hleft

namespace Grammar

section Rules

variable {deeper : Grammar} (h : deeper.IsPlacing M)
include h

theorem places_expressionRule : Places M (Node.IsPlaced M) (expressionRule deeper) := by
  refine (h.operators _).bind fun left hleft => (delivers_sees _).bind fun isAssignment _ => ?_
  split
  · refine (delivers_advance suits_placed).bind fun equals hequals => ?_
    split
    next name mark =>
      have hmark : M mark := hleft.here.resolve_left nofun
      exact h.expression.bind fun right hright =>
        delivers_pure (Node.isPlaced_of_child hmark rfl hright)
    · exact places_failAt hequals nofun
  · exact delivers_pure hleft

theorem places_callRule (name : Name) {mark : Option Mark} (hmark : M mark) :
    Places M (Node.IsPlaced M) (callRule deeper name mark) := by
  unfold callRule
  split
  · exact places_failAt hmark nofun
  · refine (delivers_consume suits_placed _).bind fun _ _ => delivers_get.bind fun c _ => ?_
    refine (delivers_commaList suits_placed _ h.expression _ (List.forall_mem_nil _)).bind
      fun args hargs => (delivers_consume suits_placed _).bind fun _ _ => ?_
    split
    · split
      next first last =>
        obtain ⟨hfirst, hlast⟩ := List.forall_mem_cons.1 hargs
        exact delivers_pure (Node.isPlaced_of_two hmark rfl hfirst
          (List.forall_mem_singleton.1 hlast))
      · exact places_failAt hmark nofun
    · exact delivers_pure (Node.isPlaced_of_children hmark hargs)

theorem places_suffixes (budget : Nat) {node : Node} (hnode : node.IsPlaced M) :
    Places M (Node.IsPlaced M) (suffixes deeper budget node) := by
  induction budget generalizing node with
  | zero => exact delivers_pure hnode
  | succ n ih =>
    refine (delivers_sees _).bind fun isIndex _ => ?_
    split
    · refine (delivers_advance suits_placed).bind fun bracket hbracket => ?_
      refine h.expression.bind fun position hposition => ?_
      exact (delivers_consume suits_placed _).bind fun _ _ =>
        ih (Node.isPlaced_of_two hbracket rfl hnode hposition)
    · refine (delivers_accept suits_placed _).bind fun isField _ => ?_
      split
      · refine (delivers_consumeIdent suits_placed _).bind fun name hname => ?_
        exact ih (Node.isPlaced_of_child hname rfl hnode)
      · refine (delivers_sees _).bind fun isCall _ => ?_
        split
        · split
          next name mark =>
            have hmark : M mark := hnode.here.resolve_left nofun
            exact (places_callRule h name hmark).bind fun _ => ih
          · exact delivers_pure hnode
        · exact delivers_pure hnode

omit h in
theorem places_numberLiteral {token : Token} (htoken : M token.mark) :
    Places M (Node.IsPlaced M) (numberLiteral token) := by
  unfold numberLiteral
  split
  · exact delivers_pure (Node.isPlaced_of_leaf htoken rfl)
  · exact places_fault _

theorem places_primaryRule : Places M (Node.IsPlaced M) (primaryRule deeper) := by
  have htake := delivers_advance (suits_placed (M := M))
  refine delivers_peek.bind fun token htoken => ?_
  split
  · exact htake.bind fun _ _ => places_numberLiteral htoken
  split
  · exact htake.bind fun _ _ => delivers_pure (isPlaced_stringLiteral htoken _)
  split
  · exact htake.bind fun _ _ => delivers_pure (Node.isPlaced_of_leaf htoken rfl)
  refine (delivers_sees _).bind fun isTruth _ => ?_
  split
  · exact htake.bind fun _ _ => delivers_pure (Node.isPlaced_of_leaf htoken rfl)
  refine (delivers_accept suits_placed _).bind fun isNil _ => ?_
  split
  · exact delivers_pure (Node.isPlaced_of_leaf htoken rfl)
  refine (delivers_accept suits_placed _).bind fun isGroup _ => ?_
  split
  · refine h.expression.bind fun inside hinside => ?_
    exact (delivers_consume suits_placed _).bind fun _ _ => delivers_pure hinside
  refine (delivers_accept suits_placed _).bind fun isArray _ => ?_
  split
  · refine delivers_get.bind fun c _ => ?_
    refine (delivers_commaList suits_placed _ h.expression _ (List.forall_mem_nil _)).bind
      fun elements helements => (delivers_consume suits_placed _).bind fun _ _ => ?_
    exact delivers_pure (Node.isPlaced_of_children htoken helements)
  split <;> exact places_failAt htoken nofun

theorem places_unaryRule : Places M (Node.IsPlaced M) (unaryRule deeper) := by
  refine (delivers_sees _).bind fun isUnary _ => ?_
  split
  · refine (delivers_advance suits_placed).bind fun op hop => ?_
    exact (h.operators []).bind fun operand hoperand =>
      delivers_pure (Node.isPlaced_of_child hop rfl hoperand)
  · refine (places_primaryRule h).bind fun node hnode => delivers_get.bind fun c _ => ?_
    exact places_suffixes h _ hnode

theorem places_operatorsRule (priorities : List (List String)) :
    Places M (Node.IsPlaced M) (operatorsRule deeper priorities) := by
  cases priorities with
  | nil => exact places_unaryRule h
  | cons loosest tighter =>
    refine (h.operators tighter).bind fun first hfirst => delivers_get.bind fun c _ => ?_
    exact places_chain loosest (h.operators tighter) _ hfirst

/-! ## Statements -/

theorem places_initializer {keyword : Token} (hkeyword : M keyword.mark) :
    Places M (Node.IsPlaced M) (initializer deeper keyword) := by
  refine (delivers_sees _).bind fun hasValue _ => ?_
  split
  · exact (delivers_consume suits_placed _).bind fun _ _ => h.expression
  · exact delivers_pure (Node.isPlaced_of_leaf hkeyword rfl)

theorem places_letRule : Places M (Node.IsPlaced M) (letRule deeper) := by
  refine (delivers_advance suits_placed).bind fun keyword hkeyword => ?_
  refine (delivers_mutability suits_placed keyword).bind fun isMutable _ => ?_
  refine (delivers_consumeIdent suits_placed _).bind fun name _ => ?_
  refine (delivers_optionalAscription suits_placed h.ascription _).bind fun _ _ => ?_
  refine (places_initializer h hkeyword).bind fun value hvalue => ?_
  exact (delivers_accept suits_placed _).bind fun _ _ =>
    delivers_pure (Node.isPlaced_of_child hkeyword rfl hvalue)

theorem places_expressionUnless (texts : List String) :
    Places M (Node.IsPlaced M) (expressionUnless deeper texts) := by
  refine (delivers_sees _).bind fun isEmpty _ => ?_
  split
  · exact delivers_pure (Node.isPlaced_raw _)
  · exact h.expression

theorem places_printRule : Places M (Node.IsPlaced M) (printRule deeper) := by
  refine (delivers_advance suits_placed).bind fun token htoken => ?_
  refine (delivers_consume suits_placed _).bind fun _ _ => ?_
  refine (places_expressionUnless h _).bind fun expr hexpr => ?_
  refine (delivers_consume suits_placed _).bind fun _ _ => ?_
  exact (delivers_accept suits_placed _).bind fun _ _ =>
    delivers_pure (Node.isPlaced_of_child htoken rfl hexpr)

theorem places_elseRule (inLoop : Bool) : Places M (Node.IsPlaced M) (elseRule deeper inLoop) := by
  refine (delivers_sees _).bind fun isElif _ => ?_
  split
  · exact h.conditional inLoop
  refine (delivers_accept suits_placed _).bind fun isElse _ => ?_
  split
  · refine (delivers_sees _).bind fun isIf _ => ?_
    split
    · exact h.conditional inLoop
    · exact h.block inLoop
  · exact delivers_pure (Node.isPlaced_raw _)

theorem places_conditionalRule (inLoop : Bool) :
    Places M (Node.IsPlaced M) (conditionalRule deeper inLoop) := by
  refine (delivers_advance suits_placed).bind fun token htoken => ?_
  refine h.expression.bind fun cond hcond => (h.block inLoop).bind fun thenPart hthen => ?_
  refine (places_elseRule h inLoop).bind fun elsePart helse => ?_
  refine delivers_pure (Node.isPlaced_of_children htoken ?_)
  exact List.forall_mem_cons.2 ⟨hcond, List.forall_mem_cons.2
    ⟨hthen, List.forall_mem_singleton.2 helse⟩⟩

theorem places_forRule : Places M (Node.IsPlaced M) (forRule deeper) := by
  refine (delivers_consume suits_placed _).bind fun token htoken => ?_
  refine (delivers_consumeIdent suits_placed _).bind fun name _ => ?_
  refine (delivers_consume suits_placed _).bind fun _ _ => ?_
  refine h.expression.bind fun iterable hiterable => (h.block true).bind fun body hbody => ?_
  exact delivers_pure (Node.isPlaced_of_two htoken rfl hiterable hbody)

theorem places_whileRule : Places M (Node.IsPlaced M) (whileRule deeper) := by
  refine (delivers_consume suits_placed _).bind fun token htoken => ?_
  refine h.expression.bind fun cond hcond => (h.block true).bind fun body hbody => ?_
  exact delivers_pure (Node.isPlaced_of_two htoken rfl hcond hbody)

omit h in
theorem places_loopControlRule (inLoop : Bool) :
    Places M (Node.IsPlaced M) (loopControlRule inLoop) := by
  refine (delivers_advance suits_placed).bind fun token htoken => ?_
  split
  · refine (delivers_accept suits_placed _).bind fun _ _ => delivers_pure ?_
    split <;> exact Node.isPlaced_of_leaf htoken rfl
  · exact places_failAt htoken nofun

theorem places_returnRule : Places M (Node.IsPlaced M) (returnRule deeper) := by
  refine (delivers_consume suits_placed _).bind fun token htoken => ?_
  refine (places_expressionUnless h _).bind fun value hvalue => ?_
  exact (delivers_accept suits_placed _).bind fun _ _ =>
    delivers_pure (Node.isPlaced_of_child htoken rfl hvalue)

theorem places_expressionStatementRule :
    Places M (Node.IsPlaced M) (expressionStatementRule deeper) := by
  refine delivers_peek.bind fun token htoken => h.expression.bind fun expr hexpr => ?_
  refine (delivers_accept suits_placed _).bind fun _ _ => ?_
  split
  · exact delivers_pure hexpr
  · exact delivers_pure (Node.isPlaced_of_child htoken rfl hexpr)

theorem places_blockRule (inLoop : Bool) :
    Places M (Node.IsPlaced M) (blockRule deeper inLoop) := by
  refine (delivers_consume suits_placed _).bind fun brace hbrace => delivers_get.bind fun c _ => ?_
  refine (delivers_statements suits_placed (h.statement inLoop) _ _ (List.forall_mem_nil _)).bind
    fun inside hinside => (delivers_consume suits_placed _).bind fun _ _ => ?_
  exact delivers_pure (Node.isPlaced_of_children hbrace hinside)

theorem places_statementRule (inLoop : Bool) :
    Places M (Node.IsPlaced M) (statementRule deeper inLoop) := by
  refine delivers_peek.bind fun token htoken => ?_
  dsimp only
  split
  · exact places_letRule h
  split
  · exact h.conditional inLoop
  split
  · exact places_forRule h
  split
  · exact places_whileRule h
  split
  · exact places_loopControlRule inLoop
  split
  · exact places_returnRule h
  split
  · exact places_failAt htoken nofun
  refine (delivers_sees _).bind fun isBlock _ => ?_
  split
  · exact h.block inLoop
  split
  · exact places_printRule h
  · exact places_expressionStatementRule h

end Rules

theorem isPlacing_ofDepth (n : Nat) : (ofDepth n).IsPlacing M := by
  induction n with
  | zero =>
    exact ⟨places_fault _, fun _ => places_fault _, places_fault _, fun _ => places_fault _,
      fun _ => places_fault _, fun _ => places_fault _⟩
  | succ n ih =>
    exact ⟨places_expressionRule ih, places_operatorsRule ih,
      delivers_ascriptionRule suits_placed ih.ascription, places_blockRule ih,
      places_statementRule ih, places_conditionalRule ih⟩

/-! ## Programs -/

section Programs

variable {deeper : Grammar} (h : deeper.IsPlacing M)
include h

theorem places_functionRule : Places M (Node.IsPlaced M) (functionRule deeper) := by
  have hparameter : Places M (fun _ => True) (parameterRule deeper) :=
    (delivers_consumeIdent suits_placed _).bind fun name _ =>
      (delivers_optionalAscription suits_placed h.ascription _).bind fun _ _ =>
        delivers_pure trivial
  refine (delivers_consume suits_placed _).bind fun token htoken => ?_
  refine (delivers_consumeIdent suits_placed _).bind fun name _ => ?_
  refine (delivers_consume suits_placed _).bind fun _ _ => delivers_get.bind fun c _ => ?_
  refine (delivers_commaList suits_placed _ hparameter _ (List.forall_mem_nil _)).bind
    fun params _ => (delivers_consume suits_placed _).bind fun _ _ => ?_
  refine (delivers_optionalAscription suits_placed h.ascription _).bind fun _ _ => ?_
  exact (h.block false).bind fun body hbody =>
    delivers_pure (Node.isPlaced_of_child htoken rfl hbody)

theorem places_declarations (budget : Nat) {functions globals : List Node}
    (hfunctions : ∀ fn ∈ functions, fn.IsPlaced M) (hglobals : ∀ n ∈ globals, n.IsPlaced M) :
    Places M (fun found => (∀ fn ∈ found.1, fn.IsPlaced M) ∧ ∀ n ∈ found.2, n.IsPlaced M)
      (declarations deeper budget functions globals) := by
  have hreverse : (∀ fn ∈ functions.reverse, fn.IsPlaced M) ∧
      ∀ n ∈ globals.reverse, n.IsPlaced M :=
    ⟨fun fn hfn => hfunctions fn (List.mem_reverse.1 hfn),
      fun n hn => hglobals n (List.mem_reverse.1 hn)⟩
  induction budget generalizing functions globals with
  | zero => exact delivers_pure hreverse
  | succ k ih =>
    refine delivers_peek.bind fun token htoken => ?_
    split
    · exact delivers_pure hreverse
    refine (delivers_accept suits_placed _).bind fun isEmpty _ => ?_
    split
    · exact ih hfunctions hglobals hreverse
    refine (delivers_sees _).bind fun isFunction _ => ?_
    split
    · refine (places_functionRule h).bind fun fn hfn => ?_
      have hall := List.forall_mem_cons.2 ⟨hfn, hfunctions⟩
      exact ih hall hglobals ⟨fun f hf => hall f (List.mem_reverse.1 hf), hreverse.2⟩
    refine (delivers_sees _).bind fun isGlobal _ => ?_
    split
    · refine (places_letRule h).bind fun decl hdecl => ?_
      have hall := List.forall_mem_cons.2 ⟨hdecl, hglobals⟩
      exact ih hfunctions hall ⟨hreverse.1, fun n hn => hall n (List.mem_reverse.1 hn)⟩
    split <;> exact places_failAt htoken nofun

theorem places_programRule :
    Places M (fun program => ∀ n ∈ program.children, n.IsPlaced M) (programRule deeper) := by
  refine delivers_get.bind fun c _ => ?_
  refine (places_declarations h _ (List.forall_mem_nil _) (List.forall_mem_nil _)).bind
    fun found hfound => delivers_peek.bind fun last _ => ?_
  split
  · exact delivers_pure (List.forall_mem_append.2 hfound)
  · refine delivers_throw ?_
    rintro e ⟨⟩
    exact ⟨rfl, nofun⟩

end Programs

end Grammar

end Syntax

end Orus
