import Orus.Proofs.Rendering.Expressions

/-! # Reading rendered programs back

Statements, functions and whole programs are read back from their renderings. A statement
may be followed by anything but an `else` or `elif`, which an `if` would take as its own.
-/

namespace Orus.Syntax

open Cursor Grammar

variable {β : Type} {numeral : Float → String} {ps rest : List Piece} {node : Node}
  {inLoop : Bool}

theorem parses_block (h : Parses (fun g => blockRule g inLoop) ps node rest) :
    Parses (fun g => g.block inLoop) ps node rest :=
  parses_above (fun _ => rfl) (fun _ => rfl) h

theorem parses_statement (h : Parses (fun g => statementRule g inLoop) ps node rest) :
    Parses (fun g => g.statement inLoop) ps node rest :=
  parses_above (fun _ => rfl) (fun _ => rfl) h

theorem parses_conditional (h : Parses (fun g => conditionalRule g inLoop) ps node rest) :
    Parses (fun g => g.conditional inLoop) ps node rest :=
  parses_above (fun _ => rfl) (fun _ => rfl) h

/-! ## Simple statements -/

theorem parses_noAscription {mark : String} {b : β} {k : Grammar → Unit → Parse β}
    (hsees : (on ps).sees [mark] = false) (h : Parses (fun g => k g ()) ps b rest) :
    Parses (fun g => optionalAscription g mark >>= k g) ps b rest := by
  have hstep : Parses (fun g => optionalAscription g mark) ps () ps :=
    parses_refuse hsees (parses_pure () ps)
  exact hstep.bind h

theorem parses_initializer (h : Parses (fun g => g.expression) ps node rest) :
    Parses (fun g => initializer g (Piece.keyword "let").token) (.op "=" :: ps) node rest := by
  apply parses_sees
  exact parses_consume rfl h

theorem parses_letRule {name : String} (hname : IsWord name) (isMutable : Bool)
    {init : Node} (hinit : ReadsBack numeral init) (m : Option Mark) (rest : List Piece) :
    Parses (fun g => letRule g)
      (renderStatement numeral (.letDecl (.str name) init isMutable m) ++ rest)
      ((Node.letDecl (.str name) init isMutable m).marked Piece.place) rest := by
  have hvalue : Parses (fun g => g.expression) (renderExpression numeral init ++ .punct ";" :: rest)
      (init.marked Piece.place) (.punct ";" :: rest) := hinit.expression rfl
  have htail : Parses
      (fun g => consumeIdent "a variable name" >>= fun token =>
        optionalAscription g ":" >>= fun _ =>
        initializer g (Piece.keyword "let").token >>= fun value =>
        accept ";" >>= fun _ => pure (.letDecl token.name value isMutable Piece.place))
      (.word name :: .op "=" :: (renderExpression numeral init ++ .punct ";" :: rest))
      ((Node.letDecl (.str name) init isMutable m).marked Piece.place) rest := by
    apply parses_consumeIdent
    apply parses_noAscription rfl
    apply (parses_initializer hvalue).bind
    exact parses_accept rfl (parses_pure _ rest)
  cases isMutable with
  | false =>
    have hlist : renderStatement numeral (.letDecl (.str name) init false m) ++ rest =
        .keyword "let" :: .word name :: .op "=" ::
          (renderExpression numeral init ++ .punct ";" :: rest) := by
      simp [renderStatement, wordOf]
    rw [hlist]
    apply parses_advance
    exact parses_refuse (sees_word hname (by decide) _) htail
  | true =>
    have hlist : renderStatement numeral (.letDecl (.str name) init true m) ++ rest =
        .keyword "let" :: .keyword "mut" :: .word name :: .op "=" ::
          (renderExpression numeral init ++ .punct ";" :: rest) := by
      simp [renderStatement, wordOf]
    rw [hlist]
    apply parses_advance
    exact parses_accept rfl htail

theorem parses_nothing {texts : List String} (hsees : (on ps).sees texts = true) :
    Parses (fun g => expressionUnless g texts) ps .absent ps :=
  parses_seen hsees (parses_pure _ ps)

theorem parses_something {texts : List String} {n : Node} (h : ReadsBack numeral n)
    (htexts : "(" ∉ texts) (hrest : Stops rest) :
    Parses (fun g => expressionUnless g texts) (renderExpression numeral n ++ rest)
      (n.marked Piece.place) rest := by
  apply parses_unseen
  · simpa [renderExpression, paren, sees_on, Piece.isOneOf, Piece.kind, Piece.text] using htexts
  · exact h.expression hrest

theorem parses_printRule (h : Parses (fun g => expressionUnless g [")"]) ps node
    (.punct ")" :: .punct ";" :: rest)) :
    Parses (fun g => printRule g) (.word "print" :: .punct "(" :: ps)
      (.printLine node Piece.place) rest := by
  apply parses_advance
  apply parses_consume rfl
  apply h.bind
  apply parses_consume rfl
  exact parses_accept rfl (parses_pure _ rest)

theorem parses_returnRule (h : Parses (fun g => expressionUnless g [";", "\x7d"]) ps node
    (.punct ";" :: rest)) :
    Parses (fun g => returnRule g) (.keyword "return" :: ps) (.returnWith node Piece.place)
      rest := by
  apply parses_consume rfl
  apply h.bind
  exact parses_accept rfl (parses_pure _ rest)

theorem renderOptional_of_wellFormed {n : Node} (h : WellFormedExpression n) :
    renderOptional numeral n = renderExpression numeral n := by
  cases h <;> rfl

theorem marked_ne_assignment (m : Option Mark) {n : Node}
    (h : ∀ name expr mark, n ≠ .assignment name expr mark) (name : Name) (expr : Node)
    (mark : Option Mark) : n.marked m ≠ .assignment name expr mark := by
  cases n with
  | assignment name' expr' mark' => exact absurd rfl (h name' expr' mark')
  | _ => simp [Node.marked]

theorem parses_expressionStatement {n : Node} (h : ReadsBack numeral n)
    (hne : ∀ name expr mark, n ≠ .assignment name expr mark) (rest : List Piece) :
    Parses (fun g => expressionStatementRule g) (renderExpression numeral n ++ .punct ";" :: rest)
      (.expression (n.marked Piece.place) Piece.place) rest := by
  have hstops : Stops (.punct ";" :: rest) := rfl
  apply parses_peek
  apply (h.expression hstops).bind
  apply parses_accept rfl
  have hne' := marked_ne_assignment Piece.place hne
  split
  next name expr mark heq => exact absurd heq (hne' name expr mark)
  · exact parses_pure _ rest

theorem parses_assignmentStatement {name : Name} {expr : Node} {mark : Option Mark}
    (h : ReadsBack numeral (.assignment name expr mark)) (rest : List Piece) :
    Parses (fun g => expressionStatementRule g)
      (renderExpression numeral (.assignment name expr mark) ++ .punct ";" :: rest)
      ((Node.assignment name expr mark).marked Piece.place) rest := by
  have hstops : Stops (.punct ";" :: rest) := rfl
  apply parses_peek
  apply (h.expression hstops).bind
  exact parses_accept rfl (parses_pure _ rest)

/-! ## Statements -/

/-- The rendered statement is read back before anything but an `else` or `elif`. -/
structure StatementReadsBack (numeral : Float → String) (inLoop : Bool) (n : Node) : Prop where
  opens : ∃ p ps, renderStatement numeral n = p :: ps ∧
    p.isOneOf ["\x7d", ";", "elif", "else"] = false
  statement : ∀ rest, (on rest).sees ["elif", "else"] = false →
    Parses (fun g => g.statement inLoop) (renderStatement numeral n ++ rest)
      (n.marked Piece.place) rest
  conditional : ∀ cond thenPart elsePart mark, n = .ifElse cond thenPart elsePart mark →
    ∀ rest, (on rest).sees ["elif", "else"] = false →
      Parses (fun g => g.conditional inLoop) (renderStatement numeral n ++ rest)
        (n.marked Piece.place) rest

theorem StatementReadsBack.unseen {n : Node} (h : StatementReadsBack numeral inLoop n)
    {texts : List String} (hsub : texts ⊆ ["\x7d", ";", "elif", "else"]) (rest : List Piece) :
    (on (renderStatement numeral n ++ rest)).sees texts = false := by
  obtain ⟨p, ps, hp, hunseen⟩ := h.opens
  rw [← sees_on p (ps ++ rest)] at hunseen
  rw [hp, List.cons_append]
  exact sees_eq_false_of_subset hunseen hsub

theorem stops_block (ns : List Node) (m : Option Mark) (rest : List Piece) :
    Stops (renderStatement numeral (.block ns m) ++ rest) := rfl

theorem renderStatements_eq_flatMap (ns : List Node) :
    renderStatements numeral ns = ns.flatMap (renderStatement numeral) := by
  induction ns with
  | nil => rfl
  | cons n ns ih => rw [renderStatements, ih, List.flatMap_cons]

section

variable {ns : List Node} (h : ∀ n ∈ ns, StatementReadsBack numeral inLoop n)

include h

theorem unseen_renderStatements (rest : List Piece) :
    (on (renderStatements numeral ns ++ .punct "\x7d" :: rest)).sees ["elif", "else"] = false := by
  cases ns with
  | nil => rfl
  | cons n ns =>
    rw [renderStatements, List.append_assoc]
    exact (h n List.mem_cons_self).unseen (by simp) _

theorem length_le_renderStatements : ns.length ≤ (renderStatements numeral ns).length := by
  rw [renderStatements_eq_flatMap]
  apply length_le_flatMap
  intro n hn
  obtain ⟨p, ps, hp, -⟩ := (h n hn).opens
  simp [hp]

theorem parses_statements (rest : List Piece) (opened : Position) (budget : Nat)
    (hbudget : ns.length ≤ budget) (done : List Node) :
    Parses (fun g => statements (g.statement inLoop) opened budget done)
      (renderStatements numeral ns ++ .punct "\x7d" :: rest)
      (done.reverse ++ Node.markedAll Piece.place ns) (.punct "\x7d" :: rest) := by
  induction ns generalizing budget done with
  | nil =>
    rw [Node.markedAll, List.append_nil]
    cases budget with
    | zero => exact parses_pure _ _
    | succ budget => exact parses_seen rfl (parses_pure _ _)
  | cons n ns ih =>
    obtain ⟨budget, rfl⟩ : ∃ k, budget = k + 1 := ⟨budget - 1, by simp at hbudget; omega⟩
    have hn := h n List.mem_cons_self
    have hns : ∀ x ∈ ns, StatementReadsBack numeral inLoop x :=
      fun x hx => h x (List.mem_cons_of_mem n hx)
    have hstatement := hn.statement _ (unseen_renderStatements hns rest)
    have hmore := ih hns budget (by simpa using hbudget) (n.marked Piece.place :: done)
    rw [List.reverse_cons, List.append_assoc, List.singleton_append] at hmore
    rw [renderStatements, List.append_assoc]
    -- a statement starts with no brace, no semicolon and not with the end of input
    apply parses_unseen (hn.unseen (by simp) _)
    have hsemicolon (qs : List Piece) :
        (on (renderStatement numeral n ++ qs)).sees [";"] = false := hn.unseen (by simp) qs
    obtain ⟨p, ps, hp, -⟩ := hn.opens
    have hkind : p.token.kind ≠ .eof := by cases p <;> exact nofun
    rw [hp] at hstatement hsemicolon ⊢
    apply parses_peek
    simp only [hkind, if_false]
    apply parses_refuse (hsemicolon _)
    exact hstatement.bind hmore

theorem parses_braces (m : Option Mark) (rest : List Piece) :
    Parses (fun g => g.block inLoop) (renderStatement numeral (.block ns m) ++ rest)
      ((Node.block ns m).marked Piece.place) rest := by
  have hlist : renderStatement numeral (.block ns m) ++ rest =
      .punct "\x7b" :: (renderStatements numeral ns ++ .punct "\x7d" :: rest) := by
    simp [renderStatement]
  have hlength := length_le_renderStatements h
  rw [hlist]
  apply parses_block
  apply parses_consume rfl
  apply parses_get
  apply (parses_statements h rest _ _ (by rw [budget_on, List.length_append]; omega) []).bind
  apply parses_consume rfl
  exact parses_pure _ rest

theorem parses_ifElse {cond elsePart : Node} (hcond : ReadsBack numeral cond)
    (thenMark mark : Option Mark)
    (helse : Parses (fun g => elseRule g inLoop)
      ((if isLeftOut elsePart then [] else .keyword "else" :: renderStatement numeral elsePart) ++
        rest) (elsePart.marked Piece.place) rest) :
    Parses (fun g => g.conditional inLoop)
      (renderStatement numeral (.ifElse cond (.block ns thenMark) elsePart mark) ++ rest)
      ((Node.ifElse cond (.block ns thenMark) elsePart mark).marked Piece.place) rest := by
  rw [renderStatement, List.cons_append, List.append_assoc, List.append_assoc]
  apply parses_conditional
  apply parses_advance
  apply (hcond.expression (stops_block ..)).bind
  apply (parses_braces h thenMark _).bind
  apply helse.bind
  exact parses_pure _ rest

end

theorem parses_noElse (hrest : (on rest).sees ["elif", "else"] = false) :
    Parses (fun g => elseRule g inLoop) rest .absent rest := by
  apply parses_unseen (sees_eq_false_of_subset hrest (by simp))
  apply parses_refuse (sees_eq_false_of_subset hrest (by simp))
  exact parses_pure _ rest

theorem parses_elseBlock {ns : List Node} (h : ∀ n ∈ ns, StatementReadsBack numeral inLoop n)
    (m : Option Mark) (rest : List Piece) :
    Parses (fun g => elseRule g inLoop)
      (.keyword "else" :: (renderStatement numeral (.block ns m) ++ rest))
      ((Node.block ns m).marked Piece.place) rest := by
  apply parses_unseen rfl
  apply parses_accept rfl
  apply parses_unseen rfl
  exact parses_braces h m rest

theorem parses_elseIf (h : Parses (fun g => g.conditional inLoop) (.keyword "if" :: ps) node rest) :
    Parses (fun g => elseRule g inLoop) (.keyword "else" :: .keyword "if" :: ps) node rest := by
  apply parses_unseen rfl
  apply parses_accept rfl
  exact parses_seen rfl h

theorem parses_forRule (name : String) {iterable : Node} {ns : List Node}
    (hiterable : ReadsBack numeral iterable) (h : ∀ n ∈ ns, StatementReadsBack numeral true n)
    (bodyMark mark : Option Mark) (rest : List Piece) :
    Parses (fun g => forRule g)
      (renderStatement numeral (.forIn (.str name) iterable (.block ns bodyMark) mark) ++ rest)
      ((Node.forIn (.str name) iterable (.block ns bodyMark) mark).marked Piece.place) rest := by
  rw [renderStatement, List.cons_append, List.cons_append, List.cons_append, List.append_assoc]
  apply parses_consume rfl
  apply parses_consumeIdent
  apply parses_consume rfl
  apply (hiterable.expression (stops_block ..)).bind
  apply (parses_braces h bodyMark rest).bind
  exact parses_pure _ rest

theorem parses_whileRule {cond : Node} {ns : List Node} (hcond : ReadsBack numeral cond)
    (h : ∀ n ∈ ns, StatementReadsBack numeral true n) (bodyMark mark : Option Mark)
    (rest : List Piece) :
    Parses (fun g => whileRule g)
      (renderStatement numeral (.whileLoop cond (.block ns bodyMark) mark) ++ rest)
      ((Node.whileLoop cond (.block ns bodyMark) mark).marked Piece.place) rest := by
  rw [renderStatement, List.cons_append, List.append_assoc]
  apply parses_consume rfl
  apply (hcond.expression (stops_block ..)).bind
  apply (parses_braces h bodyMark rest).bind
  exact parses_pure _ rest

theorem StatementReadsBack.of_rule {n : Node} {p : Piece}
    (hp : renderStatement numeral n = p :: ps)
    (hunseen : p.isOneOf ["\x7d", ";", "elif", "else"] = false)
    (hne : ∀ cond thenPart elsePart mark, n ≠ .ifElse cond thenPart elsePart mark)
    (h : ∀ rest, Parses (fun g => statementRule g inLoop) (renderStatement numeral n ++ rest)
      (n.marked Piece.place) rest) : StatementReadsBack numeral inLoop n where
  opens := ⟨p, ps, hp, hunseen⟩
  statement rest _ := parses_statement (h rest)
  conditional cond thenPart elsePart mark heq := absurd heq (hne cond thenPart elsePart mark)

theorem StatementReadsBack.of_conditional {cond thenPart elsePart : Node} {mark : Option Mark}
    (h : ∀ rest, (on rest).sees ["elif", "else"] = false →
      Parses (fun g => g.conditional inLoop)
        (renderStatement numeral (.ifElse cond thenPart elsePart mark) ++ rest)
        ((Node.ifElse cond thenPart elsePart mark).marked Piece.place) rest) :
    StatementReadsBack numeral inLoop (.ifElse cond thenPart elsePart mark) where
  opens := ⟨_, _, rfl, rfl⟩
  statement rest hrest := parses_statement (parses_peek (h rest hrest))
  conditional _ _ _ _ _ := h

theorem statementReadsBack_of_wellFormed (hnumeral : WritesNumerals numeral) {n : Node}
    (h : WellFormedStatement inLoop n) : StatementReadsBack numeral inLoop n := by
  have hreads {e : Node} (he : WellFormedExpression e) : ReadsBack numeral e :=
    readsBack_of_wellFormed hnumeral he
  induction h with
  | letDecl hname hinit =>
    refine .of_rule rfl rfl (by simp) fun rest => ?_
    exact parses_peek (parses_letRule hname _ (hreads hinit) _ rest)
  | assignment hexpr =>
    refine .of_rule rfl rfl (by simp) fun rest => ?_
    rw [renderStatement, List.append_assoc]
    apply parses_peek
    apply parses_unseen rfl
    exact parses_assignmentStatement (hreads hexpr) rest
  | expression hexpr hne =>
    refine .of_rule rfl rfl (by simp) fun rest => ?_
    rw [renderStatement, List.append_assoc]
    apply parses_peek
    apply parses_unseen rfl
    exact parses_expressionStatement (hreads hexpr) hne rest
  | printEmpty =>
    refine .of_rule rfl rfl (by simp) fun rest => ?_
    apply parses_peek
    apply parses_unseen rfl
    exact parses_printRule (parses_nothing rfl)
  | @printLine _ expr mark hexpr =>
    refine .of_rule rfl rfl (by simp) fun rest => ?_
    have hlist : renderStatement numeral (.printLine expr mark) ++ rest =
        .word "print" :: .punct "(" ::
          (renderExpression numeral expr ++ .punct ")" :: .punct ";" :: rest) := by
      simp [renderStatement, renderOptional_of_wellFormed hexpr, paren]
    rw [hlist]
    apply parses_peek
    apply parses_unseen rfl
    apply parses_printRule
    exact parses_something (hreads hexpr) (by decide) rfl
  | block _ ih =>
    refine .of_rule rfl rfl (by simp) fun rest => ?_
    exact parses_peek (parses_seen rfl (parses_braces ih _ rest))
  | ifOnly hcond _ ih =>
    refine .of_conditional fun rest hrest => ?_
    exact parses_ifElse ih (hreads hcond) _ _ (parses_noElse hrest)
  | ifElse hcond _ _ ih ihelse =>
    refine .of_conditional fun rest _ => ?_
    exact parses_ifElse ih (hreads hcond) _ _ (parses_elseBlock ihelse _ rest)
  | ifChain hcond _ _ ih ihchain =>
    refine .of_conditional fun rest hrest => ?_
    -- after `else` the rule for conditions is called directly, not through that for statements
    have hchain := ihchain.conditional _ _ _ _ rfl rest hrest
    exact parses_ifElse ih (hreads hcond) _ _ (parses_elseIf hchain)
  | forIn hname hiterable _ ih =>
    refine .of_rule rfl rfl (by simp) fun rest => ?_
    exact parses_peek (parses_forRule _ (hreads hiterable) ih _ _ rest)
  | whileLoop hcond _ ih =>
    refine .of_rule rfl rfl (by simp) fun rest => ?_
    exact parses_peek (parses_whileRule (hreads hcond) ih _ _ rest)
  | breakLoop | continueLoop =>
    refine .of_rule rfl rfl (by simp) fun rest => ?_
    apply parses_peek
    apply parses_advance
    exact parses_accept rfl (parses_pure _ rest)
  | returnOnly =>
    refine .of_rule rfl rfl (by simp) fun rest => ?_
    exact parses_peek (parses_returnRule (parses_nothing rfl))
  | returnWith hvalue =>
    refine .of_rule rfl rfl (by simp) fun rest => ?_
    rw [renderStatement, renderOptional_of_wellFormed hvalue, List.cons_append, List.append_assoc]
    apply parses_peek
    apply parses_returnRule
    exact parses_something (hreads hvalue) (by decide) rfl

/-! ## Programs -/

theorem isItem_parameter {param : String} (h : IsWord param) :
    IsItem (fun g => parameterRule g) ")" [.word param] (.str param) := by
  constructor
  · intro rest
    exact sees_word h (by decide) rest
  · intro rest hrest
    apply parses_consumeIdent
    apply parses_noAscription (sees_eq_false_of_disjoint hrest (by decide))
    exact parses_pure _ rest

theorem forall₂_parameters {params : List String} (h : ∀ param ∈ params, IsWord param) :
    List.Forall₂ (IsItem (fun g => parameterRule g) ")")
      ((params.map Json.str).map fun param => [.word (wordOf param)]) (params.map Json.str) := by
  induction params with
  | nil => exact .nil
  | cons param params ih =>
    have hparam := isItem_parameter (h param List.mem_cons_self)
    exact .cons hparam (ih fun x hx => h x (List.mem_cons_of_mem param hx))

theorem parses_functionRule (hnumeral : WritesNumerals numeral) {n : Node}
    (h : WellFormedFunction n) (rest : List Piece) :
    Parses (fun g => functionRule g) (renderFunction numeral n ++ rest)
      (n.marked Piece.place) rest := by
  obtain @⟨name, params, ns, bodyMark, mark, hname, hparams, hns⟩ := h
  have hbody : ∀ n ∈ ns, StatementReadsBack numeral false n :=
    fun n hn => statementReadsBack_of_wellFormed hnumeral (hns n hn)
  have hitems := parses_items (forall₂_parameters hparams) (by decide)
    (renderStatement numeral (.block ns bodyMark) ++ rest)
  rw [renderFunction, List.cons_append, List.cons_append, List.append_assoc, paren_append]
  apply parses_consume rfl
  apply parses_consumeIdent
  apply parses_consume rfl
  apply parses_get
  apply hitems.bind
  apply parses_consume rfl
  apply parses_noAscription rfl
  apply (parses_braces hbody bodyMark rest).bind
  exact parses_pure _ rest

theorem parses_globals (hnumeral : WritesNumerals numeral) {ns : List Node}
    (h : ∀ n ∈ ns, WellFormedGlobal n) (functions globals : List Node) (budget : Nat)
    (hbudget : ns.length ≤ budget) :
    Parses (fun g => declarations g budget functions globals)
      (ns.flatMap (renderStatement numeral))
      (functions.reverse, globals.reverse ++ Node.markedAll Piece.place ns) [] := by
  induction ns generalizing budget globals with
  | nil =>
    rw [Node.markedAll, List.append_nil]
    cases budget with
    | zero => exact parses_pure _ _
    | succ budget => exact parses_pure _ []
  | cons n ns ih =>
    obtain ⟨budget, rfl⟩ : ∃ k, budget = k + 1 := ⟨budget - 1, by simp at hbudget; omega⟩
    have hmore := ih (fun x hx => h x (List.mem_cons_of_mem n hx)) (n.marked Piece.place :: globals)
      budget (by simpa using hbudget)
    rw [List.reverse_cons, List.append_assoc, List.singleton_append] at hmore
    obtain @⟨name, init, isMutable, mark, hname, hinit⟩ := h n List.mem_cons_self
    rw [List.flatMap_cons]
    apply parses_peek
    apply parses_refuse rfl
    apply parses_unseen rfl
    apply parses_seen rfl
    have hinit' := readsBack_of_wellFormed hnumeral hinit
    exact (parses_letRule hname isMutable hinit' mark _).bind hmore

theorem parses_declarations (hnumeral : WritesNumerals numeral) {fs gs : List Node}
    (hfs : ∀ n ∈ fs, WellFormedFunction n) (hgs : ∀ n ∈ gs, WellFormedGlobal n)
    (functions : List Node) (budget : Nat) (hbudget : fs.length + gs.length ≤ budget) :
    Parses (fun g => declarations g budget functions [])
      (fs.flatMap (renderFunction numeral) ++ gs.flatMap (renderStatement numeral))
      (functions.reverse ++ Node.markedAll Piece.place fs, Node.markedAll Piece.place gs) [] := by
  induction fs generalizing budget functions with
  | nil =>
    rw [Node.markedAll, List.append_nil]
    exact parses_globals hnumeral hgs functions [] budget (by simpa using hbudget)
  | cons n fs ih =>
    obtain ⟨budget, rfl⟩ : ∃ k, budget = k + 1 := ⟨budget - 1, by simp at hbudget; omega⟩
    have hmore := ih (fun x hx => hfs x (List.mem_cons_of_mem n hx))
      (n.marked Piece.place :: functions) budget (by simp at hbudget; omega)
    rw [List.reverse_cons, List.append_assoc, List.singleton_append] at hmore
    have hfunction := parses_functionRule hnumeral (hfs n List.mem_cons_self)
      (fs.flatMap (renderFunction numeral) ++ gs.flatMap (renderStatement numeral))
    obtain @⟨name, params, ns, bodyMark, mark, hname, hparams, hns⟩ := hfs n List.mem_cons_self
    rw [List.flatMap_cons, List.append_assoc]
    apply parses_peek
    apply parses_refuse rfl
    apply parses_seen rfl
    exact hfunction.bind hmore

theorem any_isMain_markedAll (m : Option Mark) (ns : List Node) :
    (Node.markedAll m ns).any isMain = ns.any isMain := by
  induction ns with
  | nil => rfl
  | cons n ns ih =>
    have hn : isMain (n.marked m) = isMain n := by cases n <;> rfl
    rw [Node.markedAll, List.any_cons, List.any_cons, hn, ih]

/-- Every program of the language is read back from its rendering. -/
theorem parses_programRule (hnumeral : WritesNumerals numeral) {p : Node}
    (h : WellFormedProgram p) :
    Parses (fun g => programRule g) (renderProgram numeral p) (p.marked Piece.place) [] := by
  obtain @⟨fs, gs, length, mark, hfs, hgs, hmain⟩ := h
  have hlength : fs.length + gs.length ≤
      (on (renderProgram numeral (.program fs gs length mark))).budget := by
    have hfs' : fs.length ≤ (fs.flatMap (renderFunction numeral)).length := by
      apply length_le_flatMap
      intro n hn
      obtain ⟨⟩ := hfs n hn
      simp [renderFunction]
    have hgs' : gs.length ≤ (gs.flatMap (renderStatement numeral)).length := by
      apply length_le_flatMap
      intro n hn
      obtain ⟨⟩ := hgs n hn
      simp [renderStatement]
    rw [budget_on, renderProgram, List.length_append]
    omega
  have hdeclarations := parses_declarations hnumeral hfs hgs [] _ hlength
  have hmain' : (Node.markedAll Piece.place fs).any isMain = true := by
    rw [any_isMain_markedAll, hmain]
  apply parses_get
  apply hdeclarations.bind
  apply parses_of_eq
  intro _
  change (if (Node.markedAll Piece.place fs).any isMain = true then (_ : Parse Node) else _) _ = _
  rw [if_pos hmain']
  rfl

theorem start_render (p : Node) :
    Cursor.start (render numeral p) = .ok (on (renderProgram numeral p)) := by
  unfold render
  cases renderProgram numeral p with
  | nil => rfl
  | cons q qs => cases q <;> rfl

theorem exists_writesNumerals : ∃ numeral, WritesNumerals numeral := by
  have hsome (x : Float) : ∃ text, (∃ text', IsNumeralOf x text') → IsNumeralOf x text := by
    by_cases h : ∃ text, IsNumeralOf x text
    · obtain ⟨text, htext⟩ := h
      exact ⟨text, fun _ => htext⟩
    · exact ⟨"", fun h' => absurd h' h⟩
  exact Classical.skolem.1 hsome

/-- Every well-formed program has canonical renderings, one for every choice of numerals. From
some depth on the parser gives the program back, up to places and the length of its source
text, and with less depth it gives up for want of depth. -/
theorem parseTokens_render {p : Node} (h : WellFormedProgram p) :
    (∃ numeral, WritesNumerals numeral) ∧
    ∀ numeral, WritesNumerals numeral → ∃ q, q.unplaced = p.unplaced ∧
      ∃ least, ∀ depth, parseTokens depth (render numeral p) =
        if least ≤ depth then .ok q else .error (.fault .tooDeep) := by
  constructor
  · exact exists_writesNumerals
  · intro numeral hnumeral
    obtain ⟨least, hparses⟩ := parses_programRule hnumeral h
    refine ⟨p.marked Piece.place, Node.marked_marked _ _ _, least, fun depth => ?_⟩
    beta_reduce at hparses
    unfold parseTokens
    rw [start_render]
    change Except.bind (programRule (.ofDepth depth) (on (renderProgram numeral p))) _ = _
    rw [hparses depth]
    split <;> rfl

/-- `while (-(n)) { break; }` -/
def brokenLoop : Node :=
  .whileLoop (.unary (.str "-") (.identifier (.str "n") none) none)
    (.block [.breakLoop none] none) none

/-- `print("n is {n}");` -/
def notedLine : Node :=
  .printLine (.string [.raw (.str "n is "), .identifier (.str "n") none] none) none

/-- A `main` with a loop and a line, and `let mut n = 2;`. -/
def loopingProgram : Node :=
  .program [.fnDecl (.str "main") [] (.block [brokenLoop, notedLine] none) none]
    [.letDecl (.str "n") (.number ((Number.readNumber? "2").getD 0) none) true none] 0 none

theorem isNumeralOf_two : IsNumeralOf ((Number.readNumber? "2").getD 0) "2" := by
  constructor
  · exact ⟨"2", ⟨.number, "2", .start, none⟩, by decide +kernel, rfl, rfl⟩
  · have hsome : (Number.readNumber? "2").isSome = true := by decide +kernel
    obtain ⟨x, hx⟩ := Option.isSome_iff_exists.1 hsome
    rw [hx, Option.getD_some]

theorem wellFormed_loopingProgram : WellFormedProgram loopingProgram := by
  have hmain : IsWord "main" :=
    ⟨⟨'m', ['a', 'i', 'n'], rfl, by decide, List.all_eq_true.1 (by decide)⟩, by decide⟩
  have hn : IsWord "n" := ⟨⟨'n', [], rfl, by decide, by simp⟩, by decide⟩
  have hloop : WellFormedStatement false brokenLoop := by
    apply WellFormedStatement.whileLoop (.unary (by decide) (.identifier hn))
    simpa using WellFormedStatement.breakLoop
  have hline : WellFormedStatement false notedLine := by
    have hmarker : WellFormedMarker (.identifier (.str "n") none) :=
      .identifier ⟨'n', [], rfl, by decide, by simp⟩
    apply WellFormedStatement.printLine
    apply WellFormedExpression.string
    constructor <;> simp [isText, hmarker]
  apply WellFormedProgram.program
  · have hfunction := @WellFormedFunction.fnDecl "main" [] [brokenLoop, notedLine] none none hmain
      (by simp) (by simp [hloop, hline])
    simpa using hfunction
  · simpa using WellFormedGlobal.letDecl hn (.number ⟨"2", isNumeralOf_two⟩)
  · decide

theorem parseTokens_render_loopingProgram : WellFormedProgram loopingProgram ∧
    (∃ numeral, WritesNumerals numeral) ∧
    ∀ numeral, WritesNumerals numeral → ∃ q, q.unplaced = loopingProgram.unplaced ∧
      ∃ least, ∀ depth, parseTokens depth (render numeral loopingProgram) =
        if least ≤ depth then .ok q else .error (.fault .tooDeep) :=
  ⟨wellFormed_loopingProgram, parseTokens_render wellFormed_loopingProgram⟩

-- The nesting that the playground allows is deep enough for this program.
example : (parseTokens nestingLimit (render (fun _ => "2") loopingProgram)).isOk = true := by
  decide +kernel

end Orus.Syntax
