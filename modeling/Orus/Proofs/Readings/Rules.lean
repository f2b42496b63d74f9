import Orus.Proofs.Readings.Comparison

/-! # The rules of two readings

Every rule of the grammar follows the same rule of another grammar if the rules below do.
The declarations that start where the streams part are the only ones that have to be looked
at for each comparison on its own.
-/

namespace Orus.Syntax

variable {α α' : Type} {c c' : Cursor}

namespace Grammar

variable (deeper : Grammar)

/-- What follows the name of a variable and its type. -/
def declared (keyword : Token) (name : Name) (isMutable : Bool) : Parse Node := do
  let value ← initializer deeper keyword
  let _ ← accept ";"
  return .letDecl name value isMutable keyword.mark

/-- The parameters of a function after some that were read already. -/
def parameters (done : List Name) : Parse (List Name) := do
  commaList ")" (parameterRule deeper) (← get).budget done

/-- What follows the parameters of a function. -/
def signed (token : Token) (name : Name) (params : List Name) : Parse Node := do
  let _ ← consume ")"
  optionalAscription deeper "->"
  let body ← deeper.block false
  return .fnDecl name params body token.mark

theorem letRule_eq : letRule deeper = (do
    let keyword ← advance
    let isMutable ← mutability keyword
    let name ← consumeIdent "a variable name"
    optionalAscription deeper ":"
    declared deeper keyword name.name isMutable) := rfl

theorem functionRule_eq : functionRule deeper = (do
    let token ← consume "fn"
    let name ← consumeIdent "a function name"
    let _ ← consume "("
    let params ← parameters deeper []
    signed deeper token name.name params) := rfl

end Grammar

namespace Comparison

variable {X : Comparison}

structure Grammars (X : Comparison) (g g' : Grammar) : Prop where
  sound : g.IsSound
  sound' : g'.IsSound
  expression {c c' : Cursor} : X.cursors c c' →
    X.Follows X.nodes g.expression g'.expression c c'
  operators (ps : List (List String)) {c c' : Cursor} : (∀ op ∈ ps.flatten, op ∉ openings) →
    X.cursors c c' → X.Follows X.nodes (g.operators ps) (g'.operators ps) c c'
  ascription {c c' : Cursor} : X.cursors c c' → X.Follows Eq g.ascription g'.ascription c c'
  block (inLoop : Bool) {c c' : Cursor} : X.cursors c c' →
    X.Follows X.nodes (g.block inLoop) (g'.block inLoop) c c'
  statement (inLoop : Bool) {c c' : Cursor} : X.cursors c c' →
    X.Follows X.nodes (g.statement inLoop) (g'.statement inLoop) c c' ∨
      X.EndsLost (g.statement inLoop) c
  conditional (inLoop : Bool) {c c' : Cursor} : c.current.text ∉ openings → X.cursors c c' →
    X.Follows X.nodes (g.conditional inLoop) (g'.conditional inLoop) c c'
  refuses (inLoop : Bool) {c : Cursor} : c.IsAtLess → ∃ f, g.statement inLoop c = .error f

structure Declares (X : Comparison) (g g' : Grammar) : Prop where
  letRule {c c' : Cursor} : c.current.Is "let" ∨ c.current.Is "const" → X.parting c c' →
    X.Follows X.nodes (Grammar.letRule g) (Grammar.letRule g') c c' ∨
      X.EndsLost (Grammar.letRule g) c
  functionRule {c c' : Cursor} : c.current.Is "fn" → X.parting c c' →
    X.Follows X.nodes (Grammar.functionRule g) (Grammar.functionRule g') c c'

open Grammar

variable (hX : X.IsLawful) {g g' : Grammar} (hg : X.Grammars g g') (hc : X.cursors c c')
include hX hc

/-! ## Lists -/

theorem follows_commaList {R : α → α' → Prop} (close : String) {item : Parse α} {item' : Parse α'}
    (hitem : ∀ {d d'}, X.cursors d d' → X.Follows R item item' d d') (budget : Nat)
    {done : List α} {done' : List α'} (hdone : List.Forall₂ R done done') :
    X.Follows (List.Forall₂ R) (commaList close item budget done)
      (commaList close item' budget done') c c' := by
  induction budget generalizing done done' c c' with
  | zero => exact follows_pure (List.rel_reverse hdone) hc
  | succ n ih =>
    refine follows_sees hX hc (fun _ => follows_pure (List.rel_reverse hdone) hc) fun _ => ?_
    refine (hitem hc).bind fun a a' d d' ha hd => ?_
    exact follows_accept hX hd "," (by decide) (fun e e' _ he => ih he (.cons ha hdone))
      (follows_pure (List.rel_reverse (.cons ha hdone)) hd)

theorem follows_items {R : α → α' → Prop} {Q : List Token → α → Prop} {Q' : List Token → α' → Prop}
    (close : String) {item : Parse α} {item' : Parse α'} (hreads : ∀ d, Reads Q item d)
    (hreads' : ∀ d, Reads Q' item' d)
    (hitem : ∀ {d d'}, X.cursors d d' → X.Follows R item item' d d') {done : List α}
    {done' : List α'} (hdone : List.Forall₂ R done done') :
    X.Follows (List.Forall₂ R) (commaList close item c.budget done)
      (commaList close item' c'.budget done') c c' :=
  follows_of_budgets (fun _ _ hn hm => commaList_budget close hreads hn hm done)
    (fun _ _ hn hm => commaList_budget close hreads' hn hm done')
    fun n _ => follows_commaList hX hc close hitem n hdone

include hg

/-! ## Types -/

theorem follows_moreAscriptions (budget : Nat) :
    X.Follows Eq (moreAscriptions g.ascription budget)
      (moreAscriptions g'.ascription budget) c c' := by
  induction budget generalizing c c' with
  | zero => exact follows_pure rfl hc
  | succ n ih =>
    refine follows_accept hX hc "," (by decide) (fun d d' _ hd => ?_) (follows_pure rfl hc)
    exact (hg.ascription hd).bind fun _ _ e e' _ he => ih he

theorem follows_ascriptionRule : X.Follows Eq (ascriptionRule g) (ascriptionRule g') c c' := by
  refine follows_accept hX hc "[" (by decide) (fun d d' _ hd => ?_) ?_
  · refine (hg.ascription hd).bind fun _ _ e e' _ he => ?_
    exact (follows_consume hX he "]" (by decide)).bind_pure fun _ _ _ => rfl
  · refine (follows_consumeIdent hX hc _).bind fun _ _ d d' _ hd => ?_
    refine follows_accept hX hd "<" (by decide) (fun e e' _ he => ?_) (follows_pure rfl hd)
    refine (hg.ascription he).bind fun _ _ f f' _ hf => follows_get ?_
    refine (follows_of_budgets (fun _ _ hn hm => moreAscriptions_budget hg.sound hn hm)
      (fun _ _ hn hm => moreAscriptions_budget hg.sound' hn hm)
      fun n _ => follows_moreAscriptions hX hg hf n).bind fun _ _ k k' _ hk => ?_
    exact (follows_consume hX hk ">" (by decide)).bind_pure fun _ _ _ => rfl

theorem follows_optionalAscription (mark : String) (hmark : mark ∉ openings) :
    X.Follows Eq (optionalAscription g mark) (optionalAscription g' mark) c c' :=
  follows_accept hX hc mark hmark (fun _ _ _ hd => hg.ascription hd) (follows_pure rfl hc)

/-! ## Expressions -/

theorem follows_expressions (close : String) :
    X.Follows (List.Forall₂ X.nodes) (commaList close g.expression c.budget [])
      (commaList close g'.expression c'.budget []) c c' :=
  follows_items hX hc close hg.sound.expression hg.sound'.expression hg.expression .nil

theorem follows_expressionRule :
    X.Follows X.nodes (expressionRule g) (expressionRule g') c c' := by
  refine (hg.operators priorities (by decide) hc).bind fun left left' d d' hleft hd => ?_
  refine follows_sees hX hd (fun hsees => ?_) fun _ => follows_pure hleft hd
  have hparting : ¬ X.parting d d' := not_parting_of_sees hX hsees (by decide)
  refine follows_advance hX hd hparting fun equals equals' e e' hequals he => ?_
  obtain ⟨name, m, m', rfl, rfl, hm⟩ | ⟨hnot, hnot'⟩ := hX.identifier_cases hleft
  · exact (hg.expression he).bind_pure fun _ _ h => hX.assignment name h hm
  · split
    · exact absurd rfl (hnot _ _)
    · exact follows_failAt hX _ (hX.mark hequals)

theorem follows_callRule (name : Name) {m m' : Option Mark} (hm : X.marks m m') :
    X.Follows X.nodes (callRule g name m) (callRule g' name m') c c' := by
  refine .ite (fun _ => follows_failAt hX _ hm) fun _ => ?_
  refine (follows_consume hX hc "(" (by decide)).bind fun _ _ d d' _ hd => follows_get ?_
  refine (follows_expressions hX hg hd ")").bind fun args args' e e' hargs he => ?_
  refine (follows_consume hX he ")" (by decide)).bind fun _ _ f f' _ hf => ?_
  refine .ite (fun _ => ?_) fun _ => follows_pure (hX.call name hargs hm) hf
  obtain _ | ⟨hfirst, _ | ⟨hlast, _ | _⟩⟩ := hargs
  · exact follows_failAt hX _ hm
  · exact follows_failAt hX _ hm
  · exact follows_pure (hX.range hfirst hlast hm) hf
  next hrest =>
    simp only [List.length_cons, hrest.length_eq]
    exact follows_failAt hX _ hm

theorem follows_suffixes (budget : Nat) {node node' : Node} (hnode : X.nodes node node') :
    X.Follows X.nodes (suffixes g budget node) (suffixes g' budget node') c c' := by
  induction budget generalizing node node' c c' with
  | zero => exact follows_pure hnode hc
  | succ n ih =>
    unfold suffixes
    refine follows_sees hX hc (fun hsees => ?_) fun _ => ?_
    · have hparting : ¬ X.parting c c' := not_parting_of_sees hX hsees (by decide)
      refine follows_advance hX hc hparting fun bracket bracket' d d' hbracket hd => ?_
      refine (hg.expression hd).bind fun position position' e e' hposition he => ?_
      refine (follows_consume hX he "]" (by decide)).bind fun _ _ f f' _ hf => ?_
      exact ih hf (hX.index hnode hposition (hX.mark hbracket))
    refine follows_accept hX hc "." (by decide) (fun d d' _ hd => ?_) ?_
    · refine (follows_consumeIdent hX hd _).bind fun name name' e e' hname he => ?_
      rw [hname.2.name_eq]
      exact ih he (hX.field _ hnode (hX.mark hname.1))
    refine follows_sees hX hc (fun _ => ?_) fun _ => follows_pure hnode hc
    obtain ⟨name, m, m', rfl, rfl, hm⟩ | ⟨hnot, hnot'⟩ := hX.identifier_cases hnode
    · exact (follows_callRule hX hg hc name hm).bind fun call call' d d' hcall hd => ih hd hcall
    · split
      · exact absurd rfl (hnot _ _)
      · exact follows_pure hnode hc

omit hg in
theorem follows_numberLiteral {t t' : Token} (ht : X.words t t') :
    X.Follows X.nodes (numberLiteral t) (numberLiteral t') c c' := by
  unfold numberLiteral
  rw [ht.2.text]
  cases Number.readNumber? t'.text with
  | none => exact follows_throw hX _
  | some x => exact follows_pure (hX.number x (hX.mark ht.1)) hc

omit hX hg hc in
theorem primaryRule_of_eof (deeper : Grammar) (heof : c.current.kind = .eof) :
    primaryRule deeper c =
      failAt c.current.mark (.expected "an expression" c.current.describe) c := by
  change (if c.current.kind = .number then (_ : Parse Node) else _) c = _
  simp only [heof, reduceCtorEq, false_and, if_false]
  rw [sees_bind_of_unseen (Cursor.sees_of_eof heof _), if_neg Bool.false_ne_true,
    accept_bind_of_unseen (Cursor.sees_of_eof heof _), if_neg Bool.false_ne_true,
    accept_bind_of_unseen (Cursor.sees_of_eof heof _), if_neg Bool.false_ne_true,
    accept_bind_of_unseen (Cursor.sees_of_eof heof _), if_neg Bool.false_ne_true]

theorem follows_primaryRule : X.Follows X.nodes (primaryRule g) (primaryRule g') c c' := by
  have hreads := hX.alike (hX.current hc)
  have hm := hX.mark (hX.current hc)
  by_cases heof : c.current.kind = .eof
  · unfold Follows
    rw [primaryRule_of_eof g heof, primaryRule_of_eof g' (hreads.kind ▸ heof), hreads.describe_eq]
    exact follows_failAt hX _ hm
  have halike := hreads.alike heof
  refine follows_peek hX hc fun ht => ?_
  have hkinds {kind : Token.Kind} (hkind : c.current.kind = kind) (hne : kind ≠ .keyword) :
      ¬ X.parting c c' := not_parting_of_kind hX (hkind ▸ hne)
  simp only [← halike.kind, ← halike.text, ← halike.value, ← halike.name_eq, ← hreads.describe_eq]
  refine .ite (fun hkind => ?_) fun _ => ?_
  · exact follows_advance hX hc (hkinds hkind nofun) fun _ _ d d' _ hd =>
      follows_numberLiteral hX hd ⟨ht, halike⟩
  refine .ite (fun hkind => ?_) fun _ => ?_
  · exact follows_advance hX hc (hkinds hkind nofun) fun _ _ d d' _ hd =>
      follows_pure (hX.string _ hm) hd
  refine .ite (fun hkind => ?_) fun _ => ?_
  · exact follows_advance hX hc (hkinds hkind nofun) fun _ _ d d' _ hd =>
      follows_pure (hX.identifier _ hm) hd
  refine follows_sees hX hc (fun hsees => ?_) fun _ => ?_
  · have hparting : ¬ X.parting c c' := not_parting_of_sees hX hsees (by decide)
    exact follows_advance hX hc hparting fun _ _ d d' _ hd => follows_pure (hX.number _ hm) hd
  refine follows_accept hX hc "nil" (by decide)
    (fun d d' _ hd => follows_pure (hX.nilLiteral hm) hd) ?_
  refine follows_accept hX hc "(" (by decide) (fun d d' _ hd => ?_) ?_
  · refine (hg.expression hd).bind fun inside inside' e e' hinside he => ?_
    exact (follows_consume hX he ")" (by decide)).bind_pure fun _ _ _ => hinside
  refine follows_accept hX hc "[" (by decide) (fun d d' _ hd => follows_get ?_) ?_
  · refine (follows_expressions hX hg hd "]").bind fun elements elements' e e' helements he => ?_
    exact (follows_consume hX he "]" (by decide)).bind_pure fun _ _ _ => hX.array helements hm
  · exact .ite (fun _ => follows_failAt hX _ hm) fun _ => follows_failAt hX _ hm

theorem follows_unaryRule : X.Follows X.nodes (unaryRule g) (unaryRule g') c c' := by
  refine follows_sees hX hc (fun hsees => ?_) fun _ => ?_
  · refine (follows_seen hX hc hsees (by decide)).bind fun op op' d d' hop hd => ?_
    rw [hop.2.name_eq]
    exact (hg.operators [] (by simp) hd).bind_pure fun _ _ h => hX.unary _ h (hX.mark hop.1)
  · refine (follows_primaryRule hX hg hc).bind fun node node' d d' hnode hd => follows_get ?_
    exact follows_of_budgets (fun _ _ hn hm => suffixes_budget hg.sound hn hm node)
      (fun _ _ hn hm => suffixes_budget hg.sound' hn hm node')
      fun n _ => follows_suffixes hX hg hd n hnode

omit hg in
theorem follows_chain {operators : List String} (hfree : ∀ op ∈ operators, op ∉ openings)
    {operand operand' : Parse Node}
    (hoperand : ∀ {d d'}, X.cursors d d' → X.Follows X.nodes operand operand' d d') (budget : Nat)
    {left left' : Node} (hleft : X.nodes left left') :
    X.Follows X.nodes (chain operators operand budget left)
      (chain operators operand' budget left') c c' := by
  induction budget generalizing left left' c c' with
  | zero => exact follows_pure hleft hc
  | succ n ih =>
    refine follows_sees hX hc (fun hsees => ?_) fun _ => follows_pure hleft hc
    refine (follows_seen hX hc hsees hfree).bind fun op op' d d' hop hd => ?_
    rw [hop.2.name_eq]
    refine (hoperand hd).bind fun right right' e e' hright he => ?_
    exact ih he (hX.binary _ hleft hright (hX.mark hop.1))

theorem follows_operatorsRule (ps : List (List String)) (hfree : ∀ op ∈ ps.flatten, op ∉ openings) :
    X.Follows X.nodes (operatorsRule g ps) (operatorsRule g' ps) c c' := by
  cases ps with
  | nil => exact follows_unaryRule hX hg hc
  | cons loosest tighter =>
    simp only [List.flatten_cons, List.mem_append, or_imp, forall_and] at hfree
    obtain ⟨hloosest, htighter⟩ := hfree
    refine (hg.operators tighter htighter hc).bind fun first first' d d' hfirst hd =>
      follows_get ?_
    exact follows_of_budgets
      (fun _ _ hn hm => chain_budget loosest (hg.sound.operators tighter) hn hm first)
      (fun _ _ hn hm => chain_budget loosest (hg.sound'.operators tighter) hn hm first')
      fun n _ => follows_chain hX hd hloosest (hg.operators tighter htighter) n hfirst

/-! ## Statements -/

omit hg in
theorem follows_mutability {t t' : Token} (ht : X.words t t') :
    X.Follows Eq (mutability t) (mutability t') c c' := by
  unfold mutability
  rw [ht.2.text]
  exact .ite (fun _ => follows_isThere hX hc "mut" (by decide)) fun _ => follows_pure rfl hc

theorem follows_initializer {t t' : Token} (ht : X.words t t') :
    X.Follows X.nodes (initializer g t) (initializer g' t') c c' := by
  change X.Follows X.nodes (if t.text = "const" ∨ c.sees ["="] = true then _ else _)
    (if t'.text = "const" ∨ c'.sees ["="] = true then _ else _) c c'
  rw [← sees_eq_of_cursors hX hc, ht.2.text]
  refine .ite (fun _ => ?_) fun _ => follows_pure (hX.nilLiteral (hX.mark ht.1)) hc
  exact (follows_consume hX hc "=" (by decide)).bind fun _ _ d d' _ hd => hg.expression hd

theorem follows_declared {keyword keyword' : Token} (hkeyword : X.words keyword keyword')
    (name : Name) (isMutable : Bool) :
    X.Follows X.nodes (declared g keyword name isMutable) (declared g' keyword' name isMutable)
      c c' := by
  refine (follows_initializer hX hg hc hkeyword).bind fun value value' d d' hvalue hd => ?_
  exact (follows_isThere hX hd ";" (by decide)).bind_pure fun _ _ _ =>
    hX.letDecl name isMutable hvalue (hX.mark hkeyword.1)

theorem follows_letRule_of_not_parting (hne : c.current.kind ≠ .eof)
    (hparting : ¬ X.parting c c') : X.Follows X.nodes (letRule g) (letRule g') c c' := by
  rw [letRule_eq, letRule_eq]
  refine (follows_word hX hc hne hparting).bind fun keyword keyword' d d' hkeyword hd => ?_
  refine (follows_mutability hX hd hkeyword).bind fun isMutable isMutable' e e' heq he => ?_
  subst isMutable'
  refine (follows_consumeIdent hX he _).bind fun name name' f f' hname hf => ?_
  rw [hname.2.name_eq]
  refine (follows_optionalAscription hX hg hf ":" (by decide)).bind fun _ _ k k' _ hk => ?_
  exact follows_declared hX hg hk hkeyword _ _

theorem follows_expressionUnless (texts : List String) :
    X.Follows X.nodes (expressionUnless g texts) (expressionUnless g' texts) c c' :=
  follows_sees hX hc (fun _ => follows_pure hX.absent hc) fun _ => hg.expression hc

theorem follows_printRule (hkind : c.current.kind = .ident) :
    X.Follows X.nodes (printRule g) (printRule g') c c' := by
  have hparting : ¬ X.parting c c' := not_parting_of_kind hX (by rw [hkind]; exact nofun)
  refine follows_advance hX hc hparting fun token token' d d' htoken hd => ?_
  refine (follows_consume hX hd "(" (by decide)).bind fun _ _ e e' _ he => ?_
  refine (follows_expressionUnless hX hg he _).bind fun expr expr' f f' hexpr hf => ?_
  refine (follows_consume hX hf ")" (by decide)).bind fun _ _ k k' _ hk => ?_
  exact (follows_isThere hX hk ";" (by decide)).bind_pure fun _ _ _ =>
    hX.printLine hexpr (hX.mark htoken)

theorem follows_elseRule (inLoop : Bool) :
    X.Follows X.nodes (elseRule g inLoop) (elseRule g' inLoop) c c' := by
  refine follows_sees hX hc (fun hsees => ?_) fun _ => ?_
  · exact hg.conditional inLoop (Cursor.text_not_mem_of_sees hsees (by decide)) hc
  refine follows_accept hX hc "else" (by decide) (fun d d' _ hd => ?_) (follows_pure hX.absent hc)
  refine follows_sees hX hd (fun hsees => ?_) fun _ => hg.block inLoop hd
  exact hg.conditional inLoop (Cursor.text_not_mem_of_sees hsees (by decide)) hd

theorem follows_conditionalRule (inLoop : Bool) (htext : c.current.text ∉ openings) :
    X.Follows X.nodes (conditionalRule g inLoop) (conditionalRule g' inLoop) c c' := by
  have hparting : ¬ X.parting c c' := not_parting_of_text hX htext
  refine follows_advance hX hc hparting fun token token' d d' htoken hd => ?_
  refine (hg.expression hd).bind fun cond cond' e e' hcond he => ?_
  refine (hg.block inLoop he).bind fun thenPart thenPart' f f' hthen hf => ?_
  exact (follows_elseRule hX hg hf inLoop).bind_pure fun _ _ helse =>
    hX.ifElse hcond hthen helse (hX.mark htoken)

theorem follows_forRule : X.Follows X.nodes (forRule g) (forRule g') c c' := by
  refine (follows_consume hX hc "for" (by decide)).bind fun token token' d d' htoken hd => ?_
  refine (follows_consumeIdent hX hd _).bind fun name name' e e' hname he => ?_
  refine (follows_consume hX he "in" (by decide)).bind fun _ _ f f' _ hf => ?_
  refine (hg.expression hf).bind fun iterable iterable' k k' hiterable hk => ?_
  rw [hname.2.name_eq]
  exact (hg.block true hk).bind_pure fun _ _ hbody =>
    hX.forIn _ hiterable hbody (hX.mark htoken)

theorem follows_whileRule : X.Follows X.nodes (whileRule g) (whileRule g') c c' := by
  refine (follows_consume hX hc "while" (by decide)).bind fun token token' d d' htoken hd => ?_
  refine (hg.expression hd).bind fun cond cond' e e' hcond he => ?_
  exact (hg.block true he).bind_pure fun _ _ hbody => hX.whileLoop hcond hbody (hX.mark htoken)

omit hg in
theorem follows_loopControlRule (inLoop : Bool) (hne : c.current.kind ≠ .eof)
    (htext : c.current.text ∉ openings) :
    X.Follows X.nodes (loopControlRule inLoop) (loopControlRule inLoop) c c' := by
  have hparting : ¬ X.parting c c' := not_parting_of_text hX htext
  refine (follows_word hX hc hne hparting).bind fun token token' d d' htoken hd => ?_
  have hm := hX.mark htoken.1
  rw [htoken.2.text]
  refine .ite (fun _ => ?_) fun _ => follows_failAt hX _ hm
  refine (follows_isThere hX hd ";" (by decide)).bind_pure fun _ _ _ => ?_
  split
  · exact hX.breakLoop hm
  · exact hX.continueLoop hm

theorem follows_returnRule : X.Follows X.nodes (returnRule g) (returnRule g') c c' := by
  refine (follows_consume hX hc "return" (by decide)).bind fun token token' d d' htoken hd => ?_
  refine (follows_expressionUnless hX hg hd _).bind fun value value' e e' hvalue he => ?_
  exact (follows_isThere hX he ";" (by decide)).bind_pure fun _ _ _ =>
    hX.returnWith hvalue (hX.mark htoken)

theorem follows_expressionStatementRule :
    X.Follows X.nodes (expressionStatementRule g) (expressionStatementRule g') c c' := by
  refine follows_peek hX hc fun htoken => ?_
  refine (hg.expression hc).bind fun expr expr' d d' hexpr hd => ?_
  refine (follows_isThere hX hd ";" (by decide)).bind fun _ _ e e' _ he => ?_
  obtain ⟨name, v, v', m, m', rfl, rfl⟩ | ⟨hnot, hnot'⟩ := hX.assignment_cases hexpr
  · exact follows_pure hexpr he
  · split
    · exact absurd rfl (hnot _ _ _)
    · exact follows_pure (hX.expression hexpr (hX.mark htoken)) he

omit hX hc in
/-- A list of statements cannot go on with an operator. -/
theorem statements_of_isAtLess (inLoop : Bool) (opened : Position) {n : Nat} {d : Cursor}
    (hn : d.left < n) (hd : d.IsAtLess) (done : List Node) :
    ∃ f, statements (g.statement inLoop) opened n done d = .error f := by
  obtain ⟨n, rfl⟩ : ∃ m, n = m + 1 := Nat.exists_eq_add_one.2 (by omega)
  obtain ⟨f, hf⟩ := hg.refuses inLoop hd
  refine ⟨f, ?_⟩
  have heof : d.current.kind ≠ .eof := by rw [hd.1]; exact nofun
  rw [statements, ite_sees, hd.sees_eq_false (by decide), if_neg Bool.false_ne_true]
  change (if d.current.kind = .eof then (_ : Parse (List Node)) else _) d = _
  rw [if_neg heof, accept_bind, hd.sees_eq_false (by decide), if_neg Bool.false_ne_true]
  exact bind_eq_of_error hf

theorem follows_statements (inLoop : Bool) {opened opened' : Token}
    (hopened : X.tokens opened opened') {n : Nat} (hn : c.left < n) {done done' : List Node}
    (hdone : List.Forall₂ X.nodes done done') :
    X.Follows (List.Forall₂ X.nodes) (statements (g.statement inLoop) opened.position n done)
      (statements (g'.statement inLoop) opened'.position n done') c c' := by
  induction n generalizing done done' c c' with
  | zero => omega
  | succ n ih =>
    refine follows_sees hX hc (fun _ => follows_pure (List.rel_reverse hdone) hc) fun _ => ?_
    refine follows_peek hX hc fun htoken => ?_
    rw [(hX.alike htoken).kind]
    refine .ite (fun _ => .error (hX.unclosed hopened htoken)) fun _ => ?_
    refine follows_accept hX hc ";" (by decide) (fun d d' hleft hd => ih hd (by omega) hdone) ?_
    have hprogress {next : Node} {d : Cursor} (hok : g.statement inLoop c = .ok (next, d)) :
        d.left < n := by
      have hleft := (hg.sound.statement inLoop c).left_lt (fun _ _ h => h.ne_nil_of_statement) hok
      omega
    obtain hnext | ⟨next, d, hok, hlost⟩ := hg.statement inLoop hc
    · exact hnext.bind_of_ok fun next next' d d' hok halike hd =>
        ih hd (hprogress hok) (.cons halike hdone)
    · obtain ⟨f, hf⟩ := statements_of_isAtLess hg inLoop opened.position (hprogress hok)
        (hX.lost hlost) (next :: done)
      unfold Follows
      rw [bind_eq_of_ok hok, hf]
      exact .excused _ (hX.excused f hlost)

theorem follows_blockRule (inLoop : Bool) :
    X.Follows X.nodes (blockRule g inLoop) (blockRule g' inLoop) c c' := by
  refine (follows_consume hX hc _ (by decide)).bind fun brace brace' d d' hbrace hd =>
    follows_get ?_
  refine (follows_of_budgets
    (fun _ _ hn hm => statements_budget hg.sound inLoop brace.position hn hm [])
    (fun _ _ hn hm => statements_budget hg.sound' inLoop brace'.position hn hm [])
    fun n hn => follows_statements hX hg hd inLoop hbrace hn .nil).bind
      fun inside inside' e e' hinside he => ?_
  exact (follows_consume hX he _ (by decide)).bind_pure fun _ _ _ =>
    hX.block hinside (hX.mark hbrace)

variable (hdeclares : X.Declares g g')
include hdeclares

theorem follows_letRule (hword : c.current.Is "let" ∨ c.current.Is "const") :
    X.Follows X.nodes (letRule g) (letRule g') c c' ∨ X.EndsLost (letRule g) c := by
  by_cases hparting : X.parting c c'
  · exact hdeclares.letRule hword hparting
  · refine .inl (follows_letRule_of_not_parting hX hg hc ?_ hparting)
    exact hword.elim (fun his => his.not_eof) fun his => his.not_eof

omit hX hg hc hdeclares in
theorem statementRule_of_word (g : Grammar) (inLoop : Bool)
    (hword : (c.current.kind = .keyword ∧ c.current.text = "let") ∨
      (c.current.kind = .keyword ∧ c.current.text = "const")) :
    statementRule g inLoop c = letRule g c := by
  change (if (_ ∧ _) ∨ (_ ∧ _) then letRule g else _) c = _
  rw [if_pos hword]

omit hX hg hc hdeclares in
theorem statementRule_of_eof (g : Grammar) (inLoop : Bool) (heof : c.current.kind = .eof) :
    statementRule g inLoop c = expressionStatementRule g c := by
  change (if (_ ∧ _) ∨ (_ ∧ _) then letRule g else _) c = _
  simp only [heof, reduceCtorEq, false_and, or_self, if_false]
  rw [sees_bind_of_unseen (Cursor.sees_of_eof heof _), if_neg Bool.false_ne_true]

theorem follows_statementRule (inLoop : Bool) :
    X.Follows X.nodes (statementRule g inLoop) (statementRule g' inLoop) c c' ∨
      X.EndsLost (statementRule g inLoop) c := by
  have htoken := hX.current hc
  have hreads := hX.alike htoken
  by_cases heof : c.current.kind = .eof
  · unfold Follows
    rw [statementRule_of_eof g inLoop heof, statementRule_of_eof g' inLoop (hreads.kind ▸ heof)]
    exact .inl (follows_expressionStatementRule hX hg hc)
  have halike := hreads.alike heof
  by_cases hword : (c.current.kind = .keyword ∧ c.current.text = "let") ∨
      (c.current.kind = .keyword ∧ c.current.text = "const")
  · unfold Follows EndsLost
    rw [statementRule_of_word g inLoop hword,
      statementRule_of_word g' inLoop (by rwa [← halike.kind, ← halike.text])]
    refine follows_letRule hX hg hc hdeclares (hword.imp ?_ ?_) <;> rintro ⟨hkind, htext⟩ <;>
      exact ⟨by rw [hkind]; exact nofun, by rw [hkind]; exact nofun, htext⟩
  · refine .inl (follows_peek hX hc fun _ => ?_)
    simp only [← halike.kind, ← halike.text]
    refine .ite (fun h => absurd h hword) fun _ => ?_
    refine .ite (fun h => ?_) fun _ => ?_
    · exact hg.conditional inLoop (by rw [h.2]; decide) hc
    refine .ite (fun _ => follows_forRule hX hg hc) fun _ => ?_
    refine .ite (fun _ => follows_whileRule hX hg hc) fun _ => ?_
    refine .ite (fun h => follows_loopControlRule hX hc inLoop heof ?_) fun _ => ?_
    · obtain ⟨-, h⟩ | ⟨-, h⟩ := h <;> rw [h] <;> decide
    refine .ite (fun _ => follows_returnRule hX hg hc) fun _ => ?_
    refine .ite (fun _ => follows_failAt hX _ (hX.mark htoken)) fun _ => ?_
    refine follows_sees hX hc (fun _ => hg.block inLoop hc) fun _ => ?_
    exact .ite (fun h => follows_printRule hX hg hc h.1)
      fun _ => follows_expressionStatementRule hX hg hc

/-! ## Programs -/

omit hdeclares in
theorem follows_parameterRule : X.Follows Eq (parameterRule g) (parameterRule g') c c' := by
  refine (follows_consumeIdent hX hc _).bind fun name name' d d' hname hd => ?_
  exact (follows_optionalAscription hX hg hd ":" (by decide)).bind_pure fun _ _ _ =>
    hname.2.name_eq

omit hdeclares in
theorem follows_parameters (done : List Name) :
    X.Follows Eq (parameters g done) (parameters g' done) c c' := by
  have h := follows_items hX hc ")" (reads_parameterRule hg.sound) (reads_parameterRule hg.sound')
    (follows_parameterRule hX hg) (List.forall₂_refl done)
  rwa [List.forall₂_eq_eq_eq] at h

omit hdeclares in
theorem follows_signed {token token' : Token} (htoken : X.tokens token token') (name : Name)
    (params : List Name) :
    X.Follows X.nodes (signed g token name params) (signed g' token' name params) c c' := by
  refine (follows_consume hX hc ")" (by decide)).bind fun _ _ d d' _ hd => ?_
  refine (follows_optionalAscription hX hg hd "->" (by decide)).bind fun _ _ e e' _ he => ?_
  exact (hg.block false he).bind_pure fun _ _ hbody => hX.fnDecl name params hbody (hX.mark htoken)

theorem follows_functionRule (hword : c.current.Is "fn") :
    X.Follows X.nodes (functionRule g) (functionRule g') c c' := by
  by_cases hparting : X.parting c c'
  · exact hdeclares.functionRule hword hparting
  rw [functionRule_eq, functionRule_eq]
  refine (follows_consume_of_not_parting hX hc "fn" hparting).bind
    fun token token' d d' htoken hd => ?_
  refine (follows_consumeIdent hX hd _).bind fun name name' e e' hname he => ?_
  rw [hname.2.name_eq]
  refine (follows_consume hX he "(" (by decide)).bind fun _ _ f f' _ hf => ?_
  refine (follows_parameters hX hg hf []).bind fun params params' k k' hparams hk => ?_
  subst params'
  exact follows_signed hX hg hk htoken _ _

def Parts (X : Comparison) (parts parts' : List Node × List Node) : Prop :=
  List.Forall₂ X.nodes parts.1 parts'.1 ∧ List.Forall₂ X.nodes parts.2 parts'.2

omit hX hg hc hdeclares in
/-- The declarations of a program cannot go on with an operator. -/
theorem declarations_of_isAtLess {n : Nat} {d : Cursor} (hn : d.left < n) (hd : d.IsAtLess)
    (functions globals : List Node) : ∃ f, declarations g n functions globals d = .error f := by
  obtain ⟨n, rfl⟩ : ∃ m, n = m + 1 := Nat.exists_eq_add_one.2 (by omega)
  have heof : d.current.kind ≠ .eof := by rw [hd.1]; exact nofun
  rw [declarations]
  change ∃ f, (if d.current.kind = .eof then (_ : Parse (List Node × List Node)) else _) d = _
  rw [if_neg heof, accept_bind, hd.sees_eq_false (by decide), if_neg Bool.false_ne_true]
  rw [if_neg Bool.false_ne_true, ite_sees, hd.sees_eq_false (by decide), if_neg Bool.false_ne_true,
    ite_sees, hd.sees_eq_false (by decide), if_neg Bool.false_ne_true]
  split <;> exact ⟨_, rfl⟩

theorem follows_declarations {n : Nat} (hn : c.left < n)
    {functions functions' globals globals' : List Node}
    (hfunctions : List.Forall₂ X.nodes functions functions')
    (hglobals : List.Forall₂ X.nodes globals globals') :
    X.Follows X.Parts (declarations g n functions globals)
      (declarations g' n functions' globals') c c' := by
  induction n generalizing functions functions' globals globals' c c' with
  | zero => omega
  | succ n ih =>
    have hdone : X.Parts (functions.reverse, globals.reverse)
      (functions'.reverse, globals'.reverse) :=
        ⟨List.rel_reverse hfunctions, List.rel_reverse hglobals⟩
    refine follows_peek hX hc fun htoken => ?_
    have hreads := hX.alike htoken
    rw [← hreads.kind, hreads.describe_eq]
    refine .ite (fun _ => follows_pure hdone hc) fun hne => ?_
    rw [(hreads.alike hne).text]
    refine follows_accept hX hc ";" (by decide)
      (fun d d' hleft hd => ih hd (by omega) hfunctions hglobals) ?_
    refine follows_sees hX hc (fun hsees => ?_) fun _ => ?_
    · have hword := Cursor.is_of_sees_singleton hsees
      refine (follows_functionRule hX hg hc hdeclares hword).bind_of_ok
        fun fn fn' d d' hok hfn hd => ?_
      have hleft := (reads_functionRule hg.sound c).left_lt (fun _ _ h => by cases h; simp) hok
      exact ih hd (by omega) (.cons hfn hfunctions) hglobals
    refine follows_sees hX hc (fun hsees => ?_) fun _ => ?_
    · have hword := Cursor.isWord_of_sees hsees
      have hprogress {decl : Node} {d : Cursor} (hok : letRule g c = .ok (decl, d)) :
          d.left < n := by
        have hleft := (reads_letRule hg.sound c hword).left_lt
          (fun _ _ h => h.ne_nil_of_declaration) hok
        omega
      obtain hdecl | ⟨decl, d, hok, hlost⟩ := follows_letRule hX hg hc hdeclares hword
      · exact hdecl.bind_of_ok fun decl decl' d d' hok halike hd =>
          ih hd (hprogress hok) hfunctions (.cons halike hglobals)
      · obtain ⟨f, hf⟩ := declarations_of_isAtLess (g := g) (hprogress hok) (hX.lost hlost)
          functions (decl :: globals)
        unfold Follows
        rw [bind_eq_of_ok hok, hf]
        exact .excused _ (hX.excused f hlost)
    · exact .ite (fun _ => follows_failAt hX _ (hX.mark htoken))
        fun _ => follows_failAt hX _ (hX.mark htoken)

omit hg hc hdeclares in
theorem any_isMain_eq {functions functions' : List Node}
    (h : List.Forall₂ X.nodes functions functions') :
    functions.any isMain = functions'.any isMain := by
  induction h with
  | nil => rfl
  | cons hfn _ ih => rw [List.any_cons, List.any_cons, hX.isMain hfn, ih]

theorem follows_programRule : X.Follows X.nodes (programRule g) (programRule g') c c' := by
  refine follows_get ((follows_of_budgets
    (fun _ _ hn hm => declarations_budget hg.sound hn hm [] [])
    (fun _ _ hn hm => declarations_budget hg.sound' hn hm [] [])
    fun n hn => follows_declarations hX hg hc hdeclares hn .nil .nil).bind ?_)
  rintro ⟨functions, globals⟩ ⟨functions', globals'⟩ d d' ⟨hfunctions, hglobals⟩ hd
  refine follows_peek hX hd fun hlast => ?_
  rw [any_isMain_eq hX hfunctions]
  exact .ite (fun _ => follows_pure (hX.program hfunctions hglobals hlast) hd)
    fun _ => follows_throw hX _

/-! ## Depth -/

omit hc in
theorem Grammars.above
    (hrefuses : ∀ inLoop {c : Cursor}, c.IsAtLess → ∃ f, statementRule g inLoop c = .error f) :
    X.Grammars (above g) (above g') where
  sound := hg.sound.above
  sound' := hg.sound'.above
  expression := follows_expressionRule hX hg
  operators ps _ _ hfree hc := follows_operatorsRule hX hg hc ps hfree
  ascription := follows_ascriptionRule hX hg
  block inLoop _ _ hc := follows_blockRule hX hg hc inLoop
  statement inLoop _ _ hc := follows_statementRule hX hg hc hdeclares inLoop
  conditional inLoop _ _ htext hc := follows_conditionalRule hX hg hc inLoop htext
  refuses := hrefuses

end Comparison

namespace Grammar

/-! ## Operators that start nothing -/

theorem primaryRule_of_isAtLess (deeper : Grammar) (h : c.IsAtLess) :
    ∃ f, primaryRule deeper c = .error f := by
  change ∃ f, (if c.current.kind = .number then (_ : Parse Node) else _) c = _
  simp only [h.1, reduceCtorEq, false_and, if_false]
  rw [sees_bind_of_unseen (h.sees_eq_false (by decide)), if_neg Bool.false_ne_true,
    accept_bind_of_unseen (h.sees_eq_false (by decide)), if_neg Bool.false_ne_true,
    accept_bind_of_unseen (h.sees_eq_false (by decide)), if_neg Bool.false_ne_true,
    accept_bind_of_unseen (h.sees_eq_false (by decide)), if_neg Bool.false_ne_true]
  exact ⟨_, rfl⟩

theorem operators_of_isAtLess (n : Nat) (ps : List (List String)) (h : c.IsAtLess) :
    ∃ f, (ofDepth n).operators ps c = .error f := by
  induction n generalizing ps with
  | zero => exact ⟨_, rfl⟩
  | succ n ih =>
    cases ps with
    | nil =>
      obtain ⟨f, hf⟩ := primaryRule_of_isAtLess (ofDepth n) h
      change ∃ f, unaryRule (ofDepth n) c = _
      rw [unaryRule, ite_sees, h.sees_eq_false (by decide), if_neg Bool.false_ne_true]
      exact ⟨f, bind_eq_of_error hf⟩
    | cons loosest tighter =>
      obtain ⟨f, hf⟩ := ih tighter
      exact ⟨f, bind_eq_of_error hf⟩

theorem expression_of_isAtLess (n : Nat) (h : c.IsAtLess) :
    ∃ f, (ofDepth n).expression c = .error f := by
  cases n with
  | zero => exact ⟨_, rfl⟩
  | succ n =>
    obtain ⟨f, hf⟩ := operators_of_isAtLess n priorities h
    exact ⟨f, bind_eq_of_error hf⟩

theorem statementRule_of_isAtLess (n : Nat) (inLoop : Bool) (h : c.IsAtLess) :
    ∃ f, statementRule (ofDepth n) inLoop c = .error f := by
  obtain ⟨f, hf⟩ := expression_of_isAtLess n h
  refine ⟨f, ?_⟩
  change (if (_ ∧ _) ∨ (_ ∧ _) then letRule (ofDepth n) else _) c = _
  simp only [h.1, reduceCtorEq, false_and, or_self, if_false]
  rw [sees_bind_of_unseen (h.sees_eq_false (by decide)), if_neg Bool.false_ne_true]
  rw [expressionStatementRule, bind_eq_of_ok (show peek c = .ok (c.current, c) from rfl)]
  exact bind_eq_of_error hf

end Grammar

namespace Comparison

variable {X : Comparison} (hX : X.IsLawful)
include hX

/-- Grammars of all depths read alike, the second with some more depth than the first, if
the declarations do where the streams part. -/
theorem grammars_ofDepth (more : Nat) (hdeep : more = 0 ∨ X.excused (.fault .tooDeep))
    (hdeclares : ∀ n, X.Grammars (.ofDepth n) (.ofDepth (n + more)) →
      X.Declares (.ofDepth n) (.ofDepth (n + more))) (n : Nat) :
    X.Grammars (.ofDepth n) (.ofDepth (n + more)) := by
  induction n with
  | zero =>
    -- the first grammar refuses everything: so does the second, or this is an excuse
    have hthrow {α : Type} {R : α → α → Prop} {p : Parse α} {c c' : Cursor}
        (hp : more = 0 → p c' = .error (.fault .tooDeep)) :
        X.Follows R (throw (.fault .tooDeep)) p c c' := by
      obtain hzero | hexcused := hdeep
      · unfold Follows
        rw [hp hzero]
        exact .error (hX.same _)
      · exact .excused _ hexcused
    constructor
    case sound => exact Grammar.isSound_ofDepth 0
    case sound' => exact Grammar.isSound_ofDepth _
    case statement => exact fun _ _ _ _ => .inl (hthrow fun h => by subst h; rfl)
    case refuses => exact fun _ _ _ => ⟨_, rfl⟩
    all_goals intros; exact hthrow fun h => by subst h; rfl
  | succ n ih =>
    rw [Nat.add_right_comm]
    exact ih.above hX (hdeclares n ih) fun inLoop _ h =>
      Grammar.statementRule_of_isAtLess n inLoop h

end Comparison

end Orus.Syntax
