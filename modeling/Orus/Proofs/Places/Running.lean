import Orus.Proofs.Contracts.Running
import Orus.Proofs.Places.Parsing

/-! # The places of errors at run time

The evaluator reports an error at the tree it is evaluating, or at none if the error only
cuts the run short. The trees it meets are those of the program and of the functions in
reach, so with placed functions in reach every error of a placed tree is placed.
-/

namespace Orus

variable {M : Option Mark → Prop}

namespace Node.IsPlaced

theorem child {n c : Node} (h : n.IsPlaced M) (hn : n.children = [c]) : c.IsPlaced M :=
  h.inside c (hn ▸ List.mem_singleton_self c)

theorem two {n c d : Node} (h : n.IsPlaced M) (hn : n.children = [c, d]) :
    c.IsPlaced M ∧ d.IsPlaced M :=
  ⟨h.inside c (hn ▸ List.mem_cons_self),
    h.inside d (hn ▸ List.mem_cons_of_mem c (List.mem_singleton_self d))⟩

theorem of_statements? {block : Node} (h : block.IsPlaced M) {statements : List Node}
    (hs : block.statements? = some statements) : ∀ n ∈ statements, n.IsPlaced M := by
  cases block with
  | block => cases hs; exact h.inside
  | _ => cases hs

theorem of_body? {decl : Node} (h : decl.IsPlaced M) {body : Node}
    (hbody : decl.body? = some body) : body.IsPlaced M := by
  cases decl with
  | fnDecl => cases hbody; exact h.child rfl
  | forIn => cases hbody; exact (h.two rfl).2
  | whileLoop => cases hbody; exact (h.two rfl).2
  | _ => cases hbody

end Node.IsPlaced

namespace Run

variable {α : Type}

inductive Stop.IsPlaced (M : Option Mark → Prop) : Stop → Prop where
  | error {e : Error} : e.IsPlaced M → IsPlaced M (.error e)
  | fault (fault : Fault) : IsPlaced M (.fault fault)
  | breakLoop : IsPlaced M .breakLoop
  | continueLoop : IsPlaced M .continueLoop
  | returned {v : Value} : v.Holds (Node.IsPlaced M) → IsPlaced M (.returned v)

/-- Evaluations that report their errors at places with a property if all functions in reach
are placed. -/
abbrev Points (M : Option Mark → Prop) (P : α → Prop) (c : Eval α) : Prop :=
  Ensures (Node.IsPlaced M) (Stop.IsPlaced M) P c

theorem allowsCuts_isPlaced : AllowsCuts (Stop.IsPlaced M) := by
  intro cause hcause
  simp only [isGraceful, Bool.or_eq_true, decide_eq_true_eq] at hcause
  refine .error ?_
  rcases hcause with hkind | hkind <;> simp [Error.IsPlaced, hkind, ErrorKind.isPlaceless]

theorem allowsName_isPlaced (name : Name) : AllowsName (Stop.IsPlaced M) name :=
  fun _ => .fault _

theorem isPlaced_error {mark : Option Mark} (hmark : M mark) {cause : Cause}
    (hcause : cause.kind.isPlaceless = false) : Stop.IsPlaced M (.error ⟨cause, mark⟩) := by
  refine .error ?_
  rw [Error.IsPlaced, if_neg (hcause ▸ nofun)]
  exact hmark

theorem points_fail {P : α → Prop} {mark : Option Mark} (hmark : M mark) {cause : Cause}
    (hcause : cause.kind.isPlaceless = false) : Points M P (fail mark cause) :=
  ensures_throw (isPlaced_error hmark hcause)

theorem points_need {P : α → Prop} {a : Option α} (h : ∀ x, a = some x → P x) :
    Points M P (need a) := by
  cases a with
  | none => exact ensures_throw (.fault _)
  | some x => exact ensures_pure (h x rfl)

theorem points_ofExcept {P : α → Prop} {isDeep : Prop} {r : Except Failure α}
    (hr : FailsByValue isDeep r) (hok : ∀ a, r = .ok a → P a) {mark : Option Mark}
    (hmark : M mark) : Points M P (ofExcept mark r) := by
  refine ensures_ofExcept hok (fun f _ => .fault f) fun e he => ?_
  have hplaced : ∀ cause : Cause, cause.kind.isPlaceless = false → Stop.IsPlaced M
      (.error (if cause = .nestingTooDeep then ⟨cause, none⟩ else ⟨cause, mark⟩)) := by
    intro cause hcause
    have hne : cause ≠ .nestingTooDeep := by
      rintro rfl
      cases hcause
    rw [if_neg hne]
    exact isPlaced_error hmark hcause
  cases hr _ he with
  | mismatch hk => exact hplaced _ (by rw [hk]; rfl)
  | division hk => exact hplaced _ (by rw [hk]; rfl)
  | tooDeep => exact .error rfl

/-! ## Expressions -/

/-- Evaluators that report the errors of placed trees at places with a property. Only trees
with a place have values. -/
structure Evaluator.IsPlacing (M : Option Mark → Prop) (e : Evaluator) : Prop where
  eval {node : Node} : node.IsPlaced M →
    Points M (fun v => v.Holds (Node.IsPlaced M) ∧ M node.mark) (e.eval node)
  exec {node : Node} : node.IsPlaced M → Points M (fun _ => True) (e.exec node)
  resolve {node : Node} : node.IsPlaced M →
    Points M (fun found => ∀ v, found = some v → v.Holds (Node.IsPlaced M)) (e.resolve node)
  enter {decl : Node} {params : List Name} {args : List Value} : decl.IsPlaced M → M decl.mark →
    (∀ v ∈ args, v.Holds (Node.IsPlaced M)) →
    Points M (Value.Holds (Node.IsPlaced M)) (e.enter decl params args)

namespace Evaluator

section Rules

variable {cfg : Config} {deeper : Evaluator} (h : deeper.IsPlacing M)
include h

omit h in
theorem points_textOf (v : Value) : Points M (fun _ => True) (textOf deeper v) := by
  refine ensures_ofExcept (fun _ _ => trivial) (fun f _ => .fault f) fun e he => ?_
  rcases shown_cases deeper.depth v with ⟨text, htext⟩ | hdeep
  · cases htext.symm.trans he
  · cases hdeep.symm.trans he
    exact .error rfl

theorem points_value {node : Node} (hnode : node.IsPlaced M) :
    Points M (Value.Holds (Node.IsPlaced M)) (deeper.eval node) :=
  (h.eval hnode).weaken (fun _ hv => hv.1) fun _ he => he

theorem points_resolveRule {node : Node} (hnode : node.IsPlaced M) :
    Points M (fun found => ∀ v, found = some v → v.Holds (Node.IsPlaced M))
      (resolveRule deeper node) := by
  have hother : Points M (fun found => ∀ v, found = some v → v.Holds (Node.IsPlaced M))
      (do return some (← deeper.eval node)) := by
    refine (points_value h hnode).bind fun v hv => ensures_pure fun w hw => ?_
    cases hw
    exact hv
  cases node with
  | identifier name mark =>
    refine (ensures_lookup (allowsName_isPlaced name)).bind fun found hfound => ?_
    cases found with
    | none => exact (ensures_warn _ _).bind fun _ _ => ensures_pure nofun
    | some v => exact ensures_pure hfound
  | field target name mark =>
    refine (h.resolve (hnode.child rfl)).bind fun found hfound => ?_
    cases found with
    | none => exact ensures_pure nofun
    | some v =>
      dsimp only
      cases hitem : fieldOf? v name with
      | none => exact (ensures_warn _ _).bind fun _ _ => ensures_pure nofun
      | some item =>
        refine ensures_pure fun w hw => ?_
        cases hw
        exact holds_fieldOf? hitem
  | _ => exact hother

theorem points_segmentText {node : Node} (hnode : node.IsPlaced M) :
    Points M (fun _ => True) (segmentText deeper node) := by
  have hmarker : Points M (fun _ => True) (markerText deeper node) := by
    refine (h.resolve hnode).bind fun found _ => ?_
    cases found with
    | none => exact ensures_pure trivial
    | some v =>
      cases v with
      | builtin b => exact (ensures_warn _ _).bind fun _ _ => ensures_pure trivial
      | function decl => exact (ensures_warn _ _).bind fun _ _ => ensures_pure trivial
      | _ => exact points_textOf _
  unfold segmentText
  split
  · exact ensures_pure trivial
  · exact hmarker

theorem points_rangeBound {mark : Option Mark} (hmark : M mark) {node : Node}
    (hnode : node.IsPlaced M) : Points M (fun _ => True) (rangeBound deeper mark node) := by
  refine (h.eval hnode).bind fun v _ => ?_
  split
  · exact ensures_pure trivial
  · exact (points_textOf v).bind fun _ _ => points_fail hmark rfl

theorem points_rangeOf {first last : Node} (hfirst : first.IsPlaced M) (hlast : last.IsPlaced M)
    {mark : Option Mark} (hmark : M mark) :
    Points M (fun _ => True) (rangeOf deeper first last mark) := by
  refine (points_rangeBound h hmark hfirst).bind fun start _ => ?_
  exact (points_rangeBound h hmark hlast).bind fun stop _ => ensures_pure trivial

theorem points_applyOperation {left : Value} {operation : Operation}
    (hright : operation.right.IsPlaced M) (hmark : M operation.mark) :
    Points M (Value.Holds (Node.IsPlaced M)) (applyOperation deeper left operation) := by
  have hverdict : Points M (Value.Holds (Node.IsPlaced M)) (do
      return .ofBool (← deeper.eval operation.right).isTruthy) :=
    (h.eval hright).bind fun v _ => ensures_pure (.number _)
  unfold applyOperation
  split
  · split
    · exact hverdict
    · exact ensures_pure (.number _)
  split
  · split
    · exact ensures_pure (.number _)
    · exact hverdict
  · refine (h.eval hright).bind fun right _ => ?_
    exact points_ofExcept (failsByValue_applyOperator _ _ _ _) (fun _ => holds_applyOperator) hmark

omit h in
theorem isPlaced_leftEdge {node : Node} {done : List Operation} (hnode : node.IsPlaced M)
    (hdone : ∀ o ∈ done, o.right.IsPlaced M ∧ M o.mark) :
    (leftEdge node done).1.IsPlaced M ∧
      ∀ o ∈ (leftEdge node done).2, o.right.IsPlaced M ∧ M o.mark := by
  fun_induction leftEdge node done with
  | case1 op left right mark done ih =>
    obtain ⟨hleft, hright⟩ := hnode.two rfl
    have hmark : M mark := hnode.here.resolve_left (by simp)
    exact ih hleft (List.forall_mem_cons.2 ⟨⟨hright, hmark⟩, hdone⟩)
  | case2 node done => exact ⟨hnode, hdone⟩

theorem points_evalBinary {node : Node} (hnode : node.IsPlaced M) :
    Points M (Value.Holds (Node.IsPlaced M)) (evalBinary deeper node) := by
  obtain ⟨hfirst, hoperations⟩ := isPlaced_leftEdge hnode (List.forall_mem_nil _)
  refine (points_value h hfirst).bind fun v hv => ensures_foldlM (fun left _ o ho => ?_) hv
  exact points_applyOperation h (hoperations o ho).1 (hoperations o ho).2

theorem points_evalUnary (op : Name) {operand : Node} (hoperand : operand.IsPlaced M)
    {mark : Option Mark} (hmark : M mark) :
    Points M (Value.Holds (Node.IsPlaced M)) (evalUnary deeper op operand mark) := by
  refine (h.eval hoperand).bind fun v _ => ?_
  split
  · exact ensures_pure (.number _)
  · split
    · exact ensures_pure (.number _)
    · exact points_fail hmark rfl

omit h in
theorem points_pickItem (key : Value) {mark : Option Mark} (hmark : M mark) (length : Nat)
    {item : Int → Option Value} (hitem : ∀ i v, item i = some v → v.Holds (Node.IsPlaced M)) :
    Points M (Value.Holds (Node.IsPlaced M)) (pickItem deeper key mark length item) := by
  unfold pickItem
  split
  · exact (points_textOf key).bind fun _ _ => points_fail hmark rfl
  · split
    next v hv => exact ensures_pure (hitem _ v hv)
    · exact (points_textOf key).bind fun _ _ => points_fail hmark rfl

theorem points_evalIndex {target position : Node} (htarget : target.IsPlaced M)
    (hposition : position.IsPlaced M) {mark : Option Mark} (hmark : M mark) :
    Points M (Value.Holds (Node.IsPlaced M)) (evalIndex deeper target position mark) := by
  refine (points_value h htarget).bind fun container hcontainer => ?_
  refine (h.eval hposition).bind fun key _ => ?_
  split
  · refine points_pickItem key hmark _ fun i v hv => ?_
    obtain ⟨c, -, rfl⟩ := Option.map_eq_some_iff.1 hv
    exact .text _
  · exact points_pickItem key hmark _ fun i v hv => hcontainer.of_mem v (mem_of_itemAt? hv)
  · exact points_fail hmark rfl

theorem points_callFunction {decl : Node} (hdecl : decl.IsPlaced M) {args : List Value}
    (hargs : ∀ v ∈ args, v.Holds (Node.IsPlaced M)) {mark : Option Mark} (hmark : M mark) :
    Points M (Value.Holds (Node.IsPlaced M)) (callFunction deeper decl args mark) := by
  cases decl with
  | fnDecl name params body declMark =>
    have hdeclMark : M declMark := hdecl.here.resolve_left nofun
    change Points M _ (if args.length ≠ params.length then fail mark _ else inCall _)
    split
    · exact points_fail hmark rfl
    · refine ensures_inCall (h.enter hdecl hdeclMark hargs) (fun v hv => ?_) fun _ he _ => he
      cases hv with
      | returned hv => exact hv
  | _ => exact ensures_throw (.fault _)

omit h in
theorem points_callBuiltin (b : Builtin) {args : List Value}
    (hargs : ∀ v ∈ args, v.Holds (Node.IsPlaced M)) {mark : Option Mark} (hmark : M mark) :
    Points M (Value.Holds (Node.IsPlaced M)) (callBuiltin cfg deeper b args mark) := by
  have happly : (∀ n, b.arity = some n → args.length = n) →
      Points M (Value.Holds (Node.IsPlaced M))
        (ofExcept mark (b.apply ⟨cfg.timestamp, deeper.depth⟩ args)) :=
    fun harity => points_ofExcept (failsByValue_apply _ harity) (fun _ => holds_apply hargs) hmark
  unfold callBuiltin
  cases harity : b.arity with
  | none => exact happly fun n hn => nomatch harity.symm.trans hn
  | some n =>
    dsimp only
    split
    · exact points_fail hmark rfl
    next hlength =>
      refine happly fun m hm => ?_
      cases harity.symm.trans hm
      exact Decidable.of_not_not hlength

theorem points_evalCall (name : Name) {argNodes : List Node}
    (hargs : ∀ n ∈ argNodes, n.IsPlaced M) {mark : Option Mark} (hmark : M mark) :
    Points M (Value.Holds (Node.IsPlaced M)) (evalCall cfg deeper name argNodes mark) := by
  refine (ensures_lookup (allowsName_isPlaced name)).bind fun found hfound => ?_
  cases found with
  | none => exact points_fail hmark rfl
  | some callee =>
    refine (ensures_mapM fun n hn => points_value h (hargs n hn)).bind fun args hargs => ?_
    cases hfound callee rfl with
    | builtin b => exact points_callBuiltin b hargs hmark
    | function hdecl => exact points_callFunction h hdecl hargs hmark
    | _ => exact points_fail hmark rfl

theorem points_evalRule {node : Node} (hnode : node.IsPlaced M) (hmark : M node.mark) :
    Points M (Value.Holds (Node.IsPlaced M)) (evalRule cfg deeper node) := by
  cases node with
  | number x mark => exact ensures_pure (.number x)
  | nilLiteral mark => exact ensures_pure .undefined
  | string segments mark =>
    have hsegments := hnode.inside
    exact (ensures_mapM fun n hn => points_segmentText h (hsegments n hn)).bind fun texts _ =>
      ensures_pure (.text _)
  | identifier name mark =>
    exact ensures_getVariable (allowsName_isPlaced name) (isPlaced_error hmark rfl)
  | array elements mark =>
    have helements := hnode.inside
    exact (ensures_mapM fun n hn => points_value h (helements n hn)).bind fun items hitems =>
      ensures_pure (.array hitems)
  | range first last mark =>
    obtain ⟨hfirst, hlast⟩ := hnode.two rfl
    refine (points_rangeOf h hfirst hlast hmark).bind fun bounds _ => ?_
    exact (ensures_rangeItems allowsCuts_isPlaced _ _ (List.forall_mem_nil _)).bind
      fun items hitems => ensures_pure (.array hitems)
  | unary op operand mark => exact points_evalUnary h op (hnode.child rfl) hmark
  | binary op left right mark => exact points_evalBinary h hnode
  | assignment name expr mark =>
    refine (points_value h (hnode.child rfl)).bind fun v hv => ?_
    refine (ensures_setVariable (allowsName_isPlaced name) hv (isPlaced_error hmark rfl)).bind
      fun _ _ => (ensures_logFrom 2 ?_).bind fun _ _ => ensures_pure hv
    exact (points_textOf v).bind fun _ _ => ensures_pure trivial
  | call name args mark => exact points_evalCall h name hnode.inside hmark
  | index target position mark =>
    obtain ⟨htarget, hposition⟩ := hnode.two rfl
    exact points_evalIndex h htarget hposition hmark
  | field target name mark =>
    refine (h.eval (hnode.child rfl)).bind fun v _ => ?_
    split
    next item hitem => exact ensures_pure (holds_fieldOf? hitem)
    · exact points_fail hmark rfl
  | _ => exact ensures_throw (.fault _)

/-! ## Statements -/

theorem points_execBlock {block : Node} (hblock : block.IsPlaced M) :
    Points M (fun _ => True) (execBlock deeper block) := by
  refine (points_need fun statements hs => hblock.of_statements? hs).bind fun statements hs => ?_
  exact ensures_inScope (ensures_forM fun n hn => h.exec (hs n hn))

theorem points_forRound (name : Name) {body : Node} (hbody : body.IsPlaced M)
    {mark : Option Mark} (hmark : M mark) {item : Value}
    (hitem : item.Holds (Node.IsPlaced M)) :
    Points M (fun _ => True) (forRound cfg deeper name body mark item) := by
  refine (ensures_loopTick allowsCuts_isPlaced).bind fun _ _ => ensures_inScope ?_
  refine (ensures_declare (allowsName_isPlaced name) hitem (isPlaced_error hmark rfl)).bind
    fun _ _ => (ensures_logFrom 3 ?_).bind fun _ _ => ?_
  · exact (points_textOf item).bind fun _ _ => ensures_pure trivial
  · refine (points_need fun statements hs => hbody.of_statements? hs).bind fun statements hs => ?_
    exact ensures_loopRound (ensures_forM fun n hn => h.exec (hs n hn)) fun _ he _ _ => he

theorem points_execForItems (name : Name) {iterable body : Node} (hiterable : iterable.IsPlaced M)
    (hbody : body.IsPlaced M) {mark : Option Mark} (hmark : M mark) :
    Points M (fun _ => True) (execForItems cfg deeper name iterable body mark) := by
  refine (h.eval hiterable).bind fun v hv => ?_
  split
  · exact ensures_forItems fun w hw => points_forRound h name hbody hmark (hv.1.of_mem w hw)
  · -- reported at the tree of the items, which has a place since it has a value
    exact points_fail hv.2 rfl

theorem points_execFor (name : Name) {iterable body : Node} (hiterable : iterable.IsPlaced M)
    (hbody : body.IsPlaced M) {mark : Option Mark} (hmark : M mark) :
    Points M (fun _ => True) (execFor cfg deeper name iterable body mark) := by
  unfold execFor
  split
  next first last rangeMark =>
    obtain ⟨hfirst, hlast⟩ := hiterable.two rfl
    have hrange : M rangeMark := hiterable.here.resolve_left nofun
    refine (points_rangeOf h hfirst hlast hrange).bind fun bounds _ => ?_
    exact ensures_forRange (fun v hv => points_forRound h name hbody hmark hv) _ _
  · exact points_execForItems h name hiterable hbody hmark

theorem points_execWhile {cond body : Node} (hcond : cond.IsPlaced M) (hbody : body.IsPlaced M) :
    Points M (fun _ => True) (execWhile cfg deeper cond body) := by
  have hholds : Points M (fun _ => True) (evalCondition deeper cond) :=
    (h.eval hcond).bind fun _ _ => ensures_pure trivial
  have hround : Points M (fun _ => True) (loopRound (execBlock deeper body)) :=
    ensures_loopRound (points_execBlock h hbody) fun _ he _ _ => he
  exact fun s hs => ensures_whileRounds allowsCuts_isPlaced hholds hround _ s hs

theorem points_execIf {cond thenPart elsePart : Node} (hcond : cond.IsPlaced M)
    (hthen : thenPart.IsPlaced M) (helse : elsePart.IsPlaced M) :
    Points M (fun _ => True) (execIf cfg deeper cond thenPart elsePart) := by
  refine (h.eval hcond).bind fun v _ => (ensures_logFrom 3 ?_).bind fun _ _ => ?_
  · exact (points_textOf v).bind fun _ _ => ensures_pure trivial
  · split
    · exact points_execBlock h hthen
    · split
      · exact h.exec helse
      · exact ensures_pure trivial
      · exact points_execBlock h helse

theorem points_effectRule {node : Node} (hnode : node.IsPlaced M) (hmark : M node.mark) :
    Points M (fun _ => True) (effectRule cfg deeper node) := by
  cases node with
  | letDecl name init isMutable mark =>
    refine (points_value h (hnode.child rfl)).bind fun v hv => ?_
    refine (ensures_declare (allowsName_isPlaced name) hv (isPlaced_error hmark rfl)).bind
      fun _ _ => ?_
    exact ensures_logFrom 2 ((points_textOf v).bind fun _ _ => ensures_pure trivial)
  | assignment name expr mark => exact (h.eval hnode).bind fun _ _ => ensures_pure trivial
  | expression expr mark =>
    exact (h.eval (hnode.child rfl)).bind fun _ _ => ensures_pure trivial
  | printLine expr mark =>
    have hprint : Points M (fun _ => True) (do emit cfg (← textOf deeper (← deeper.eval expr))) :=
      (h.eval (hnode.child rfl)).bind fun v _ => (points_textOf v).bind fun line _ =>
        ensures_emit allowsCuts_isPlaced line
    cases expr with
    | raw value =>
      cases value with
      | null => exact ensures_emit allowsCuts_isPlaced ""
      | _ => exact hprint
    | _ => exact hprint
  | block statements mark => exact points_execBlock h hnode
  | ifElse cond thenPart elsePart mark =>
    have hparts := hnode.inside
    exact points_execIf h (hparts cond (by simp [Node.children]))
      (hparts thenPart (by simp [Node.children])) (hparts elsePart (by simp [Node.children]))
  | forIn name iterable body mark =>
    obtain ⟨hiterable, hbody⟩ := hnode.two rfl
    exact points_execFor h name hiterable hbody hmark
  | whileLoop cond body mark =>
    obtain ⟨hcond, hbody⟩ := hnode.two rfl
    exact points_execWhile h hcond hbody
  | breakLoop mark => exact ensures_throw .breakLoop
  | continueLoop mark => exact ensures_throw .continueLoop
  | returnWith value mark =>
    have hreturn : Points M (fun _ : Unit => True) (do throw (.returned (← deeper.eval value))) :=
      (points_value h (hnode.child rfl)).bind fun v hv => ensures_throw (.returned hv)
    cases value with
    | raw value =>
      cases value with
      | null => exact ensures_throw (.returned .undefined)
      | _ => exact hreturn
    | _ => exact hreturn
  | _ => exact ensures_throw (.fault _)

theorem points_execRule {node : Node} (hnode : node.IsPlaced M) :
    Points M (fun _ => True) (execRule cfg deeper node) := by
  refine (ensures_tick allowsCuts_isPlaced node.mark).bind fun _ _ => ?_
  rcases hnode.here with ⟨value, rfl⟩ | hmark
  · -- a value in the place of a statement has no place, but it is a fault and no error
    exact ensures_throw (.fault _)
  · exact points_effectRule h hnode hmark

theorem points_enterRule {decl : Node} (hdecl : decl.IsPlaced M) (hmark : M decl.mark)
    (params : List Name) {args : List Value} (hargs : ∀ v ∈ args, v.Holds (Node.IsPlaced M)) :
    Points M (Value.Holds (Node.IsPlaced M))
      (enterRule cfg (execRule cfg deeper) decl params args) := by
  refine (ensures_checkCallDepth allowsCuts_isPlaced).bind fun _ _ => ?_
  refine (ensures_bindParams (fun p _ => allowsName_isPlaced p)
    (fun p _ => isPlaced_error hmark rfl) hargs).bind fun _ _ => ?_
  refine (points_need fun body hbody => hdecl.of_body? hbody).bind fun body hbody => ?_
  refine (points_need fun statements hs => hbody.of_statements? hs).bind fun statements hs => ?_
  exact (ensures_forM fun n hn => points_execRule h (hs n hn)).bind fun _ _ =>
    ensures_pure .undefined

theorem IsPlacing.above : (above cfg deeper).IsPlacing M where
  eval {node} hnode := by
    rcases hnode.here with ⟨value, rfl⟩ | hmark
    · exact ensures_throw (.fault _)
    · exact (points_evalRule h hnode hmark).weaken (fun v hv => ⟨hv, hmark⟩) fun _ he => he
  exec := points_execRule h
  resolve := points_resolveRule h
  enter hdecl hmark hargs := points_enterRule h hdecl hmark _ hargs

end Rules

theorem isPlacing_ofDepth (cfg : Config) (n : Nat) : (ofDepth cfg n).IsPlacing M := by
  induction n with
  | zero =>
    have htooDeep : ∀ {α : Type} {P : α → Prop}, Points M P tooDeep := ensures_throw (.error rfl)
    exact ⟨fun _ => htooDeep, fun _ => htooDeep, fun _ => htooDeep, fun _ _ _ => htooDeep⟩
  | succ n ih => exact ih.above

end Evaluator

/-! ## Programs -/

theorem points_declareFunctions {functions : List Node} (h : ∀ fn ∈ functions, fn.IsPlaced M) :
    Points M (fun _ => True) (declareFunctions functions) := by
  induction functions with
  | nil => exact ensures_pure trivial
  | cons fn rest ih =>
    obtain ⟨hfn, hrest⟩ := List.forall_mem_cons.1 h
    rcases hfn.here with ⟨value, rfl⟩ | hmark
    · exact ensures_throw (.fault _)
    · refine (points_need fun _ _ => trivial).bind fun name _ => ?_
      exact (ensures_declare (allowsName_isPlaced name) (.function hfn)
        (isPlaced_error hmark rfl)).bind fun _ _ => ih hrest

theorem points_runProgram {evaluator : Evaluator} (h : evaluator.IsPlacing M) {program : Node}
    (hprogram : ∀ n ∈ program.children, n.IsPlaced M) :
    Points M (fun _ => True) (runProgram evaluator program) := by
  cases program with
  | program functions globals length mark =>
    obtain ⟨hfunctions, hglobals⟩ := List.forall_mem_append.1 hprogram
    refine (points_declareFunctions hfunctions).bind fun _ _ => ?_
    refine (ensures_forM fun n hn => h.exec (hglobals n hn)).bind fun _ _ => ?_
    split
    · exact ensures_throw (.error rfl)
    next main hmain =>
      have hplaced := hfunctions main (List.mem_of_find?_eq_some hmain)
      refine (points_need fun _ _ => trivial).bind fun params _ => ?_
      split
      · refine ensures_catchReturn (ensures_openScope.bind fun _ _ => ?_) fun _ he _ => he
        refine (points_need fun body hbody => hplaced.of_body? hbody).bind fun body hbody => ?_
        refine (points_need fun statements hs => hbody.of_statements? hs).bind
          fun statements hs => ?_
        exact ensures_forM fun n hn => h.exec (hs n hn)
      · exact ensures_throw (.error rfl)
  | _ => exact ensures_throw (.fault _)

end Run

end Orus
