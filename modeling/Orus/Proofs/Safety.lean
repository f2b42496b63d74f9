import Orus.Proofs.Contracts.Running
import Orus.Proofs.Shape

/-! # What can stop a parsed program

While a program from source text runs, every function in reach is one that the parser
built. The evaluator then meets only trees it knows, breaks and continues reach the loop
around them, returns reach the call around them, and the only faults are those of
operators and builtins.
-/

namespace Orus

abbrev Value.IsSound (v : Value) : Prop :=
  v.Holds IsFunction

namespace Run

variable {α β : Type} {inFunction inLoop : Bool}

inductive IsValueFault : Fault → Prop where
  | infiniteDividend : IsValueFault .infiniteDividend
  | numberText {text : String} : Number.isNumberText text = true →
      Number.readNumber? text = none → IsValueFault (.numberText text)

/-- What may stop a part of a parsed program, depending on where it stands. -/
inductive Stop.IsExpected (inFunction inLoop : Bool) : Stop → Prop where
  | error {e : Error} : e.cause.kind ≠ .badSyntax → e.cause.kind ≠ .missingMain →
      IsExpected inFunction inLoop (.error e)
  | fault {fault : Fault} : IsValueFault fault → IsExpected inFunction inLoop (.fault fault)
  | breakLoop : inLoop = true → IsExpected inFunction inLoop .breakLoop
  | continueLoop : inLoop = true → IsExpected inFunction inLoop .continueLoop
  | returned {v : Value} : inFunction = true → v.IsSound →
      IsExpected inFunction inLoop (.returned v)

/-- A result with a property, or an expected stop; the functions in reach have the shape of
parsed functions. -/
abbrev SafeResult (inFunction inLoop : Bool) (P : α → Prop) :
    EStateM.Result Stop State α → Prop :=
  EnsuresResult IsFunction (Stop.IsExpected inFunction inLoop) P

abbrev Safe (inFunction inLoop : Bool) (P : α → Prop) (c : Eval α) : Prop :=
  Ensures IsFunction (Stop.IsExpected inFunction inLoop) P c

abbrev SafeValue (P : α → Prop) (c : Eval α) : Prop :=
  Safe false false P c

theorem Stop.IsExpected.weaken {e : Stop} (h : e.IsExpected false false) :
    e.IsExpected inFunction inLoop := by
  cases h with
  | error hs hm => exact .error hs hm
  | fault hf => exact .fault hf
  | breakLoop hl => cases hl
  | continueLoop hl => cases hl
  | returned hf => cases hf

theorem Stop.IsExpected.outside {e : Stop} (h : e.IsExpected true false)
    (hreturned : ∀ v, e ≠ .returned v) : e.IsExpected false false := by
  cases h with
  | error hs hm => exact .error hs hm
  | fault hf => exact .fault hf
  | breakLoop hl => cases hl
  | continueLoop hl => cases hl
  | @returned v => exact absurd rfl (hreturned v)

theorem Stop.IsExpected.past {e : Stop} (h : e.IsExpected inFunction true)
    (hbreak : e ≠ .breakLoop) (hcontinue : e ≠ .continueLoop) :
    e.IsExpected inFunction inLoop := by
  cases h with
  | error hs hm => exact .error hs hm
  | fault hf => exact .fault hf
  | breakLoop => exact absurd rfl hbreak
  | continueLoop => exact absurd rfl hcontinue
  | returned hf hv => exact .returned hf hv

theorem allowsCuts_isExpected : AllowsCuts (Stop.IsExpected inFunction inLoop) := by
  intro cause hcause
  simp only [isGraceful, Bool.or_eq_true, decide_eq_true_eq] at hcause
  rcases hcause with hkind | hkind <;> exact .error (hkind ▸ nofun) (hkind ▸ nofun)

theorem allowsName_str (name : String) :
    AllowsName (Stop.IsExpected inFunction inLoop) (.str name) :=
  nofun

theorem safe_anywhere {P : α → Prop} {c : Eval α} (h : SafeValue P c) :
    Safe inFunction inLoop P c :=
  h.weaken (fun _ ha => ha) fun _ he => he.weaken

theorem safe_fail {P : α → Prop} (mark : Option Mark) {cause : Cause}
    (hs : cause.kind ≠ .badSyntax) (hm : cause.kind ≠ .missingMain) :
    Safe inFunction inLoop P (fail mark cause) :=
  ensures_throw (.error hs hm)

theorem safe_ofExcept {P : α → Prop} {isDeep : Prop} {r : Except Failure α}
    (hr : FailsByValue isDeep r) (hok : ∀ a, r = .ok a → P a) (mark : Option Mark) :
    Safe inFunction inLoop P (ofExcept mark r) := by
  refine ensures_ofExcept hok (fun f hf => .fault ?_) fun e he => ?_
  · cases hr _ hf with
    | infiniteDividend => exact .infiniteDividend
    | numberText ht hn => exact .numberText ht hn
  · have hkind : e.cause.kind ≠ .badSyntax ∧ e.cause.kind ≠ .missingMain := by
      cases hr _ he with
      | mismatch hk => exact ⟨hk ▸ nofun, hk ▸ nofun⟩
      | division hk => exact ⟨hk ▸ nofun, hk ▸ nofun⟩
      | tooDeep => exact ⟨nofun, nofun⟩
    split <;> exact .error hkind.1 hkind.2

/-- A call catches the returns of its inside. -/
theorem safe_inCall {c : Eval Value} (h : Safe true false Value.IsSound c) :
    SafeValue Value.IsSound (inCall c) := by
  refine ensures_inCall h (fun v hv => ?_) fun _ he => he.outside
  cases hv with
  | returned _ hsound => exact hsound

/-- A loop catches the breaks and continues of its rounds. -/
theorem safe_loopRound {c : Eval Unit} (h : Safe inFunction true (fun _ => True) c) :
    Safe inFunction inLoop (fun _ => True) (loopRound c) :=
  ensures_loopRound h fun _ he => he.past

/-! ## The evaluator -/

/-- Evaluators that are safe for trees of the right shapes. -/
structure Evaluator.IsSafe (e : Evaluator) : Prop where
  eval {node : Node} : IsExpression node → SafeValue Value.IsSound (e.eval node)
  exec {inFunction inLoop : Bool} {node : Node} : IsStatement inFunction inLoop node →
    Safe inFunction inLoop (fun _ => True) (e.exec node)
  resolve {node : Node} : IsPath node →
    SafeValue (fun found => ∀ v, found = some v → v.IsSound) (e.resolve node)
  enter {decl : Node} {params : List Name} {args : List Value} : IsFunction decl →
    (∀ p ∈ params, ∃ text, p = Json.str text) → (∀ v ∈ args, v.IsSound) →
    Safe true false Value.IsSound (e.enter decl params args)

namespace Evaluator

section Rules

variable {cfg : Config} {deeper : Evaluator} (h : deeper.IsSafe)
include h

omit h in
theorem safe_textOf (v : Value) : Safe inFunction inLoop (fun _ => True) (textOf deeper v) :=
  safe_ofExcept (failsByValue_shown id) (fun _ _ => trivial) none

theorem safe_resolveRule {node : Node} (hnode : IsPath node) :
    SafeValue (fun found => ∀ v, found = some v → v.IsSound) (resolveRule deeper node) := by
  cases hnode with
  | identifier name mark =>
    refine (ensures_lookup (allowsName_str name)).bind fun found hfound => ?_
    cases found with
    | none => exact (ensures_warn _ _).bind fun _ _ => ensures_pure nofun
    | some v => exact ensures_pure hfound
  | field name mark htarget =>
    refine (h.resolve htarget).bind fun found hfound => ?_
    cases found with
    | none => exact ensures_pure nofun
    | some v =>
      dsimp only
      cases hitem : fieldOf? v (.str name) with
      | none => exact (ensures_warn _ _).bind fun _ _ => ensures_pure nofun
      | some item =>
        refine ensures_pure fun w hw => ?_
        cases hw
        exact holds_fieldOf? hitem

theorem safe_markerText {node : Node} (hnode : IsPath node) :
    SafeValue (fun _ => True) (markerText deeper node) := by
  refine (h.resolve hnode).bind fun found _ => ?_
  cases found with
  | none => exact ensures_pure trivial
  | some v =>
    cases v with
    | builtin b => exact (ensures_warn _ _).bind fun _ _ => ensures_pure trivial
    | function decl => exact (ensures_warn _ _).bind fun _ _ => ensures_pure trivial
    | _ => exact safe_textOf _

theorem safe_segmentText {node : Node} (hnode : IsSegment node) :
    SafeValue (fun _ => True) (segmentText deeper node) := by
  rcases hnode with ⟨text, rfl⟩ | hpath
  · exact ensures_pure trivial
  · cases hpath with
    | identifier name mark => exact safe_markerText h (.identifier name mark)
    | field name mark htarget => exact safe_markerText h (.field name mark htarget)

theorem safe_rangeBound (mark : Option Mark) {node : Node} (hnode : IsExpression node) :
    SafeValue (fun _ => True) (rangeBound deeper mark node) := by
  refine (h.eval hnode).bind fun v _ => ?_
  split
  · exact ensures_pure trivial
  · exact (safe_textOf v).bind fun _ _ => safe_fail mark nofun nofun

theorem safe_rangeOf {first last : Node} (hfirst : IsExpression first) (hlast : IsExpression last)
    (mark : Option Mark) : SafeValue (fun _ => True) (rangeOf deeper first last mark) := by
  refine (safe_rangeBound h mark hfirst).bind fun start _ => ?_
  exact (safe_rangeBound h mark hlast).bind fun stop _ => ensures_pure trivial

theorem safe_applyOperation {left : Value} {operation : Operation}
    (hright : IsExpression operation.right) :
    SafeValue Value.IsSound (applyOperation deeper left operation) := by
  have hverdict : SafeValue Value.IsSound (do
      return .ofBool (← deeper.eval operation.right).isTruthy) :=
    (h.eval hright).bind fun v _ => ensures_pure (.number _)
  unfold applyOperation
  split
  · split
    · exact hverdict
    · exact ensures_pure (.number _)
  split
  · split
    · exact ensures_pure (.number _)
    · exact hverdict
  · refine (h.eval hright).bind fun right _ => ?_
    exact safe_ofExcept (failsByValue_applyOperator _ _ _ _) (fun _ => holds_applyOperator) _

omit h in
theorem isExpression_leftEdge {node : Node} {done : List Operation} (hnode : IsExpression node)
    (hdone : ∀ o ∈ done, IsExpression o.right) :
    IsExpression (leftEdge node done).1 ∧ ∀ o ∈ (leftEdge node done).2, IsExpression o.right := by
  fun_induction leftEdge node done with
  | case1 op left right mark done ih =>
    cases hnode with
    | binary _ _ hleft hright => exact ih hleft (List.forall_mem_cons.2 ⟨hright, hdone⟩)
  | case2 node done => exact ⟨hnode, hdone⟩

theorem safe_evalBinary {node : Node} (hnode : IsExpression node) :
    SafeValue Value.IsSound (evalBinary deeper node) := by
  obtain ⟨hfirst, hoperations⟩ := isExpression_leftEdge hnode (List.forall_mem_nil _)
  exact (h.eval hfirst).bind fun v hv =>
    ensures_foldlM (fun left _ o ho => safe_applyOperation h (hoperations o ho)) hv

theorem safe_evalUnary (op : Name) {operand : Node} (hoperand : IsExpression operand)
    (mark : Option Mark) : SafeValue Value.IsSound (evalUnary deeper op operand mark) := by
  refine (h.eval hoperand).bind fun v _ => ?_
  split
  · exact ensures_pure (.number _)
  · split
    · exact ensures_pure (.number _)
    · exact safe_fail mark nofun nofun

omit h in
theorem safe_pickItem (key : Value) (mark : Option Mark) (length : Nat) {item : Int → Option Value}
    (hitem : ∀ i v, item i = some v → v.IsSound) :
    SafeValue Value.IsSound (pickItem deeper key mark length item) := by
  unfold pickItem
  split
  · exact (safe_textOf key).bind fun _ _ => safe_fail mark nofun nofun
  · split
    next v hv => exact ensures_pure (hitem _ v hv)
    · exact (safe_textOf key).bind fun _ _ => safe_fail mark nofun nofun

theorem safe_evalIndex {target position : Node} (htarget : IsExpression target)
    (hposition : IsExpression position) (mark : Option Mark) :
    SafeValue Value.IsSound (evalIndex deeper target position mark) := by
  refine (h.eval htarget).bind fun container hcontainer => (h.eval hposition).bind fun key _ => ?_
  split
  · refine safe_pickItem key mark _ fun i v hv => ?_
    obtain ⟨c, -, rfl⟩ := Option.map_eq_some_iff.1 hv
    exact .text _
  · exact safe_pickItem key mark _ fun i v hv => hcontainer.of_mem v (mem_of_itemAt? hv)
  · exact safe_fail mark nofun nofun

theorem safe_callFunction {decl : Node} (hdecl : IsFunction decl) {args : List Value}
    (hargs : ∀ v ∈ args, v.IsSound) (mark : Option Mark) :
    SafeValue Value.IsSound (callFunction deeper decl args mark) := by
  have hshape := hdecl
  obtain ⟨name, params, body, declMark, rfl, hparams, -⟩ := hdecl
  change SafeValue _ (if args.length ≠ params.length then fail mark _ else inCall _)
  split
  · exact safe_fail mark nofun nofun
  · exact safe_inCall (h.enter hshape hparams hargs)

omit h in
theorem safe_callBuiltin (b : Builtin) {args : List Value} (hargs : ∀ v ∈ args, v.IsSound)
    (mark : Option Mark) : SafeValue Value.IsSound (callBuiltin cfg deeper b args mark) := by
  have happly : (∀ n, b.arity = some n → args.length = n) →
      SafeValue Value.IsSound (ofExcept mark (b.apply ⟨cfg.timestamp, deeper.depth⟩ args)) :=
    fun harity => safe_ofExcept (failsByValue_apply _ harity) (fun _ => holds_apply hargs) mark
  unfold callBuiltin
  cases harity : b.arity with
  | none => exact happly fun n hn => nomatch harity.symm.trans hn
  | some n =>
    dsimp only
    split
    · exact safe_fail mark nofun nofun
    next hlen =>
      refine happly fun m hm => ?_
      cases harity.symm.trans hm
      exact Decidable.of_not_not hlen

theorem safe_evalCall (name : String) {argNodes : List Node}
    (hargs : ∀ n ∈ argNodes, IsExpression n) (mark : Option Mark) :
    SafeValue Value.IsSound (evalCall cfg deeper (.str name) argNodes mark) := by
  refine (ensures_lookup (allowsName_str name)).bind fun found hfound => ?_
  cases found with
  | none => exact safe_fail mark nofun nofun
  | some callee =>
    refine (ensures_mapM fun n hn => h.eval (hargs n hn)).bind fun args hargs => ?_
    cases hfound callee rfl with
    | builtin b => exact safe_callBuiltin b hargs mark
    | function hdecl => exact safe_callFunction h hdecl hargs mark
    | _ => exact safe_fail mark nofun nofun

theorem safe_evalRule {node : Node} (hnode : IsExpression node) :
    SafeValue Value.IsSound (evalRule cfg deeper node) := by
  cases hnode with
  | number x mark => exact ensures_pure (.number x)
  | nilLiteral mark => exact ensures_pure .undefined
  | string mark hsegments =>
    refine (ensures_mapM fun n hn => safe_segmentText h (hsegments n hn)).bind fun texts _ => ?_
    exact ensures_pure (.text _)
  | identifier name mark => exact ensures_getVariable (allowsName_str name) (.error nofun nofun)
  | array mark helements =>
    exact (ensures_mapM fun n hn => h.eval (helements n hn)).bind fun items hitems =>
      ensures_pure (.array hitems)
  | range mark hfirst hlast =>
    refine (safe_rangeOf h hfirst hlast mark).bind fun bounds _ => ?_
    exact (ensures_rangeItems allowsCuts_isExpected _ _ (List.forall_mem_nil _)).bind
      fun items hitems => ensures_pure (.array hitems)
  | unary op mark hoperand => exact safe_evalUnary h op hoperand mark
  | binary op mark hleft hright => exact safe_evalBinary h (.binary op mark hleft hright)
  | assignment name mark hexpr =>
    refine (h.eval hexpr).bind fun v hv => ?_
    refine (ensures_setVariable (allowsName_str name) hv (.error nofun nofun)).bind fun _ _ => ?_
    refine (ensures_logFrom 2 ?_).bind fun _ _ => ensures_pure hv
    exact (safe_textOf v).bind fun _ _ => ensures_pure trivial
  | call name mark hargs => exact safe_evalCall h name hargs mark
  | index mark htarget hposition => exact safe_evalIndex h htarget hposition mark
  | field name mark htarget =>
    refine (h.eval htarget).bind fun v _ => ?_
    split
    next item hitem => exact ensures_pure (holds_fieldOf? hitem)
    · exact safe_fail mark nofun nofun

/-! ## Statements -/

theorem safe_statements {statements : List Node}
    (hstatements : ∀ n ∈ statements, IsStatement inFunction inLoop n) :
    Safe inFunction inLoop (fun _ => True) (statements.forM deeper.exec) :=
  ensures_forM fun n hn => h.exec (hstatements n hn)

theorem safe_execBlock {statements : List Node} (mark : Option Mark)
    (hstatements : ∀ n ∈ statements, IsStatement inFunction inLoop n) :
    Safe inFunction inLoop (fun _ => True) (execBlock deeper (.block statements mark)) :=
  ensures_inScope (safe_statements h hstatements)

theorem safe_forRound (name : String) {statements : List Node} (bodyMark mark : Option Mark)
    (hstatements : ∀ n ∈ statements, IsStatement inFunction true n) {item : Value}
    (hitem : item.IsSound) :
    Safe inFunction inLoop (fun _ => True)
      (forRound cfg deeper (.str name) (.block statements bodyMark) mark item) := by
  refine (ensures_loopTick allowsCuts_isExpected).bind fun _ _ => ensures_inScope ?_
  refine (ensures_declare (allowsName_str name) hitem (.error nofun nofun)).bind fun _ _ => ?_
  refine (ensures_logFrom 3 ?_).bind fun _ _ => ?_
  · exact (safe_textOf item).bind fun _ _ => ensures_pure trivial
  · exact safe_loopRound (safe_statements h hstatements)

theorem safe_execForItems (name : String) {iterable : Node} (hiterable : IsExpression iterable)
    {statements : List Node} (bodyMark mark : Option Mark)
    (hstatements : ∀ n ∈ statements, IsStatement inFunction true n) :
    Safe inFunction inLoop (fun _ => True)
      (execForItems cfg deeper (.str name) iterable (.block statements bodyMark) mark) := by
  refine (safe_anywhere (h.eval hiterable)).bind fun v hv => ?_
  split
  · exact ensures_forItems fun w hw =>
      safe_forRound h name bodyMark mark hstatements (hv.of_mem w hw)
  · exact safe_fail _ (by simp [Cause.kind]) (by simp [Cause.kind])

theorem safe_execFor (name : String) {iterable : Node} (hiterable : IsExpression iterable)
    {statements : List Node} (bodyMark mark : Option Mark)
    (hstatements : ∀ n ∈ statements, IsStatement inFunction true n) :
    Safe inFunction inLoop (fun _ => True)
      (execFor cfg deeper (.str name) iterable (.block statements bodyMark) mark) := by
  unfold execFor
  split
  · cases hiterable with
    | range _ hfirst hlast =>
      refine (safe_anywhere (safe_rangeOf h hfirst hlast _)).bind fun bounds _ => ?_
      exact ensures_forRange (fun v hv => safe_forRound h name bodyMark mark hstatements hv) _ _
  · exact safe_execForItems h name hiterable bodyMark mark hstatements

theorem safe_execWhile {cond : Node} (hcond : IsExpression cond) {statements : List Node}
    (bodyMark : Option Mark) (hstatements : ∀ n ∈ statements, IsStatement inFunction true n) :
    Safe inFunction inLoop (fun _ => True)
      (execWhile cfg deeper cond (.block statements bodyMark)) := by
  have hholds : Safe inFunction inLoop (fun _ => True) (evalCondition deeper cond) :=
    (safe_anywhere (h.eval hcond)).bind fun _ _ => ensures_pure trivial
  intro s hs
  exact ensures_whileRounds allowsCuts_isExpected hholds
    (safe_loopRound (safe_execBlock h bodyMark hstatements)) _ s hs

theorem safe_execIf {cond : Node} (hcond : IsExpression cond) {statements : List Node}
    (thenMark : Option Mark) (hstatements : ∀ n ∈ statements, IsStatement inFunction inLoop n)
    {elsePart : Node}
    (helse : elsePart = .absent ∨ IsBlock inFunction inLoop elsePart ∨
      IsConditional inFunction inLoop elsePart) :
    Safe inFunction inLoop (fun _ => True)
      (execIf cfg deeper cond (.block statements thenMark) elsePart) := by
  refine (safe_anywhere (h.eval hcond)).bind fun v _ => (ensures_logFrom 3 ?_).bind fun _ _ => ?_
  · exact (safe_textOf v).bind fun _ _ => ensures_pure trivial
  · split
    · exact safe_execBlock h thenMark hstatements
    · rcases helse with rfl | ⟨others, elseMark, rfl, hothers⟩ | ⟨hchain, _, _, _, _, rfl⟩
      · exact ensures_pure trivial
      · exact safe_execBlock h elseMark hothers
      · exact h.exec hchain

theorem safe_effectRule {node : Node} (hnode : IsStatement inFunction inLoop node) :
    Safe inFunction inLoop (fun _ => True) (effectRule cfg deeper node) := by
  cases hnode with
  | letDecl name isMutable mark hinit =>
    refine (safe_anywhere (h.eval hinit)).bind fun v hv => ?_
    refine (ensures_declare (allowsName_str name) hv (.error nofun nofun)).bind fun _ _ => ?_
    exact ensures_logFrom 2 ((safe_textOf v).bind fun _ _ => ensures_pure trivial)
  | assignment hexpr => exact (safe_anywhere (h.eval hexpr)).bind fun _ _ => ensures_pure trivial
  | expression mark hexpr =>
    exact (safe_anywhere (h.eval hexpr)).bind fun _ _ =>
      ensures_pure trivial
  | @printLine _ expr mark hexpr =>
    rcases hexpr with rfl | hexpr
    · exact ensures_emit allowsCuts_isExpected ""
    · have hprint : Safe inFunction inLoop (fun _ => True)
          (do emit cfg (← textOf deeper (← deeper.eval expr))) :=
        (safe_anywhere (h.eval hexpr)).bind fun v _ => (safe_textOf v).bind fun line _ =>
          ensures_emit allowsCuts_isExpected line
      cases hexpr <;> exact hprint
  | block mark hstatements => exact safe_execBlock h mark hstatements
  | ifOnly thenMark mark hcond hstatements =>
    exact safe_execIf h hcond thenMark hstatements (.inl rfl)
  | ifElse thenMark elseMark mark hcond hstatements hothers =>
    exact safe_execIf h hcond thenMark hstatements (.inr (.inl ⟨_, _, rfl, hothers⟩))
  | ifChain thenMark mark hcond hstatements hchain =>
    exact safe_execIf h hcond thenMark hstatements (.inr (.inr ⟨hchain, _, _, _, _, rfl⟩))
  | forIn name bodyMark mark hiterable hstatements =>
    exact safe_execFor h name hiterable bodyMark mark hstatements
  | whileLoop bodyMark mark hcond hstatements => exact safe_execWhile h hcond bodyMark hstatements
  | breakLoop mark => exact ensures_throw (.breakLoop rfl)
  | continueLoop mark => exact ensures_throw (.continueLoop rfl)
  | @returnWith _ value mark hfunction hvalue =>
    rcases hvalue with rfl | hvalue
    · exact ensures_throw (.returned hfunction .undefined)
    · have hreturn : Safe inFunction inLoop (fun _ : Unit => True)
          (do throw (.returned (← deeper.eval value))) :=
        (safe_anywhere (h.eval hvalue)).bind fun v hv => ensures_throw (.returned hfunction hv)
      cases hvalue <;> exact hreturn

theorem safe_execRule {node : Node} (hnode : IsStatement inFunction inLoop node) :
    Safe inFunction inLoop (fun _ => True) (execRule cfg deeper node) :=
  (ensures_tick allowsCuts_isExpected node.mark).bind fun _ _ => safe_effectRule h hnode

theorem safe_enterRule {decl : Node} (hdecl : IsFunction decl) {params : List Name}
    (hparams : ∀ p ∈ params, ∃ text, p = Json.str text) {args : List Value}
    (hargs : ∀ v ∈ args, v.IsSound) :
    Safe true false Value.IsSound (enterRule cfg (execRule cfg deeper) decl params args) := by
  obtain ⟨name, declared, body, mark, rfl, -, ⟨statements, bodyMark, rfl, hstatements⟩⟩ := hdecl
  have hnames : ∀ p ∈ params, AllowsName (Stop.IsExpected true false) p := by
    intro p hp
    obtain ⟨text, rfl⟩ := hparams p hp
    exact allowsName_str text
  refine (ensures_checkCallDepth allowsCuts_isExpected).bind fun _ _ => ?_
  refine (ensures_bindParams hnames (fun _ _ => .error nofun nofun) hargs).bind fun _ _ => ?_
  exact (ensures_forM fun n hn => safe_execRule h (hstatements n hn)).bind fun _ _ =>
    ensures_pure .undefined

theorem IsSafe.above : (above cfg deeper).IsSafe where
  eval := safe_evalRule h
  exec := safe_execRule h
  resolve := safe_resolveRule h
  enter hdecl hparams hargs := safe_enterRule h hdecl hparams hargs

end Rules

theorem isSafe_ofDepth (cfg : Config) (n : Nat) : (ofDepth cfg n).IsSafe := by
  induction n with
  | zero =>
    have htooDeep : ∀ {α : Type} {P : α → Prop} {inFunction inLoop : Bool},
        Safe inFunction inLoop P tooDeep := safe_fail none nofun nofun
    exact ⟨fun _ => htooDeep, fun _ => htooDeep, fun _ => htooDeep, fun _ _ _ => htooDeep⟩
  | succ n ih => exact ih.above

end Evaluator

/-! ## Programs -/

theorem safe_declareFunctions {functions : List Node} (h : ∀ fn ∈ functions, IsFunction fn) :
    SafeValue (fun _ => True) (declareFunctions functions) := by
  induction functions with
  | nil => exact ensures_pure trivial
  | cons fn rest ih =>
    obtain ⟨hfn, hrest⟩ := List.forall_mem_cons.1 h
    have hvalue := Value.Holds.function hfn
    obtain ⟨name, params, body, mark, rfl, -, -⟩ := hfn
    exact (ensures_declare (allowsName_str name) hvalue (.error nofun nofun)).bind fun _ _ =>
      ih hrest

/-- Outside of every block a name is declared among the globals, once. -/
theorem declare_global (name : String) (v : Value) (mark : Option Mark) {s : State}
    (hs : s.scopes.locals = []) :
    declare (.str name) v mark s = .error (.error ⟨.redeclared (.str name), mark⟩) s ∨
      s.scopes.globals.declares (.str name) = false ∧
      ∃ t, declare (.str name) v mark s = .ok () t ∧ t.scopes.locals = [] ∧
        ∀ n, t.scopes.globals.declares n =
          (s.scopes.globals.declares n || Name.same (.str name) n) := by
  have hdeclare := declare_eq (.str name) v mark s
  simp only [isUsable_str, ↓reduceIte, Chain.declare?, hs, Frame.declare?] at hdeclare
  cases hold : s.scopes.globals.declares (.str name) with
  | true => exact .inl (by simpa only [hold, ↓reduceIte, Option.map_none] using hdeclare)
  | false =>
    simp only [hold, Bool.false_eq_true, ↓reduceIte, Option.map_some] at hdeclare
    refine .inr ⟨rfl, _, hdeclare, rfl, fun n => ?_⟩
    simp [Frame.declares]

/-- Either some function is declared twice, or the functions have names of their own that
were not declared before. -/
theorem declareFunctions_cases {functions : List Node} (h : ∀ fn ∈ functions, IsFunction fn)
    {s : State} (hs : s.scopes.locals = []) :
    (∃ name mark t, declareFunctions functions s = .error (.error ⟨.redeclared name, mark⟩) t) ∨
      (functions.Pairwise fun f g => f.name? ≠ g.name?) ∧
      ∀ fn ∈ functions, ∀ name, fn.name? = some name → s.scopes.globals.declares name = false := by
  induction functions generalizing s with
  | nil => exact .inr ⟨.nil, nofun⟩
  | cons fn rest ih =>
    obtain ⟨hfn, hrest⟩ := List.forall_mem_cons.1 h
    obtain ⟨name, params, body, mark, rfl, -, -⟩ := hfn
    change (∃ _ _ _, (declare (.str name) _ mark >>= fun _ => declareFunctions rest) s = _) ∨ _
    rcases declare_global name (.function (.fnDecl (.str name) params body mark)) mark hs with
      herror | ⟨hnew, t, hok, ht, hdeclares⟩
    · exact .inl ⟨_, _, _, bind_of_error herror⟩
    rw [bind_of_ok hok]
    rcases ih hrest ht with hleft | ⟨hpairwise, hothers⟩
    · exact .inl hleft
    refine .inr ⟨List.pairwise_cons.2 ⟨fun g hg hname => ?_, hpairwise⟩, ?_⟩
    · have hg := hothers g hg (.str name) hname.symm
      simp [hdeclares, Name.same_str] at hg
    · refine List.forall_mem_cons.2 ⟨fun n hn => ?_, fun g hg n hn => ?_⟩
      · cases hn
        exact hnew
      · have hg := hothers g hg n hn
        rw [hdeclares, Bool.or_eq_false_iff] at hg
        exact hg.1

theorem eq_of_name_eq {functions : List Node} (h : functions.Pairwise fun f g => f.name? ≠ g.name?)
    {f g : Node} (hf : f ∈ functions) (hg : g ∈ functions) (hname : f.name? = g.name?) : f = g := by
  induction functions with
  | nil => cases hf
  | cons fn rest ih =>
    obtain ⟨hfn, hrest⟩ := List.pairwise_cons.1 h
    rcases List.mem_cons.1 hf with rfl | hfrest <;> rcases List.mem_cons.1 hg with rfl | hgrest
    · rfl
    · exact absurd hname (hfn g hgrest)
    · exact absurd hname.symm (hfn f hfrest)
    · exact ih hrest hfrest hgrest

/-- Among functions with names of their own, `main` is the one without parameters. -/
theorem findMain_of_pairwise {functions : List Node}
    (h : functions.Pairwise fun f g => f.name? ≠ g.name?)
    (hmain : functions.any Syntax.Grammar.isMain = true) :
    ∃ main, findMain functions = some main ∧ main ∈ functions ∧ main.params? = some [] := by
  obtain ⟨main, hmem, hisMain⟩ := List.any_eq_true.1 hmain
  have hshape : main.name? = some (.str "main") ∧ main.params? = some [] := by
    cases main with
    | fnDecl name params body mark =>
      simp only [Syntax.Grammar.isMain, Bool.and_eq_true, decide_eq_true_eq,
        List.isEmpty_iff] at hisMain
      obtain ⟨rfl, rfl⟩ := hisMain
      exact ⟨rfl, rfl⟩
    | _ => cases hisMain
  cases hfind : findMain functions with
  | none =>
    have hnone := List.find?_eq_none.1 hfind main hmem
    simp only [hshape.1, decide_true, not_true_eq_false] at hnone
  | some found =>
    have hname : found.name? = some (.str "main") := by simpa using List.find?_some hfind
    have hfound := List.mem_of_find?_eq_some hfind
    have heq := eq_of_name_eq h hfound hmem (hname.trans hshape.1.symm)
    exact ⟨found, rfl, hfound, heq ▸ hshape.2⟩

/-- A program from source text is stopped by nothing but errors of its own and faults of
operators and builtins. -/
theorem safe_runProgram {evaluator : Evaluator} (h : evaluator.IsSafe) {program : Node}
    (hprogram : IsProgram program) :
    SafeResult false false (fun _ => True) (runProgram evaluator program {}) := by
  obtain ⟨functions, globals, length, mark, rfl, hfunctions, hglobals, hmain⟩ := hprogram
  have hdeclared := safe_declareFunctions hfunctions
  have hcases := declareFunctions_cases hfunctions (s := {}) rfl
  change SafeResult _ _ _ ((declareFunctions functions >>= _) {})
  cases hd : declareFunctions functions {} with
  | error e t =>
    rw [bind_of_error hd]
    exact hdeclared.of_error Chain.holds_initial hd
  | ok a t =>
    obtain ⟨-, ht⟩ := hdeclared.of_ok Chain.holds_initial hd
    rw [hd] at hcases
    rw [bind_of_ok hd]
    obtain ⟨hpairwise, -⟩ := hcases.resolve_left fun ⟨_, _, _, herror⟩ => nomatch herror
    obtain ⟨main, hfind, hmem, hparams⟩ := findMain_of_pairwise hpairwise hmain
    obtain ⟨name, params, body, mark, rfl, -, ⟨statements, bodyMark, rfl, hstatements⟩⟩ :=
      hfunctions main hmem
    cases hparams
    refine Ensures.bind (ensures_forM fun n hn => h.exec (hglobals n hn)) (fun _ _ => ?_) t ht
    rw [hfind]
    have hbody : Safe true false (fun _ => True) (statements.forM evaluator.exec) :=
      ensures_forM fun n hn => h.exec (hstatements n hn)
    exact ensures_catchReturn (ensures_openScope.bind fun _ _ => hbody) fun _ he => he.outside

end Run

end Orus
