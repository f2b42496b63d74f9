import Orus.Run.Result

/-! # Properties of whole evaluations

Many facts about a run, or about several runs side by side, are kept by every way of
putting evaluations together and hold of the few operations that touch the state. Such
a fact holds of the evaluator as a whole. It is stated here once for a family of
evaluations, one for each index, which all do the same with their own configuration.
-/

namespace Orus.Run

def Stop.isGraceful : Stop → Bool
  | .error e => Run.isGraceful e
  | _ => false

/-- Evaluations that make a line of the log: they leave the state as it is, and only nesting
can stop them. -/
def IsLogLine (line : Eval String) : Prop :=
  ∀ s, (∃ text, line s = .ok text s) ∨ line s = .error (.error ⟨.nestingTooDeep, none⟩) s

theorem isLogLine_textOf (deeper : Evaluator) (v : Value) (line : String → String) :
    IsLogLine (deeper.textOf v >>= fun text => pure (line text)) := by
  intro s
  unfold Evaluator.textOf Builtin.shown
  cases v.displayWithin deeper.depth with
  | some text => exact .inl ⟨line text, rfl⟩
  | none => exact .inr rfl

variable {ι : Type}

/-- A property of families of evaluations that all building blocks of expressions have and
that is kept when they are put together. The second property is that of the inside of a
call. -/
structure Expressive (cfg : ι → Config) (depth : ι → Nat)
    (P : ∀ {α : Type}, (ι → Eval α) → Prop) (Inside : (ι → Eval Value) → Prop) : Prop where
  pure {α : Type} (a : α) : P fun _ => (pure a : Eval α)
  bind {α β : Type} {c : ι → Eval α} {k : ι → α → Eval β} :
    P c → (∀ a, P fun i => k i a) → P fun i => c i >>= k i
  throw {α : Type} {stop : Stop} (h : stop.isGraceful = false) :
    P fun _ => (throw stop : Eval α)
  lookup (name : Name) : P fun _ => lookup name
  setVariable (name : Name) (v : Value) (mark : Option Mark) :
    P fun _ => setVariable name v mark
  warn (mark : Option Mark) (message : String) : P fun _ => warn mark message
  shown (v : Value) : P fun i => ofExcept none (Builtin.shown (depth i) v)
  operator (mark : Option Mark) (op : Name) (a b : Value) :
    P fun i => ofExcept mark (applyOperator (depth i) op a b)
  builtin (mark : Option Mark) {b : Builtin} {args : List Value}
    (hargs : ∀ n, b.arity = some n → args.length = n) :
    P fun i => ofExcept mark (b.apply ⟨(cfg i).timestamp, depth i⟩ args)
  logFrom (level : Nat) {line : ι → Eval String} :
    P line → (∀ i, IsLogLine (line i)) → P fun i => logFrom (cfg i) level (line i)
  loopTick : P fun i => loopTick (cfg i)
  inCall {c : ι → Eval Value} : Inside c → P fun i => inCall (c i)

/-- A property of families of evaluations that every statement other than a declaration
has as soon as what runs in its inner scopes has the second property. -/
structure Blockwise (cfg : ι → Config) (depth : ι → Nat)
    (P Body : ∀ {α : Type}, (ι → Eval α) → Prop) (Inside : (ι → Eval Value) → Prop) : Prop
    extends Expressive cfg depth P Inside where
  within : Expressive cfg depth Body Inside
  tick (mark : Option Mark) : P fun i => tick (cfg i) mark
  emit (line : String) : P fun i => emit (cfg i) line
  declare (name : Name) (v : Value) (mark : Option Mark) : Body fun _ => declare name v mark
  loopRound {c : ι → Eval Unit} : Body c → Body fun i => loopRound (c i)
  inScope {α : Type} {c : ι → Eval α} : Body c → P fun i => inScope (c i)
  enter {c : ι → Eval Value} :
    Body c → Inside fun i => checkCallDepth (cfg i) >>= fun _ => c i
  whileLoop {cond : ι → Eval Bool} {body : ι → Eval Unit} :
    P cond → P body → P fun i => whileLoop (cfg i) (cond i) (body i)

structure Compositional (cfg : ι → Config) (depth : ι → Nat)
    (P : ∀ {α : Type}, (ι → Eval α) → Prop) (Inside : (ι → Eval Value) → Prop) : Prop
    extends Expressive cfg depth P Inside where
  declare (name : Name) (v : Value) (mark : Option Mark) : P fun _ => declare name v mark
  tick (mark : Option Mark) : P fun i => tick (cfg i) mark
  emit (line : String) : P fun i => emit (cfg i) line
  openScope : P fun _ => openScope
  inScope {α : Type} {c : ι → Eval α} : P c → P fun i => inScope (c i)
  enter {c : ι → Eval Value} : P c → Inside fun i => checkCallDepth (cfg i) >>= fun _ => c i
  catchReturn {c : ι → Eval Unit} : P c → P fun i => catchReturn (c i)
  loopRound {c : ι → Eval Unit} : P c → P fun i => loopRound (c i)
  whileLoop {cond : ι → Eval Bool} {body : ι → Eval Unit} :
    P cond → P body → P fun i => whileLoop (cfg i) (cond i) (body i)

/-- The name that a statement declares in the scope it is executed in, if it declares one. -/
def declaredName? : Node → Option Name
  | .letDecl name .. => some name
  | _ => none

/-- What is left of a run once the functions are declared: the globals and then `main`, if
there is one. -/
def runDeclared (evaluator : Evaluator) (globals : List Node) (main : Option Node) :
    Eval Unit := do
  globals.forM evaluator.exec
  match main with
  | none => fail none .missingMain
  | some main =>
    let params ← need main.params?
    if params.isEmpty then catchReturn (runMain evaluator main)
    else fail none .missingMain

theorem runProgram_eq (evaluator : Evaluator) (functions globals : List Node) (length : Int)
    (mark : Option Mark) :
    runProgram evaluator (.program functions globals length mark) =
      declareFunctions functions >>= fun _ =>
        runDeclared evaluator globals (findMain functions) := rfl

/-! ## The left edge of an operator tree -/

theorem sizeOf_leftEdge_le (node : Node) (done : List Operation) :
    sizeOf (leftEdge node done).1 ≤ sizeOf node := by
  fun_induction leftEdge node done with
  | case1 op left right mark done ih =>
    simp only [Node.binary.sizeOf_spec]
    omega
  | case2 node done => exact Nat.le_refl _

theorem sizeOf_right_lt_of_mem_leftEdge (node : Node) (done : List Operation) {o : Operation}
    (ho : o ∈ (leftEdge node done).2) : o ∈ done ∨ sizeOf o.right < sizeOf node := by
  fun_induction leftEdge node done with
  | case1 op left right mark done ih =>
    have hnode : sizeOf left < sizeOf (Node.binary op left right mark) ∧
        sizeOf right < sizeOf (Node.binary op left right mark) := by
      simp only [Node.binary.sizeOf_spec]
      omega
    rcases ih ho with hmem | hlt
    · rcases List.mem_cons.1 hmem with rfl | hmem
      · exact Or.inr hnode.2
      · exact Or.inl hmem
    · exact Or.inr (Nat.lt_trans hlt hnode.1)
  | case2 node done => exact Or.inl ho

section Properties

variable {cfg : ι → Config} {depth : ι → Nat} {P : ∀ {α : Type}, (ι → Eval α) → Prop}
  {Inside : (ι → Eval Value) → Prop}

namespace Expressive

/-! ## Small evaluations -/

section Small

variable (h : Expressive cfg depth P Inside)
include h

theorem map {α β : Type} {c : ι → Eval α} (f : α → β) (hc : P c) :
    P fun i => c i >>= fun a => (Pure.pure (f a) : Eval β) :=
  h.bind hc fun a => h.pure (f a)

theorem fail {α : Type} (mark : Option Mark) {cause : Cause}
    (hc : isGraceful ⟨cause, mark⟩ = false) :
    P fun _ => (fail mark cause : Eval α) :=
  h.throw hc

theorem breakDown {α : Type} (fault : Fault) : P fun _ => (breakDown fault : Eval α) :=
  h.throw rfl

theorem need {α : Type} (a : Option α) : P fun _ => need a := by
  cases a with
  | none => exact h.breakDown _
  | some a => exact h.pure a

theorem getVariable (name : Name) (mark : Option Mark) : P fun _ => getVariable name mark := by
  refine h.bind (h.lookup name) fun v => ?_
  cases v with
  | none => exact h.fail mark rfl
  | some v => exact h.pure v

theorem forM {α : Type} {f : ι → α → Eval Unit} (xs : List α) (hf : ∀ x ∈ xs, P fun i => f i x) :
    P fun i => xs.forM (f i) := by
  induction xs with
  | nil => exact h.pure ()
  | cons x xs ih =>
    simp only [List.forM]
    exact h.bind (hf x List.mem_cons_self) fun _ => ih fun y hy => hf y (List.mem_cons_of_mem x hy)

theorem mapM {α β : Type} {f : ι → α → Eval β} (xs : List α) (hf : ∀ x ∈ xs, P fun i => f i x) :
    P fun i => xs.mapM (f i) := by
  induction xs with
  | nil => exact h.pure []
  | cons x xs ih =>
    simp only [List.mapM_cons]
    refine h.bind (hf x List.mem_cons_self) fun y => ?_
    exact h.map _ (ih fun z hz => hf z (List.mem_cons_of_mem x hz))

theorem foldlM {α β : Type} {f : ι → β → α → Eval β} (xs : List α)
    (hf : ∀ b, ∀ x ∈ xs, P fun i => f i b x) (b : β) : P fun i => xs.foldlM (f i) b := by
  induction xs generalizing b with
  | nil => exact h.pure b
  | cons x xs ih =>
    simp only [List.foldlM_cons]
    exact h.bind (hf b x List.mem_cons_self) fun c =>
      ih (fun d y hy => hf d y (List.mem_cons_of_mem x hy)) c

theorem forItems {round : ι → Value → Eval Bool} (hr : ∀ v, P fun i => round i v)
    (items : List Value) : P fun i => forItems (round i) items := by
  induction items with
  | nil => exact h.pure ()
  | cons item rest ih =>
    refine h.bind (hr item) fun goOn => ?_
    cases goOn with
    | false => exact h.pure ()
    | true => exact ih

theorem forRange {round : ι → Value → Eval Bool} (hr : ∀ v, P fun i => round i v)
    (count : Nat) (first : Int) : P fun i => forRange (round i) count first := by
  induction count generalizing first with
  | zero => exact h.pure ()
  | succ n ih =>
    refine h.bind (hr _) fun goOn => ?_
    cases goOn with
    | false => exact h.pure ()
    | true => exact ih (first + 1)

theorem rangeItems (count : Nat) (first : Int) (done : List Value) :
    P fun i => Evaluator.rangeItems (cfg i) count first done := by
  induction count generalizing first done with
  | zero => exact h.pure done.reverse
  | succ n ih => exact h.bind h.loopTick fun _ => ih (first + 1) _

end Small

/-! ## Expressions -/

section Rules

variable (h : Expressive cfg depth P Inside) {deeper : ι → Evaluator}
  (hd : ∀ i, (deeper i).depth = depth i)
include h hd

theorem textOf (v : Value) : P fun i => Evaluator.textOf (deeper i) v := by
  simp only [Evaluator.textOf, hd]
  exact h.shown v

theorem logText (level : Nat) (v : Value) (line : String → String) :
    P fun i => Run.logFrom (cfg i) level
      (Evaluator.textOf (deeper i) v >>= fun text => Pure.pure (line text)) :=
  h.logFrom level (h.map line (h.textOf hd v)) fun i => isLogLine_textOf (deeper i) v line

omit hd in
theorem resolveRule (node : Node) (heval : P fun i => (deeper i).eval node)
    (hresolve : ∀ n, sizeOf n < sizeOf node → P fun i => (deeper i).resolve n) :
    P fun i => Evaluator.resolveRule (deeper i) node := by
  cases node with
  | identifier name mark =>
    refine h.bind (h.lookup name) fun v => ?_
    cases v with
    | none => exact h.bind (h.warn mark _) fun _ => h.pure none
    | some v => exact h.pure (some v)
  | field target name mark =>
    have hlt : sizeOf target < sizeOf (Node.field target name mark) := by
      simp only [Node.field.sizeOf_spec]
      omega
    refine h.bind (hresolve target hlt) fun v => ?_
    cases v with
    | none => exact h.pure none
    | some v =>
      dsimp only
      cases fieldOf? v name with
      | none => exact h.bind (h.warn mark _) fun _ => h.pure none
      | some item => exact h.pure (some item)
  | _ => exact h.map some heval

theorem markerText (node : Node) (hresolve : P fun i => (deeper i).resolve node) :
    P fun i => Evaluator.markerText (deeper i) node := by
  refine h.bind hresolve fun v => ?_
  cases v with
  | none => exact h.pure placeholder
  | some v =>
    cases v with
    | builtin b => exact h.bind (h.warn _ _) fun _ => h.pure placeholder
    | function decl => exact h.bind (h.warn _ _) fun _ => h.pure placeholder
    | _ => exact h.textOf hd _

theorem segmentText (node : Node) (hresolve : P fun i => (deeper i).resolve node) :
    P fun i => Evaluator.segmentText (deeper i) node := by
  cases node with
  | raw value =>
    cases value with
    | str s => exact h.pure s
    | _ => exact h.markerText hd _ hresolve
  | _ => exact h.markerText hd _ hresolve

theorem rangeBound (mark : Option Mark) (node : Node) (heval : P fun i => (deeper i).eval node) :
    P fun i => Evaluator.rangeBound (deeper i) mark node := by
  refine h.bind heval fun v => ?_
  cases v.toInt? with
  | none => exact h.bind (h.textOf hd v) fun _ => h.fail mark rfl
  | some n => exact h.pure n

theorem rangeOf (first last : Node) (mark : Option Mark)
    (hfirst : P fun i => (deeper i).eval first) (hlast : P fun i => (deeper i).eval last) :
    P fun i => Evaluator.rangeOf (deeper i) first last mark :=
  h.bind (h.rangeBound hd mark first hfirst) fun _ =>
    h.map _ (h.rangeBound hd mark last hlast)

theorem applyOperation (left : Value) (operation : Operation)
    (heval : P fun i => (deeper i).eval operation.right) :
    P fun i => Evaluator.applyOperation (deeper i) left operation := by
  unfold Evaluator.applyOperation
  by_cases hand : operation.op = .str "&&"
  · simp only [hand, ↓reduceIte]
    cases left.isTruthy with
    | false => exact h.pure _
    | true => exact h.map _ heval
  · by_cases hor : operation.op = .str "||"
    · simp only [hor, ↓reduceIte]
      cases left.isTruthy with
      | false => exact h.map _ heval
      | true => exact h.pure _
    · simp only [hand, hor, ↓reduceIte, hd]
      exact h.bind heval fun right => h.operator operation.mark operation.op left right

theorem evalBinary (op : Name) (left right : Node) (mark : Option Mark)
    (heval : ∀ n, sizeOf n < sizeOf (Node.binary op left right mark) →
      P fun i => (deeper i).eval n) :
    P fun i => Evaluator.evalBinary (deeper i) (.binary op left right mark) := by
  have hleft : sizeOf left < sizeOf (Node.binary op left right mark) := by
    simp only [Node.binary.sizeOf_spec]
    omega
  refine h.bind (heval _ (Nat.lt_of_le_of_lt (sizeOf_leftEdge_le left _) hleft)) fun v => ?_
  refine h.foldlM _ (fun b o ho => h.applyOperation hd b o (heval _ ?_)) v
  rcases sizeOf_right_lt_of_mem_leftEdge (.binary op left right mark) [] ho with hnil | hlt
  · cases hnil
  · exact hlt

omit hd in
theorem evalUnary (op : Name) (operand : Node) (mark : Option Mark)
    (heval : P fun i => (deeper i).eval operand) :
    P fun i => Evaluator.evalUnary (deeper i) op operand mark := by
  refine h.bind heval fun v => ?_
  by_cases hop : op = .str "!"
  · simp only [hop, ↓reduceIte]
    exact h.pure _
  · simp only [hop, ↓reduceIte]
    cases v with
    | number x => exact h.pure _
    | _ => exact h.fail mark rfl

theorem pickItem (key : Value) (mark : Option Mark) (length : Nat) (item : Int → Option Value) :
    P fun i => Evaluator.pickItem (deeper i) key mark length item := by
  unfold Evaluator.pickItem
  cases key.toInt? with
  | none => exact h.bind (h.textOf hd key) fun _ => h.fail mark rfl
  | some n =>
    dsimp only
    cases item n with
    | none => exact h.bind (h.textOf hd key) fun _ => h.fail mark rfl
    | some v => exact h.pure v

theorem evalIndex (target position : Node) (mark : Option Mark)
    (htarget : P fun i => (deeper i).eval target)
    (hposition : P fun i => (deeper i).eval position) :
    P fun i => Evaluator.evalIndex (deeper i) target position mark := by
  refine h.bind htarget fun container => h.bind hposition fun key => ?_
  cases container with
  | text s => exact h.pickItem hd key mark _ _
  | array items => exact h.pickItem hd key mark _ _
  | _ => exact h.fail mark rfl

omit hd in
theorem callFunction (decl : Node) (args : List Value) (mark : Option Mark)
    (henter : ∀ params, Inside fun i => (deeper i).enter decl params args) :
    P fun i => Evaluator.callFunction (deeper i) decl args mark := by
  refine h.bind (h.need decl.params?) fun params => ?_
  by_cases hlen : args.length ≠ params.length
  · simp only [hlen, ne_eq, ↓reduceIte, not_false_eq_true]
    exact h.fail mark rfl
  · simp only [hlen, ↓reduceIte]
    exact h.inCall (henter params)

theorem callBuiltin (b : Builtin) (args : List Value) (mark : Option Mark) :
    P fun i => Evaluator.callBuiltin (cfg i) (deeper i) b args mark := by
  unfold Evaluator.callBuiltin
  simp only [hd]
  cases harity : b.arity with
  | none => exact h.builtin mark fun n hn => nomatch harity.symm.trans hn
  | some n =>
    by_cases hlen : args.length = n
    · simp only [hlen, ne_eq, not_true_eq_false, ↓reduceIte]
      refine h.builtin mark fun m hm => ?_
      cases harity.symm.trans hm
      exact hlen
    · simp only [hlen, ne_eq, not_false_eq_true, ↓reduceIte]
      exact h.fail mark rfl

theorem evalCall (name : Name) (argNodes : List Node) (mark : Option Mark)
    (hargs : ∀ n ∈ argNodes, P fun i => (deeper i).eval n)
    (henter : ∀ decl params args, Inside fun i => (deeper i).enter decl params args) :
    P fun i => Evaluator.evalCall (cfg i) (deeper i) name argNodes mark := by
  refine h.bind (h.lookup name) fun callee => ?_
  cases callee with
  | none => exact h.fail mark rfl
  | some callee =>
    refine h.bind (h.mapM argNodes hargs) fun args => ?_
    cases callee with
    | builtin b => exact h.callBuiltin hd b args mark
    | function decl => exact h.callFunction decl args mark fun params => henter decl params args
    | _ => exact h.fail mark rfl

theorem evalRule (node : Node)
    (heval : ∀ n, sizeOf n < sizeOf node → P fun i => (deeper i).eval n)
    (hresolve : ∀ n, sizeOf n < sizeOf node → P fun i => (deeper i).resolve n)
    (henter : ∀ decl params args, Inside fun i => (deeper i).enter decl params args) :
    P fun i => Evaluator.evalRule (cfg i) (deeper i) node := by
  cases node with
  | number x mark => exact h.pure _
  | nilLiteral mark => exact h.pure _
  | string segments mark =>
    refine h.map _ (h.mapM segments fun n hn => h.segmentText hd n (hresolve n ?_))
    have := List.sizeOf_lt_of_mem hn
    simp only [Node.string.sizeOf_spec]
    omega
  | identifier name mark => exact h.getVariable name mark
  | array elements mark =>
    refine h.map _ (h.mapM elements fun n hn => heval n ?_)
    have := List.sizeOf_lt_of_mem hn
    simp only [Node.array.sizeOf_spec]
    omega
  | range first last mark =>
    refine h.bind (h.rangeOf hd first last mark (heval first ?_) (heval last ?_)) fun bounds =>
      h.map _ (h.rangeItems bounds.2 bounds.1 [])
    all_goals
      simp only [Node.range.sizeOf_spec]
      omega
  | unary op operand mark =>
    refine h.evalUnary op operand mark (heval operand ?_)
    simp only [Node.unary.sizeOf_spec]
    omega
  | binary op left right mark => exact h.evalBinary hd op left right mark heval
  | assignment name expr mark =>
    refine h.bind (heval expr ?_) fun v => h.bind (h.setVariable name v mark) fun _ =>
      h.bind (h.logText hd 2 v _) fun _ => h.pure v
    simp only [Node.assignment.sizeOf_spec]
    omega
  | call name args mark =>
    refine h.evalCall hd name args mark (fun n hn => heval n ?_) henter
    have := List.sizeOf_lt_of_mem hn
    simp only [Node.call.sizeOf_spec]
    omega
  | index target position mark =>
    refine h.evalIndex hd target position mark (heval target ?_) (heval position ?_)
    all_goals
      simp only [Node.index.sizeOf_spec]
      omega
  | field target name mark =>
    refine h.bind (heval target ?_) fun v => ?_
    · simp only [Node.field.sizeOf_spec]
      omega
    · cases fieldOf? v name with
      | none => exact h.fail mark rfl
      | some item => exact h.pure item
  | _ => exact h.breakDown _

end Rules

end Expressive

namespace Blockwise

/-! ## Statements -/

section Rules

variable {Body : ∀ {α : Type}, (ι → Eval α) → Prop} (h : Blockwise cfg depth P Body Inside)
  {deeper : ι → Evaluator} (hd : ∀ i, (deeper i).depth = depth i)
  (hbody : ∀ n, Body fun i => (deeper i).exec n)
include h hbody

theorem execBlock (block : Node) : P fun i => Evaluator.execBlock (deeper i) block :=
  h.bind (h.need block.statements?) fun statements =>
    h.inScope (h.within.forM statements fun n _ => hbody n)

include hd

theorem forRound (name : Name) (body : Node) (mark : Option Mark) (item : Value) :
    P fun i => Evaluator.forRound (cfg i) (deeper i) name body mark item := by
  refine h.bind h.loopTick fun _ => h.inScope (h.within.bind (h.declare name item mark) fun _ => ?_)
  refine h.within.bind (h.within.logText hd 3 item _) fun _ => ?_
  exact h.within.bind (h.within.need body.statements?) fun statements =>
    h.loopRound (h.within.forM statements fun n _ => hbody n)

theorem execForItems (name : Name) (iterable body : Node) (mark : Option Mark)
    (heval : P fun i => (deeper i).eval iterable) :
    P fun i => Evaluator.execForItems (cfg i) (deeper i) name iterable body mark := by
  refine h.bind heval fun v => ?_
  cases v with
  | array items => exact h.forItems (fun v => h.forRound hd hbody name body mark v) items
  | _ => exact h.fail _ rfl

variable (heval : ∀ n, P fun i => (deeper i).eval n)
include heval

theorem execFor (name : Name) (iterable body : Node) (mark : Option Mark) :
    P fun i => Evaluator.execFor (cfg i) (deeper i) name iterable body mark := by
  have hitems := h.execForItems hd hbody name iterable body mark (heval iterable)
  cases iterable with
  | range first last rangeMark =>
    exact h.bind (h.rangeOf hd first last rangeMark (heval first) (heval last)) fun bounds =>
      h.forRange (fun v => h.forRound hd hbody name body mark v) bounds.2 bounds.1
  | _ => exact hitems

omit hd in
theorem execWhile (cond body : Node) :
    P fun i => Evaluator.execWhile (cfg i) (deeper i) cond body :=
  h.whileLoop (h.map _ (heval cond)) (h.execBlock hbody body)

variable (hexec : ∀ n, declaredName? n = none → P fun i => (deeper i).exec n)
include hexec

theorem execIf (cond thenPart elsePart : Node) :
    P fun i => Evaluator.execIf (cfg i) (deeper i) cond thenPart elsePart := by
  refine h.bind (heval cond) fun v => h.bind (h.logText hd 3 v _) fun _ => ?_
  cases v.isTruthy with
  | true => exact h.execBlock hbody thenPart
  | false =>
    cases elsePart with
    | ifElse => exact hexec _ rfl
    | raw value =>
      cases value with
      | null => exact h.pure ()
      | _ => exact h.execBlock hbody _
    | _ => exact h.execBlock hbody _

theorem effectRule (node : Node) (hnode : declaredName? node = none) :
    P fun i => Evaluator.effectRule (cfg i) (deeper i) node := by
  cases node with
  | letDecl name value isMutable mark => cases hnode
  | assignment name expr mark => exact h.map _ (heval _)
  | printLine expr mark =>
    have hother : P fun i => ((deeper i).eval expr >>= fun v =>
        Evaluator.textOf (deeper i) v >>= Run.emit (cfg i)) :=
      h.bind (heval expr) fun v => h.bind (h.textOf hd v) h.emit
    cases expr with
    | raw value =>
      cases value with
      | null => exact h.emit ""
      | _ => exact hother
    | _ => exact hother
  | ifElse cond thenPart elsePart mark => exact h.execIf hd hbody heval hexec cond thenPart elsePart
  | forIn name iterable body mark => exact h.execFor hd hbody heval name iterable body mark
  | whileLoop cond body mark => exact h.execWhile hbody heval cond body
  | block statements mark => exact h.execBlock hbody _
  | breakLoop mark => exact h.throw rfl
  | continueLoop mark => exact h.throw rfl
  | returnWith value mark =>
    have hother : P fun i => ((deeper i).eval value >>= fun v =>
        (throwThe Stop (.returned v) : Eval Unit)) :=
      h.bind (heval value) fun v => h.throw rfl
    cases value with
    | raw value =>
      cases value with
      | null => exact h.throw rfl
      | _ => exact hother
    | _ => exact hother
  | expression expr mark => exact h.map _ (heval expr)
  | _ => exact h.breakDown _

theorem execRule (node : Node) (hnode : declaredName? node = none) :
    P fun i => Evaluator.execRule (cfg i) (deeper i) node :=
  h.bind (h.tick node.mark) fun _ => h.effectRule hd hbody heval hexec node hnode

end Rules

section Calls

variable {Body : ∀ {α : Type}, (ι → Eval α) → Prop} (h : Blockwise cfg depth P Body Inside)
include h

theorem bindParams (mark : Option Mark) (names : List Name) (args : List Value) :
    Body fun _ => Evaluator.bindParams mark names args := by
  induction names generalizing args with
  | nil => exact h.within.pure ()
  | cons name names ih =>
    cases args with
    | nil => exact h.within.pure ()
    | cons arg args => exact h.within.bind (h.declare name arg mark) fun _ => ih args

theorem enterRule {exec : ι → Node → Eval Unit} (hexec : ∀ n, Body fun i => exec i n)
    (decl : Node) (params : List Name) (args : List Value) :
    Inside fun i => Evaluator.enterRule (cfg i) (exec i) decl params args := by
  refine h.enter (h.within.bind (h.bindParams decl.mark params args) fun _ => ?_)
  refine h.within.bind (h.within.need decl.body?) fun body => ?_
  refine h.within.bind (h.within.need body.statements?) fun statements => ?_
  exact h.within.bind (h.within.forM statements fun n _ => hexec n) fun _ => h.within.pure _

end Calls

section EveryStatement

variable (h : Blockwise cfg depth P P Inside) {deeper : ι → Evaluator}
  (hd : ∀ i, (deeper i).depth = depth i)
include h hd

/-- Where what runs in inner scopes has the same property, declarations have it too. -/
theorem everyEffect (node : Node) (heval : ∀ n, P fun i => (deeper i).eval n)
    (hexec : ∀ n, P fun i => (deeper i).exec n) :
    P fun i => Evaluator.effectRule (cfg i) (deeper i) node := by
  have hother := h.effectRule hd hexec heval (fun n _ => hexec n) node
  cases node with
  | letDecl name value isMutable mark =>
    exact h.bind (heval value) fun v => h.bind (h.declare name v mark) fun _ =>
      h.logText hd 2 v _
  | _ => exact hother rfl

theorem everyStatement (node : Node) (heval : ∀ n, P fun i => (deeper i).eval n)
    (hexec : ∀ n, P fun i => (deeper i).exec n) :
    P fun i => Evaluator.execRule (cfg i) (deeper i) node :=
  h.bind (h.tick node.mark) fun _ => h.everyEffect hd node heval hexec

omit hd in
theorem declareFunctions (functions : List Node) : P fun _ => declareFunctions functions := by
  induction functions with
  | nil => exact h.pure ()
  | cons fn rest ih =>
    exact h.bind (h.need fn.name?) fun name => h.bind (h.declare name _ fn.mark) fun _ => ih

end EveryStatement

end Blockwise

namespace Compositional

section Rules

variable (h : Compositional cfg depth P Inside) {deeper : ι → Evaluator}
  (hd : ∀ i, (deeper i).depth = depth i)
include h

/-- A property of all building blocks is one of blocks and of what is in them. -/
theorem blockwise : Blockwise cfg depth P P Inside where
  toExpressive := h.toExpressive
  within := h.toExpressive
  tick := h.tick
  emit := h.emit
  declare := h.declare
  loopRound := h.loopRound
  inScope := h.inScope
  enter := h.enter
  whileLoop := h.whileLoop

theorem enterRule {exec : ι → Node → Eval Unit} (hexec : ∀ n, P fun i => exec i n)
    (decl : Node) (params : List Name) (args : List Value) :
    Inside fun i => Evaluator.enterRule (cfg i) (exec i) decl params args :=
  h.blockwise.enterRule hexec decl params args

include hd

theorem effectRule (node : Node) (heval : ∀ n, P fun i => (deeper i).eval n)
    (hexec : ∀ n, P fun i => (deeper i).exec n) :
    P fun i => Evaluator.effectRule (cfg i) (deeper i) node :=
  h.blockwise.everyEffect hd node heval hexec

theorem execRule (node : Node) (heval : ∀ n, P fun i => (deeper i).eval n)
    (hexec : ∀ n, P fun i => (deeper i).exec n) :
    P fun i => Evaluator.execRule (cfg i) (deeper i) node :=
  h.blockwise.everyStatement hd node heval hexec

end Rules

section Programs

variable (h : Compositional cfg depth P Inside)
include h

theorem runDeclared {evaluator : ι → Evaluator} (hexec : ∀ n, P fun i => (evaluator i).exec n)
    (globals : List Node) (main : Option Node) :
    P fun i => runDeclared (evaluator i) globals main := by
  refine h.bind (h.forM globals fun n _ => hexec n) fun _ => ?_
  cases main with
  | none => exact h.fail none rfl
  | some main =>
    refine h.bind (h.need main.params?) fun params => ?_
    cases params with
    | nil =>
      refine h.catchReturn (h.bind h.openScope fun _ => h.bind (h.need main.body?) fun body => ?_)
      exact h.bind (h.need body.statements?) fun statements =>
        h.forM statements fun n _ => hexec n
    | cons => exact h.fail none rfl

theorem runProgram {evaluator : ι → Evaluator} (hexec : ∀ n, P fun i => (evaluator i).exec n)
    (program : Node) : P fun i => runProgram (evaluator i) program := by
  cases program with
  | program functions globals sourceLength mark =>
    exact h.bind (h.blockwise.declareFunctions functions) fun _ =>
      h.runDeclared hexec globals (findMain functions)
  | _ => exact h.breakDown _

end Programs

end Compositional

end Properties

/-! ## The evaluator as a whole -/

structure EvaluatorHas (P : ∀ {α : Type}, (ι → Eval α) → Prop) (Inside : (ι → Eval Value) → Prop)
    (evaluator : ι → Evaluator) : Prop where
  eval (node : Node) : P fun i => (evaluator i).eval node
  exec (node : Node) : P fun i => (evaluator i).exec node
  resolve (node : Node) : P fun i => (evaluator i).resolve node
  enter (decl : Node) (params : List Name) (args : List Value) :
    Inside fun i => (evaluator i).enter decl params args

section Depth

variable {cfg : ι → Config} {P : ∀ {α : Type}, (ι → Eval α) → Prop}
  {Inside : (ι → Eval Value) → Prop}

theorem EvaluatorHas.above {depth : ι → Nat} {deeper : ι → Evaluator}
    (h : Blockwise cfg depth P P Inside) (hd : ∀ i, (deeper i).depth = depth i)
    (he : EvaluatorHas P Inside deeper) :
    EvaluatorHas P Inside fun i => Evaluator.above (cfg i) (deeper i) where
  eval node := h.evalRule hd node (fun n _ => he.eval n) (fun n _ => he.resolve n) he.enter
  exec node := h.everyStatement hd node he.eval he.exec
  resolve node := h.resolveRule node (he.eval node) fun n _ => he.resolve n
  enter := h.enterRule fun n => h.everyStatement hd n he.eval he.exec

theorem EvaluatorHas.evalCondition {depth : ι → Nat} {evaluator : ι → Evaluator}
    (he : EvaluatorHas P Inside evaluator) (h : Compositional cfg depth P Inside) (cond : Node) :
    P fun i => Evaluator.evalCondition (evaluator i) cond :=
  h.map _ (he.eval cond)

theorem EvaluatorHas.execBlock {depth : ι → Nat} {evaluator : ι → Evaluator}
    (he : EvaluatorHas P Inside evaluator) (h : Compositional cfg depth P Inside) (block : Node) :
    P fun i => Evaluator.execBlock (evaluator i) block :=
  h.blockwise.execBlock he.exec block

@[simp] theorem depth_ofDepth (cfg : Config) (n : Nat) : (Evaluator.ofDepth cfg n).depth = n := by
  induction n with
  | zero => rfl
  | succ n ih => exact congrArg (· + 1) ih

/-- A property that also the exhausted evaluator has is one of every evaluator. -/
theorem EvaluatorHas.ofBlocks (h : ∀ n, Blockwise cfg (fun _ => n) P P Inside)
    (hexhausted : EvaluatorHas P Inside fun _ => .exhausted) (n : Nat) :
    EvaluatorHas P Inside fun i => .ofDepth (cfg i) n := by
  induction n with
  | zero => exact hexhausted
  | succ n ih => exact .above (h n) (fun i => depth_ofDepth (cfg i) n) ih

theorem EvaluatorHas.ofDepth (h : ∀ n, Compositional cfg (fun _ => n) P Inside)
    (hexhausted : EvaluatorHas P Inside fun _ => .exhausted) (n : Nat) :
    EvaluatorHas P Inside fun i => .ofDepth (cfg i) n :=
  .ofBlocks (fun n => (h n).blockwise) hexhausted n

end Depth

end Orus.Run
