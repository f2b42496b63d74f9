import Orus.Proofs.Termination

/-! # Operator chains and plain recursion

A binary expression is evaluated along its left edge, one operation after the other. Plain
recursion evaluates the left side first, as any other expression, and then the operator with
its right side. The two agree on every tree, whatever evaluates the parts.

Plain recursion nests with the left side and the chain does not, so evaluators of one depth
that are built on the one or the other can differ, but only about nesting: every evaluation
settles, with both, to the same result.
-/

namespace Orus.Run

variable {α β : Type}

namespace Evaluator

/-! ## Plain recursion -/

section Plain

variable (cfg : Config) (deeper : Evaluator)

/-- An operator with the value on its left. The right side of a logical operator is evaluated
only if it decides, and these operators give one or zero. -/
def combine (op : Name) (left : Value) (right : Node) (mark : Option Mark) : Eval Value :=
  if op = .str "&&" ∧ left.isTruthy = false then return .number 0.0
  else if op = .str "||" ∧ left.isTruthy = true then return .number 1.0
  else do
    let v ← deeper.eval right
    if op = .str "&&" ∨ op = .str "||" then return .number (if v.isTruthy then 1.0 else 0.0)
    else ofExcept mark (applyOperator deeper.depth op left v)

/-- A binary expression by recursion on its left side. -/
def evalPlain : Node → Eval Value
  | .binary op left right mark => do combine deeper op (← evalPlain left) right mark
  | node => deeper.eval node

def plainRule : Node → Eval Value
  | .binary op left right mark => do combine deeper op (← deeper.eval left) right mark
  | node => evalRule cfg deeper node

def plainOfDepth : Nat → Evaluator
  | 0 => exhausted
  | n + 1 => { above cfg (plainOfDepth n) with eval := plainRule cfg (plainOfDepth n) }

end Plain

@[simp] theorem depth_plainOfDepth (cfg : Config) (n : Nat) : (plainOfDepth cfg n).depth = n := by
  induction n with
  | zero => rfl
  | succ n ih => exact congrArg (· + 1) ih

theorem applyOperation_eq (deeper : Evaluator) (op : Name) (left : Value) (right : Node)
    (mark : Option Mark) :
    applyOperation deeper left ⟨op, right, mark⟩ = combine deeper op left right mark := by
  unfold applyOperation combine
  by_cases hand : op = .str "&&"
  · subst hand
    cases left.isTruthy <;> rfl
  · by_cases hor : op = .str "||"
    · subst hor
      cases left.isTruthy <;> rfl
    · simp only [hand, hor, false_and, or_self, ↓reduceIte]

/-- The operations that are left after a tree follow its value. The induction is on the left
edge, which turns one operation of the tree into the first of those that are left. -/
theorem foldlM_leftEdge (deeper : Evaluator) (node : Node) (done : List Operation) :
    (deeper.eval (leftEdge node done).1 >>= fun v =>
      (leftEdge node done).2.foldlM (applyOperation deeper) v) =
    evalPlain deeper node >>= fun v => done.foldlM (applyOperation deeper) v := by
  fun_induction leftEdge node done with
  | case1 op left right mark done ih =>
    rw [ih]
    simp only [evalPlain, List.foldlM_cons, applyOperation_eq, bind_assoc]
  | case2 node done hleaf =>
    cases node with
    | binary op left right mark => exact absurd rfl (hleaf op left right mark)
    | _ => rfl

theorem evalBinary_eq (deeper : Evaluator) (node : Node) :
    evalBinary deeper node = evalPlain deeper node := by
  have h := foldlM_leftEdge deeper node []
  simp only [List.foldlM_nil, bind_pure] at h
  exact h

end Evaluator

/-! ## Evaluations that others come to -/

/-- An evaluation that is about nesting, or that others come to from some depth on. -/
def Reaches (c : Eval α) (family : Nat → Eval α) : Prop :=
  ∀ s, causeOf (c s) = some .nestingTooDeep ∨ ∃ depth, ∀ n, depth ≤ n → family n s = c s

theorem reaches_const (c : Eval α) : Reaches c fun _ => c :=
  fun _ => .inr ⟨0, fun _ _ => rfl⟩

/-- The lowest level makes no difference. -/
theorem Reaches.of_succ {c : Eval α} {family : Nat → Eval α}
    (h : Reaches c fun n => family (n + 1)) : Reaches c family := by
  intro s
  refine (h s).imp_right ?_
  rintro ⟨depth, hdepth⟩
  refine ⟨depth + 1, fun n hn => ?_⟩
  cases n with
  | zero => exact absurd hn (Nat.not_succ_le_zero _)
  | succ n => exact hdepth n (Nat.le_of_succ_le_succ hn)

theorem Reaches.succ {c : Eval α} {family : Nat → Eval α} (h : Reaches c family) :
    Reaches c fun n => family (n + 1) := by
  intro s
  refine (h s).imp_right ?_
  rintro ⟨depth, hdepth⟩
  exact ⟨depth, fun n hn => hdepth (n + 1) (Nat.le_succ_of_le hn)⟩

theorem Reaches.bind {c : Eval α} {family : Nat → Eval α} {k : α → Eval β}
    {continued : Nat → α → Eval β} (hc : Reaches c family)
    (hk : ∀ a, Reaches (k a) fun n => continued n a) :
    Reaches (c >>= k) fun n => family n >>= continued n := by
  intro s
  rcases hc s with hdeep | ⟨depth, hdepth⟩
  · exact .inl (causeOf_bind hdeep)
  · cases hr : c s with
    | error e t =>
      refine .inr ⟨depth, fun n hn => ?_⟩
      exact (bind_of_error ((hdepth n hn).trans hr)).trans (bind_of_error hr).symm
    | ok a t =>
      rw [bind_of_ok hr]
      refine (hk a t).imp_right ?_
      rintro ⟨depth', hdepth'⟩
      refine ⟨max depth depth', fun n hn => ?_⟩
      exact (bind_of_ok ((hdepth n (by omega)).trans hr)).trans (hdepth' n (by omega))

/-- What wraps an evaluation, depends on its result only and passes causes on. -/
theorem Reaches.wrap {c : Eval α} {family : Nat → Eval α} (h : Reaches c family)
    {wrap : Eval α → Eval β} (inner : State → State)
    (heq : ∀ c c' s, c (inner s) = c' (inner s) → wrap c s = wrap c' s)
    (hcause : ∀ c s, causeOf (wrap c s) = causeOf (c (inner s))) :
    Reaches (wrap c) fun n => wrap (family n) := by
  intro s
  refine (h (inner s)).imp (fun hdeep => (hcause c s).trans hdeep) ?_
  rintro ⟨depth, hdepth⟩
  exact ⟨depth, fun n hn => heq _ _ s (hdepth n hn)⟩

theorem Reaches.loopRound {c : Eval Unit} {family : Nat → Eval Unit} (h : Reaches c family) :
    Reaches (loopRound c) fun n => loopRound (family n) := by
  refine h.wrap id (fun c c' s hs => ?_) causeOf_loopRound
  simp only [Run.loopRound]
  rw [show c s = c' s from hs]

theorem Reaches.catchReturn {c : Eval Unit} {family : Nat → Eval Unit} (h : Reaches c family) :
    Reaches (catchReturn c) fun n => catchReturn (family n) := by
  refine h.wrap id (fun c c' s hs => ?_) causeOf_catchReturn
  simp only [Run.catchReturn]
  rw [show c s = c' s from hs]

theorem Reaches.orPure {c : Eval Unit} {family : Nat → Eval Unit} (h : Reaches c family)
    (b : Bool) :
    Reaches (if b = true then c else pure ()) fun n => if b = true then family n else pure () := by
  cases b with
  | false => exact reaches_const _
  | true => exact h

theorem reaches_of_settling (cfg : Config) {family : Nat → Eval α}
    (h : ∀ budget, Settling cfg budget family) (n : Nat) : Reaches (family n) family := by
  intro s
  obtain ⟨r, -, ⟨depth, hdepth⟩, hbefore⟩ := (h (stepsLeft cfg s)).settles s (Nat.le_refl _)
  rcases hbefore n with hn | hdeep
  · exact .inr ⟨depth, fun m hm => (hdepth m hm).trans hn.symm⟩
  · exact .inl hdeep

theorem reaches_whileRounds {cfg : Config} {cond : Eval Bool} {body : Eval Unit}
    {conds : Nat → Eval Bool} {bodies : Nat → Eval Unit} (hcond : Reaches cond conds)
    (hbody : Reaches body bodies) (rounds : Nat) :
    Reaches (whileRounds cfg cond body rounds)
      fun n => whileRounds cfg (conds n) (bodies n) rounds := by
  induction rounds with
  | zero => exact reaches_const _
  | succ rounds ih =>
    have hround := (reaches_const (loopTick cfg)).bind fun _ => hbody.loopRound.bind ih.orPure
    exact hcond.bind hround.orPure

/-- An evaluator at one index, beside others at each depth. -/
def beside (e : Evaluator) (family : Nat → Evaluator) : Option Nat → Evaluator
  | none => e
  | some n => family n

/-- That an evaluation at one index is come to at the others is kept by all ways of putting
evaluations together. -/
theorem reaches_compositional (cfg : Config) (n : Nat) :
    Compositional (fun _ : Option Nat => cfg) (fun i => i.getD n)
      (fun c => Reaches (c none) fun m => c (some m))
      (fun c => Reaches (c none) fun m => c (some m)) where
  pure _ := reaches_const _
  bind := Reaches.bind
  throw _ := reaches_const _
  lookup _ := reaches_const _
  declare _ _ _ := reaches_const _
  setVariable _ _ _ := reaches_const _
  warn _ _ := reaches_const _
  shown v := reaches_of_settling cfg (fun _ => settling_compositional.shown v) n
  operator mark op a b :=
    reaches_of_settling cfg (fun _ => settling_compositional.operator mark op a b) n
  builtin mark _ _ hargs :=
    reaches_of_settling cfg (fun _ => settling_compositional.builtin mark hargs) n
  logFrom level _ hline _ := by
    simp only [logFrom_eq]
    split
    · exact hline.bind fun _ => reaches_const _
    · exact reaches_const _
  loopTick := reaches_const _
  tick _ := reaches_const _
  emit _ := reaches_const _
  openScope := reaches_const _
  inScope h := h.wrap State.scoped (fun c c' s hs => by simp only [inScope_eq, hs]) causeOf_inScope
  enter h := (reaches_const _).bind fun _ => h
  inCall h := h.wrap State.entered (fun c c' s hs => by simp only [inCall_eq, hs]) causeOf_inCall
  catchReturn := Reaches.catchReturn
  loopRound := Reaches.loopRound
  whileLoop hcond hbody := fun s => reaches_whileRounds hcond hbody (roundsLeft cfg s) s

/-! ## Towers of evaluators -/

/-- Evaluators of every depth, each built from the one below. How they evaluate binary
expressions is left open. -/
structure IsTower (cfg : Config) (family : Nat → Evaluator) : Prop where
  zero : family 0 = .exhausted
  depth (n : Nat) : (family n).depth = n
  exec (n : Nat) : (family (n + 1)).exec = Evaluator.execRule cfg (family n)
  resolve (n : Nat) : (family (n + 1)).resolve = Evaluator.resolveRule (family n)
  enter (n : Nat) :
    (family (n + 1)).enter = Evaluator.enterRule cfg (Evaluator.execRule cfg (family n))
  eval (n : Nat) (node : Node) : (∀ op left right mark, node ≠ .binary op left right mark) →
    (family (n + 1)).eval node = Evaluator.evalRule cfg (family n) node

theorem isTower_ofDepth (cfg : Config) : IsTower cfg (.ofDepth cfg) where
  zero := rfl
  depth := depth_ofDepth cfg
  exec _ := rfl
  resolve _ := rfl
  enter _ := rfl
  eval _ _ _ := rfl

theorem isTower_plainOfDepth (cfg : Config) : IsTower cfg (.plainOfDepth cfg) where
  zero := rfl
  depth := Evaluator.depth_plainOfDepth cfg
  exec _ := rfl
  resolve _ := rfl
  enter _ := rfl
  eval n node hnode := by
    cases node with
    | binary op left right mark => exact absurd rfl (hnode op left right mark)
    | _ => rfl

abbrev ReachedBy (e : Evaluator) (family : Nat → Evaluator) : Prop :=
  EvaluatorHas (fun c => Reaches (c none) fun m => c (some m))
    (fun c => Reaches (c none) fun m => c (some m)) (beside e family)

section Towers

variable {cfg : Config} {first second : Nat → Evaluator} (hfirst : IsTower cfg first)
  (hsecond : IsTower cfg second)
include hfirst hsecond

theorem depth_beside (n : Nat) (i : Option Nat) : (beside (first n) second i).depth = i.getD n := by
  cases i with
  | none => exact hfirst.depth n
  | some m => exact hsecond.depth m

/-- The evaluators of a tower are reached by another tower if binary expressions are. -/
theorem reachedBy_of_binary
    (hbinary : ∀ n op left right mark, ReachedBy (first n) second →
      Reaches ((first (n + 1)).eval (.binary op left right mark))
        fun m => (second (m + 1)).eval (.binary op left right mark))
    (n : Nat) : ReachedBy (first n) second := by
  induction n with
  | zero =>
    rw [hfirst.zero]
    exact ⟨fun _ _ => .inl rfl, fun _ _ => .inl rfl, fun _ _ => .inl rfl, fun _ _ _ _ => .inl rfl⟩
  | succ n ih =>
    have h := reaches_compositional cfg n
    have hd := depth_beside hfirst hsecond n
    have hexec := fun node => h.execRule hd node ih.eval ih.exec
    constructor
    · intro node
      refine Reaches.of_succ ?_
      by_cases hnode : ∃ op left right mark, node = .binary op left right mark
      · obtain ⟨op, left, right, mark, rfl⟩ := hnode
        exact hbinary n op left right mark ih
      · have hother : ∀ op left right mark, node ≠ .binary op left right mark :=
          fun op left right mark heq => hnode ⟨op, left, right, mark, heq⟩
        dsimp only [beside]
        simp only [hfirst.eval n node hother, hsecond.eval _ node hother]
        exact h.evalRule hd node (fun n _ => ih.eval n) (fun n _ => ih.resolve n) ih.enter
    · intro node
      refine Reaches.of_succ ?_
      dsimp only [beside]
      simp only [hfirst.exec, hsecond.exec]
      exact hexec node
    · intro node
      refine Reaches.of_succ ?_
      dsimp only [beside]
      simp only [hfirst.resolve, hsecond.resolve]
      exact h.resolveRule node (ih.eval node) fun n _ => ih.resolve n
    · intro decl params args
      refine Reaches.of_succ ?_
      dsimp only [beside]
      simp only [hfirst.enter, hsecond.enter]
      exact @Compositional.enterRule _ _ _ _ _ h
        (fun i => Evaluator.execRule cfg (beside (first n) second i)) hexec decl params args

end Towers

variable {cfg : Config}

/-- The operator of a binary expression, once its left side has a value, is come to. -/
theorem reaches_combine {first second : Nat → Evaluator} (hfirst : IsTower cfg first)
    (hsecond : IsTower cfg second) {n : Nat} (h : ReachedBy (first n) second) (op : Name)
    (left : Value) (right : Node) (mark : Option Mark) :
    Reaches ((first n).combine op left right mark)
      fun m => (second m).combine op left right mark := by
  have hoperation := (reaches_compositional cfg n).applyOperation (depth_beside hfirst hsecond n)
    left ⟨op, right, mark⟩ (h.eval right)
  simp only [Evaluator.applyOperation_eq] at hoperation
  exact hoperation

theorem eval_binary (cfg : Config) (n : Nat) (op : Name) (left right : Node) (mark : Option Mark) :
    (Evaluator.ofDepth cfg (n + 1)).eval (.binary op left right mark) =
      (Evaluator.ofDepth cfg n).evalPlain (.binary op left right mark) :=
  Evaluator.evalBinary_eq (.ofDepth cfg n) (.binary op left right mark)

/-- Chains come to what plain recursion gives. -/
theorem plainOfDepth_reachedBy (cfg : Config) (n : Nat) :
    ReachedBy (.plainOfDepth cfg n) (.ofDepth cfg) := by
  have hplain := isTower_plainOfDepth cfg
  have hchains := isTower_ofDepth cfg
  refine reachedBy_of_binary hplain hchains (fun n op left right mark h => ?_) n
  have hleft : Reaches ((Evaluator.plainOfDepth cfg n).eval left)
      fun m => (Evaluator.ofDepth cfg m).evalPlain left := by
    cases left with
    | binary op left right mark =>
      simp only [← eval_binary]
      exact (h.eval _).succ
    | _ => exact h.eval _
  simp only [eval_binary]
  exact hleft.bind fun v => reaches_combine hplain hchains h op v right mark

/-- Plain recursion comes to what chains give. Inside a chain the induction is on its left
edge, since plain recursion goes one level deeper for each operation. -/
theorem ofDepth_reachedBy (cfg : Config) (n : Nat) :
    ReachedBy (.ofDepth cfg n) (.plainOfDepth cfg) := by
  have hplain := isTower_plainOfDepth cfg
  have hchains := isTower_ofDepth cfg
  refine reachedBy_of_binary hchains hplain (fun n op left right mark h => ?_) n
  have hedge : ∀ node, Reaches ((Evaluator.ofDepth cfg n).evalPlain node)
      fun m => (Evaluator.plainOfDepth cfg m).eval node := by
    intro node
    fun_induction Evaluator.evalPlain (Evaluator.ofDepth cfg n) node with
    | case1 op left right mark ih =>
      refine Reaches.of_succ ?_
      exact ih.bind fun v => reaches_combine hchains hplain h op v right mark
    | case2 node _ => exact h.eval node
  simp only [eval_binary]
  exact (hedge _).succ

/-- The chain of operators agrees with plain recursion: on every tree, whatever evaluates its
parts, and as the rule of an evaluator, nesting apart. -/
theorem chains_agree_with_plain_recursion (cfg : Config) (node : Node) :
    (∀ deeper, Evaluator.evalBinary deeper node = Evaluator.evalPlain deeper node) ∧
    ∀ s, ∃ r, SettlesTo (fun n => (Evaluator.ofDepth cfg n).eval node s) r ∧
      SettlesTo (fun n => (Evaluator.plainOfDepth cfg n).eval node s) r := by
  refine ⟨fun deeper => Evaluator.evalBinary_eq deeper node, fun s => ?_⟩
  obtain ⟨r, hr⟩ := ((settling_ofDepth cfg (stepsLeft cfg s)).eval node).settles s (Nat.le_refl _)
  obtain ⟨depth, hdepth⟩ := hr.eventually
  have hlast := hdepth depth (Nat.le_refl _)
  refine ⟨r, hr, hr.shallow, ?_, fun n => ?_⟩
  · rcases (ofDepth_reachedBy cfg depth).eval node s with hdeep | ⟨depth', hdepth'⟩
    · exact absurd (hlast ▸ hdeep) hr.shallow
    · exact ⟨depth', fun n hn => (hdepth' n hn).trans hlast⟩
  · rcases (plainOfDepth_reachedBy cfg n).eval node s with hdeep | ⟨depth', hdepth'⟩
    · exact .inr hdeep
    · refine .inl ?_
      exact (hdepth' _ (Nat.le_max_right depth depth')).symm.trans
        (hdepth _ (Nat.le_max_left depth depth'))

end Orus.Run
