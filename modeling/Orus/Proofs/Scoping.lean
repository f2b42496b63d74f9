import Orus.Proofs.ScopeChanges

/-! # Declared names

Each scope has a list of declared names, in the order of their declaration. Only a
declaration executed in a scope adds to its list, and nothing takes a name away: what runs
in an inner scope or in a call declares its names there. Assignments change values, never
names.

A statement is followed by how the lists change from its beginning to its end, whatever
ends it. Sequences of statements may add names to the innermost scope; expressions, and
statements that are not declarations, leave all lists as they are.
-/

namespace Orus

theorem Frame.names_declare? {f g : Frame} {name : Name} {v : Value}
    (h : f.declare? name v = some g) : g.names = f.names ++ [name] := by
  unfold Frame.declare? at h
  split at h
  · cases h
  · cases h
    simp only [Frame.names, List.map_append, List.map_cons, List.map_nil]

theorem Frame.names_assign (f : Frame) (name : Name) (v : Value) :
    (f.assign name v).names = f.names := by
  simp only [Frame.names, Frame.assign, List.map_map]
  refine List.map_congr_left fun binding _ => ?_
  dsimp only [Function.comp]
  split <;> rfl

namespace Chain

/-- The declared names of each scope in reach, from the inside out. -/
def names (c : Chain) : List (List Name) :=
  c.frames.map Frame.names

theorem names_eq (c : Chain) :
    c.names = c.locals.map Frame.names ++ [c.globals.names, c.builtins.names] :=
  List.map_append

theorem names_declare? {c d : Chain} {name : Name} {v : Value} (h : c.declare? name v = some d) :
    d.names = c.names.modifyHead (· ++ [name]) := by
  rcases c with ⟨_ | ⟨top, rest⟩, globals, builtins⟩ <;>
  · obtain ⟨f, hf, rfl⟩ := Option.map_eq_some_iff.1 h
    simp only [names_eq, List.map_nil, List.nil_append, List.map_cons, List.cons_append,
      List.modifyHead_cons, Frame.names_declare? hf]

theorem names_assignIn? {name : Name} {v : Value} {frames changed : List Frame}
    (h : assignIn? name v frames = some changed) :
    changed.map Frame.names = frames.map Frame.names := by
  induction frames generalizing changed with
  | nil => cases h
  | cons f rest ih =>
    unfold assignIn? at h
    split at h
    · cases h
      simp only [List.map_cons, Frame.names_assign]
    · obtain ⟨changed, hrest, rfl⟩ := Option.map_eq_some_iff.1 h
      simp only [List.map_cons, ih hrest]

theorem names_assign? {c d : Chain} {name : Name} {v : Value} (h : c.assign? name v = some d) :
    d.names = c.names := by
  unfold assign? at h
  split at h
  next locals hlocals =>
    cases h
    simp only [names_eq, names_assignIn? hlocals]
  next =>
    split at h
    · cases h
      simp only [names_eq, Frame.names_assign]
    · split at h
      · cases h
        simp only [names_eq, Frame.names_assign]
      · cases h

theorem names_pop {c d : Chain} {added : List Name} (h : d.names = added :: c.names) :
    d.pop.names = c.names := by
  rcases d with ⟨_ | ⟨top, rest⟩, globals, builtins⟩
  · have hlength := congrArg List.length h
    simp only [names_eq, List.length_cons, List.length_append, List.length_map,
      List.length_nil] at hlength
    omega
  · exact List.tail_eq_of_cons_eq h

theorem names_left {c d : Chain} {added : List Name}
    (h : d.names = [added, c.globals.names, c.builtins.names]) :
    ({ d with locals := c.locals } : Chain).names = c.names := by
  have happend : d.locals.map Frame.names ++ [d.globals.names, d.builtins.names] =
      [added] ++ [c.globals.names, c.builtins.names] := d.names_eq.symm.trans h
  have hroots : [d.globals.names, d.builtins.names] = [c.globals.names, c.builtins.names] :=
    (List.append_inj' happend rfl).2
  rw [names_eq, names_eq, ← hroots]

end Chain

end Orus

namespace Orus.Run

variable {α β : Type}

/-! ## Changes of the lists -/

def ChangesNames (R : List (List Name) → List (List Name) → Prop) (c : Eval α) : Prop :=
  Changes (fun scopes scopes' => R scopes.names scopes'.names) c

def NamesKept (before after : List (List Name)) : Prop :=
  after = before

/-- Only the innermost scope changes, by further names at the end of its list. -/
def NamesAppended (before after : List (List Name)) : Prop :=
  ∃ added, after = before.modifyHead (· ++ added)

theorem NamesKept.appended {before after : List (List Name)} (h : NamesKept before after) :
    NamesAppended before after := by
  cases h
  refine ⟨[], ?_⟩
  cases before <;> simp only [List.modifyHead_nil, List.modifyHead_cons, List.append_nil]

structure IsNameOrder (R : List (List Name) → List (List Name) → Prop) : Prop where
  kept {x y : List (List Name)} : NamesKept x y → R x y
  trans {x y z : List (List Name)} : R x y → R y z → R x z

theorem IsNameOrder.isScopeOrder {R : List (List Name) → List (List Name) → Prop}
    (h : IsNameOrder R) : IsScopeOrder fun scopes scopes' => R scopes.names scopes'.names where
  refl _ := h.kept rfl
  trans := h.trans

theorem isNameOrder_kept : IsNameOrder NamesKept where
  kept h := h
  trans hxy hyz := Eq.trans hyz hxy

theorem isNameOrder_appended : IsNameOrder NamesAppended where
  kept := NamesKept.appended
  trans := by
    rintro x _ _ ⟨added, rfl⟩ ⟨more, rfl⟩
    refine ⟨added ++ more, ?_⟩
    cases x <;> simp only [List.modifyHead_nil, List.modifyHead_cons, List.append_assoc]

variable {cfg : Config}

theorem namesKept_throw (stop : Stop) : ChangesNames NamesKept (throw stop : Eval α) :=
  isNameOrder_kept.isScopeOrder.changes_throw stop

theorem namesKept_tick (mark : Option Mark) : ChangesNames NamesKept (tick cfg mark) :=
  isNameOrder_kept.isScopeOrder.changes_tick mark

/-- Expressions and statements other than declarations keep the lists, since what runs in
their inner scopes only adds to these and is gone with them. -/
theorem isScoping_names :
    IsScoping (fun scopes scopes' => NamesKept scopes.names scopes'.names)
      (fun scopes scopes' => NamesAppended scopes.names scopes'.names) where
  outer := isNameOrder_kept.isScopeOrder
  inner := isNameOrder_appended.isScopeOrder
  le := NamesKept.appended
  assign _ _ _ _ := Chain.names_assign?
  declare name _ _ _ hd := ⟨[name], Chain.names_declare? hd⟩
  closed _ _ := fun ⟨_, hadded⟩ => Chain.names_pop hadded
  returned _ _ := fun ⟨_, hadded⟩ => Chain.names_left hadded

/-! ## The evaluator -/

/-- How a declaration of a name ends: completed, with the name at the end of the innermost
list, or stopped before anything was declared. With a log of level two the value is written
to the log once the name is declared, and a value nested too deeply for that stops the
declaration then. -/
def Declared (cfg : Config) (name : Name) (before : List (List Name)) :
    EStateM.Result Stop State Unit → Prop
  | .ok _ t => t.scopes.names = before.modifyHead (· ++ [name])
  | .error stop t => t.scopes.names = before ∨
      2 ≤ cfg.logLevel ∧ stop = .error ⟨.nestingTooDeep, none⟩ ∧
        t.scopes.names = before.modifyHead (· ++ [name])

theorem Declared.appended {name : Name} {before : List (List Name)}
    {r : EStateM.Result Stop State Unit} (h : Declared cfg name before r) :
    NamesAppended before (endState r).scopes.names := by
  cases r with
  | ok _ t => exact ⟨[name], h⟩
  | error stop t =>
    rcases h with hkept | ⟨-, -, hadded⟩
    · exact NamesKept.appended hkept
    · exact ⟨[name], hadded⟩

theorem declared_bind {c : Eval α} {k : α → Eval Unit} {name : Name}
    (hc : ChangesNames NamesKept c)
    (hk : ∀ a t, Declared cfg name t.scopes.names (k a t)) (s : State) :
    Declared cfg name s.scopes.names ((c >>= k) s) := by
  have hs : _ = s.scopes.names := hc s
  cases h : c s with
  | ok a t =>
    rw [h, endState_ok] at hs
    rw [bind_of_ok h, ← hs]
    exact hk a t
  | error e t =>
    rw [h, endState_error] at hs
    rw [bind_of_error h]
    exact .inl hs

/-- Writing a value to the log is stopped by nothing but the nesting of the value. -/
theorem logFrom_textOf (deeper : Evaluator) (level : Nat) (v : Value) (line : String → String)
    (s : State) :
    let logging := logFrom cfg level (deeper.textOf v >>= fun text => pure (line text))
    (∃ t, logging s = .ok () t ∧ t.scopes = s.scopes) ∨
      level ≤ cfg.logLevel ∧ logging s = .error (.error ⟨.nestingTooDeep, none⟩) s := by
  intro logging
  simp only [logging, logFrom_eq]
  split
  next hlevel =>
    rcases isLogLine_textOf deeper v line s with ⟨text, htext⟩ | hdeep
    · rw [bind_of_ok htext, log_eq]
      exact .inl ⟨_, rfl, scopes_logged _ _ _⟩
    · exact .inr ⟨hlevel, bind_of_error hdeep⟩
  next => exact .inl ⟨s, rfl, rfl⟩

theorem declared_execRule {deeper : Evaluator}
    (heval : ∀ n, ChangesNames NamesKept (deeper.eval n)) (name : Name) (value : Node)
    (isMutable : Bool) (mark : Option Mark) (s : State) :
    Declared cfg name s.scopes.names
      (Evaluator.execRule cfg deeper (.letDecl name value isMutable mark) s) := by
  refine declared_bind (namesKept_tick mark) (fun _ => declared_bind (heval value) fun v t => ?_) s
  have hdeclare := declare_eq name v mark t
  split at hdeclare
  · split at hdeclare
    next scopes hscopes =>
      rw [bind_of_ok hdeclare]
      rcases logFrom_textOf deeper 2 v (fun text => s!"declare {name.text}: {v.type.name} = {text}")
        { t with scopes } with ⟨u, hu, hsame⟩ | ⟨hlevel, hstop⟩
      · have hnames : u.scopes.names = scopes.names := congrArg Chain.names hsame
        rw [hu]
        exact hnames.trans (Chain.names_declare? hscopes)
      · rw [hstop]
        exact .inr ⟨hlevel, rfl, Chain.names_declare? hscopes⟩
    next =>
      rw [bind_of_error hdeclare]
      exact .inl rfl
  · rw [bind_of_error hdeclare]
    exact .inl rfl

/-- Executing statements adds names to the scope they are executed in only by declarations
in it. -/
structure AddsDeclared (cfg : Config) (exec : Node → Eval Unit) : Prop where
  other (node : Node) : declaredName? node = none → ChangesNames NamesKept (exec node)
  declaration (node : Node) (name : Name) : declaredName? node = some name →
    ∀ s, Declared cfg name s.scopes.names (exec node s)

theorem AddsDeclared.appends {exec : Node → Eval Unit} (h : AddsDeclared cfg exec) (node : Node) :
    ChangesNames NamesAppended (exec node) := by
  intro s
  cases hname : declaredName? node with
  | none => exact (h.other node hname s).appended
  | some name => exact (h.declaration node name hname s).appended

structure IsDisciplined (cfg : Config) (evaluator : Evaluator) : Prop where
  eval (node : Node) : ChangesNames NamesKept (evaluator.eval node)
  resolve (node : Node) : ChangesNames NamesKept (evaluator.resolve node)
  exec : AddsDeclared cfg evaluator.exec
  enter (decl : Node) (params : List Name) (args : List Value) :
    ChangesNames NamesAppended (evaluator.enter decl params args)

theorem isDisciplined_exhausted : IsDisciplined cfg .exhausted where
  eval _ := namesKept_throw _
  resolve _ := namesKept_throw _
  exec := ⟨fun _ _ => namesKept_throw _, fun _ _ _ _ => .inl rfl⟩
  enter _ _ _ := isNameOrder_appended.isScopeOrder.changes_throw _

theorem isDisciplined_above {deeper : Evaluator} (h : IsDisciplined cfg deeper) :
    IsDisciplined cfg (.above cfg deeper) := by
  have hrules := isScoping_names.blockwise cfg deeper.depth
  have hexec : AddsDeclared cfg (Evaluator.execRule cfg deeper) := by
    constructor
    · exact hrules.execRule (fun _ => rfl) h.exec.appends h.eval h.exec.other
    · intro node name hname s
      cases node with
      | letDecl declared value isMutable mark =>
        cases hname
        exact declared_execRule h.eval name value isMutable mark s
      | _ => cases hname
  constructor
  · exact fun node => hrules.evalRule (fun _ => rfl) node (fun n _ => h.eval n)
      (fun n _ => h.resolve n) h.enter
  · exact fun node => @Expressive.resolveRule _ _ _ _ _ hrules.toExpressive (fun _ => deeper) node
      (h.eval node) fun n _ => h.resolve n
  · exact hexec
  · exact @Blockwise.enterRule _ _ _ _ _ _ hrules (fun _ => Evaluator.execRule cfg deeper)
      hexec.appends

theorem isDisciplined_ofDepth (cfg : Config) (n : Nat) : IsDisciplined cfg (.ofDepth cfg n) := by
  induction n with
  | zero => exact isDisciplined_exhausted
  | succ n ih => exact isDisciplined_above ih

/-- The scoping discipline: from any state and however it ends, evaluating an expression or a
marker of a string changes no list of declared names, and neither does executing a statement,
unless it is a declaration, which adds its name to the innermost scope. -/
theorem names_change_by_declaration_only (cfg : Config) (n : Nat) (s : State) :
    (∀ expr, (endState ((Evaluator.ofDepth cfg n).eval expr s)).scopes.names = s.scopes.names) ∧
    (∀ marker,
      (endState ((Evaluator.ofDepth cfg n).resolve marker s)).scopes.names = s.scopes.names) ∧
    ∀ statement, match declaredName? statement with
      | none =>
        (endState ((Evaluator.ofDepth cfg n).exec statement s)).scopes.names = s.scopes.names
      | some name =>
        Declared cfg name s.scopes.names ((Evaluator.ofDepth cfg n).exec statement s) := by
  have h := isDisciplined_ofDepth cfg n
  refine ⟨fun expr => h.eval expr s, fun marker => h.resolve marker s, fun statement => ?_⟩
  split
  next hname => exact h.exec.other statement hname s
  next name hname => exact h.exec.declaration statement name hname s

/-! ## A declaration that is stopped too late -/

/-- A program whose `main` declares a variable for a value nested a thousand levels deep. -/
def deepSource : String :=
  "fn a(x) \x7b return [[[[[[[[x]]]]]]]]; \x7d
fn b(x) \x7b return a(a(a(a(a(x))))); \x7d
fn c(x) \x7b return b(b(b(b(b(x))))); \x7d
fn main() \x7b let v = c(c(c(c(c(nil))))); \x7d"

/-- The first statement of `main` in a program without globals, and the state in which a run
of the program comes to it. -/
def firstOfMain (source : String) : Option (Node × State) :=
  match Syntax.parse source with
  | .ok (.program functions [] _ _) => do
    let main ← findMain functions
    let body ← main.body?
    let statement ← (← body.statements?).head?
    match (declareFunctions functions >>= fun _ => openScope) {} with
    | .ok _ s => some (statement, s)
    | .error .. => none
  | _ => none

/-- A declaration may be stopped and leave its name declared all the same. -/
theorem stopped_declaration_adds_name : ∃ statement s stop t,
    firstOfMain deepSource = some (statement, s) ∧
    (Evaluator.ofDepth { logLevel := 2 } nestingLimit).exec statement s = .error stop t ∧
    t.scopes.names ≠ s.scopes.names := by
  have hrun : ((firstOfMain deepSource).any fun (statement, s) =>
      match (Evaluator.ofDepth { logLevel := 2 } nestingLimit).exec statement s with
      | .ok .. => false
      | .error _ t => t.scopes.names ≠ s.scopes.names) = true := by
    decide +kernel
  cases hfirst : firstOfMain deepSource with
  | none =>
    rw [hfirst] at hrun
    cases hrun
  | some first =>
    obtain ⟨statement, s⟩ := first
    simp only [hfirst, Option.any_some] at hrun
    split at hrun
    next => cases hrun
    next stop t hstop => exact ⟨statement, s, stop, t, rfl, hstop, of_decide_eq_true hrun⟩

end Orus.Run
