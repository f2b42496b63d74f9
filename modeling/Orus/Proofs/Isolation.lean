import Orus.Proofs.Lockstep

/-! # Calls and their callers

A call sees the globals and the builtins, and nothing of the scopes of its caller. Two
calls of a function with the same arguments, from states with the same globals, builtins
and counters, therefore go in step: they end in the same way and add the same lines and
warnings, whatever has been shown before and whatever the callers have declared.
Afterwards each caller has its own scopes back.
-/

namespace Orus.Run

/-! ## The same effect on two states -/

/-- From the first two states to the other two the same has happened: the counters and what
is global are the same at the end, and the same was added to what each had shown. -/
structure SameEffect (b b' s s' : State) : Prop where
  steps : s.steps = s'.steps
  iterations : s.iterations = s'.iterations
  callDepth : s.callDepth = s'.callDepth
  checks : s.checks.count = s'.checks.count
  globals : s.scopes.globals = s'.scopes.globals
  builtins : s.scopes.builtins = s'.scopes.builtins
  output : ∃ lines, s.output = b.output ++ lines ∧ s'.output = b'.output ++ lines
  diagnostics : ∃ warnings,
    s.diagnostics = b.diagnostics ++ warnings ∧ s'.diagnostics = b'.diagnostics ++ warnings
  log : ∃ lines, s.log = b.log ++ lines ∧ s'.log = b'.log ++ lines
  mark : s.mark = s'.mark ∨ s.mark = b.mark ∧ s'.mark = b'.mark

structure Twins (b b' s s' : State) : Prop extends SameEffect b b' s s' where
  scopes : s.scopes = s'.scopes
  lines : b.output.size = b'.output.size

variable {b b' s s' : State}

theorem exists_push {x y z w : Array String} (h : ∃ added, x = y ++ added ∧ z = w ++ added)
    (line : String) : ∃ added, x.push line = y ++ added ∧ z.push line = w ++ added := by
  obtain ⟨added, rfl, rfl⟩ := h
  exact ⟨added.push line, Array.append_push.symm, Array.append_push.symm⟩

theorem SameEffect.left (h : SameEffect b b' s s') (caller caller' : State) :
    SameEffect b b' (s.left caller) (s'.left caller') :=
  { h with callDepth := congrArg (· - 1) h.callDepth }

namespace Twins

theorem size_output (h : Twins b b' s s') : s.output.size = s'.output.size := by
  obtain ⟨lines, hs, hs'⟩ := h.output
  rw [hs, hs', Array.size_append, Array.size_append, h.lines]

theorem checked (h : Twins b b' s s') : Twins b b' s.checked s'.checked :=
  { h with checks := congrArg (· + 1) h.checks }

theorem iterated (h : Twins b b' s s') : Twins b b' s.iterated s'.iterated :=
  { h.checked with iterations := congrArg (· + 1) h.iterations }

theorem stepped (h : Twins b b' s s') (mark : Option Mark) :
    Twins b b' (s.stepped mark) (s'.stepped mark) := by
  refine { h.checked with steps := congrArg (· + 1) h.steps, mark := ?_ }
  cases mark with
  | none => exact h.mark
  | some m => exact .inl rfl

theorem logged (h : Twins b b' s s') (cfg : Config) (line : String) :
    Twins b b' (s.logged cfg line) (s'.logged cfg line) := by
  unfold State.logged
  split
  · exact { h with log := exists_push h.log line }
  · exact h

theorem inScopes (h : Twins b b' s s') (scopes : Chain) :
    Twins b b' { s with scopes } { s' with scopes } :=
  { h with globals := rfl, builtins := rfl, scopes := rfl }

theorem pushed (h : Twins b b' s s') : Twins b b' s.scoped s'.scoped :=
  { h with scopes := congrArg (·.push {}) h.scopes }

theorem popped (h : Twins b b' s s') : Twins b b' s.unscoped s'.unscoped :=
  { h with scopes := congrArg Chain.pop h.scopes }

theorem entered (h : Twins b b' s s') : Twins b b' s.entered s'.entered where
  toSameEffect := { h.toSameEffect with callDepth := congrArg (· + 1) h.callDepth }
  scopes := congrArg (fun c : Chain => { c with locals := [{}] }) h.scopes
  lines := h.lines

theorem left (h : Twins b b' s s') {caller caller' : State}
    (hcallers : caller.scopes = caller'.scopes) :
    Twins b b' (s.left caller) (s'.left caller') where
  toSameEffect := h.toSameEffect.left caller caller'
  scopes := by
    unfold State.left
    rw [h.scopes, hcallers]
  lines := h.lines

theorem inScopes_rel (h : Twins b b' s s') (scopes : Option Chain) :
    Option.Rel (fun c c' => Twins b b' { s with scopes := c } { s' with scopes := c' })
      scopes scopes := by
  cases scopes with
  | none => exact .none
  | some c => exact .some (h.inScopes c)

end Twins

theorem twins_isBisimulation (cfg : Config) (b b' : State) :
    IsBisimulation cfg (fun _ => cfg.logLevel) (fun _ => False) (Twins b b') where
  steps h := h.steps
  iterations h := h.iterations
  callDepth h := h.callDepth
  checks h := h.checks
  lines h := h.size_output
  lookup? name h := by rw [h.scopes]
  declare? name v h := by
    rw [h.scopes]
    exact h.inScopes_rel _
  assign? name v h := by
    rw [h.scopes]
    exact h.inScopes_rel _
  checked h := h.checked
  stepped mark h := h.stepped mark
  iterated h := h.iterated
  printed line h := { h with output := exists_push h.output line }
  warned note h := { h with diagnostics := exists_push h.diagnostics note }
  logged line h := h.logged _ line
  extraLog := .inl rfl
  pushed h := h.pushed
  popped h := h.popped
  entered h := h.entered
  left hcallers h := h.left hcallers.scopes

/-- Every evaluation goes in step from twin states. -/
theorem lockstep_ofDepth (cfg : Config) (n : Nat) (b b' : State) :
    EvaluatorHas (fun c => ∀ s s', Twins b b' s s' → InStep (Twins b b') (c () s) (c () s'))
      (fun c => ∀ s s', Twins b b' s s' → InStep (Twins b b') (c () s) (c () s'))
      fun _ : Unit => .ofDepth cfg n := by
  have h := (twins_isBisimulation cfg b b').ofDepth n
  constructor
  · exact fun node s s' hs => (h.eval node s s' hs).resolve_left fun ⟨_, _, hfalse⟩ => hfalse
  · exact fun node s s' hs => (h.exec node s s' hs).resolve_left fun ⟨_, _, hfalse⟩ => hfalse
  · exact fun node s s' hs => (h.resolve node s s' hs).resolve_left fun ⟨_, _, hfalse⟩ => hfalse
  · exact fun decl params args s s' hs =>
      (h.enter decl params args s s' hs).resolve_left fun ⟨_, _, hfalse⟩ => hfalse

/-! ## Calls -/

/-- States with the same counters, globals and builtins. They can differ in the scopes of
the current call and in what has been shown and logged. -/
structure SameAround (s s' : State) : Prop where
  steps : s.steps = s'.steps
  iterations : s.iterations = s'.iterations
  callDepth : s.callDepth = s'.callDepth
  checks : s.checks.count = s'.checks.count
  lines : s.output.size = s'.output.size
  globals : s.scopes.globals = s'.scopes.globals
  builtins : s.scopes.builtins = s'.scopes.builtins

theorem exists_nothing (x y : Array String) : ∃ added, x = x ++ added ∧ y = y ++ added :=
  ⟨#[], Array.append_empty.symm, Array.append_empty.symm⟩

theorem SameAround.sameEffect (h : SameAround s s') : SameEffect s s' s s' where
  steps := h.steps
  iterations := h.iterations
  callDepth := h.callDepth
  checks := h.checks
  globals := h.globals
  builtins := h.builtins
  output := exists_nothing _ _
  diagnostics := exists_nothing _ _
  log := exists_nothing _ _
  mark := .inr ⟨rfl, rfl⟩

theorem SameAround.entered (h : SameAround s s') : Twins s s' s.entered s'.entered where
  toSameEffect := { h.sameEffect with callDepth := congrArg (· + 1) h.callDepth }
  scopes := by simp only [State.entered, h.globals, h.builtins]
  lines := h.lines

def State.withLocals (s : State) (locals : List Frame) : State :=
  { s with scopes := { s.scopes with locals } }

theorem callFunction_cases (deeper : Evaluator) (decl : Node) (args : List Value)
    (mark : Option Mark) :
    (∃ stop, deeper.callFunction decl args mark = throw stop) ∨
      ∃ params, deeper.callFunction decl args mark = inCall (deeper.enter decl params args) := by
  unfold Evaluator.callFunction
  cases decl.params? with
  | none => exact .inl ⟨.fault .missingPart, rfl⟩
  | some params =>
    change (∃ stop, (if args.length ≠ params.length then (_ : Eval Value) else _) = throw stop) ∨
      ∃ _, (if args.length ≠ params.length then (_ : Eval Value) else _) = _
    split
    · exact .inl ⟨_, rfl⟩
    · exact .inr ⟨params, rfl⟩

/-- A call leaves the scopes of its caller as they are. What it gives, how it ends and what
it changes depend on the arguments, the globals, the builtins and the counters only; in
particular the caller may have any other scopes. -/
theorem call_isolated (cfg : Config) (n : Nat) (decl : Node) (args : List Value)
    (mark : Option Mark) (s : State) :
    let call := (Evaluator.ofDepth cfg n).callFunction decl args mark
    (endState (call s)).scopes.locals = s.scopes.locals ∧
    (∀ s', SameAround s s' → InStep (SameEffect s s') (call s) (call s')) ∧
    ∀ locals,
      InStep (fun t t' => t' = t.withLocals locals) (call s) (call (s.withLocals locals)) := by
  intro call
  rcases callFunction_cases (.ofDepth cfg n) decl args mark with ⟨stop, hcall⟩ | ⟨params, hcall⟩
  · simp only [call, hcall]
    exact ⟨rfl, fun s' h => .error h.sameEffect, fun locals => .error rfl⟩
  · simp only [call, hcall]
    refine ⟨?_, fun s' h => ?_, fun locals => ?_⟩
    · rw [endState_inCall]
      rfl
    · have hinside := (lockstep_ofDepth cfg n s s').enter decl params args _ _ h.entered
      exact inStep_left hinside fun t t' ht => ht.toSameEffect.left s s'
    · -- the caller's scopes are set aside, so both calls start from one and the same state
      refine inStep_left (R := Eq) (.refl fun _ => rfl) fun t t' ht => ?_
      rw [← ht]
      rfl

/-- A function that sets a global, prints it and returns its argument in an array. -/
def noteDecl : Node :=
  .fnDecl (.str "note") [.str "x"] (.block [
    .assignment (.str "last") (.identifier (.str "x") none) none,
    .printLine (.identifier (.str "last") none) none,
    .returnWith (.array [.identifier (.str "x") none] none) none] none) none

def noteCaller (locals : List Frame) (diagnostics : Array String) : State :=
  { diagnostics, scopes := { locals, globals := ⟨[(.str "last", .undefined)]⟩ } }

theorem call_isolated_noteDecl :
    let call := (Evaluator.ofDepth {} nestingLimit).callFunction noteDecl [.text "a"] none
    let s := noteCaller [⟨[(.str "x", .undefined), (.str "last", .undefined)]⟩] #[]
    let s' := noteCaller [] #["earlier"]
    SameAround s s' ∧ InStep (SameEffect s s') (call s) (call s') ∧
      (endState (call s)).output = #["a"] := by
  intro call s s'
  have haround : SameAround s s' := ⟨rfl, rfl, rfl, rfl, rfl, rfl, rfl⟩
  exact ⟨haround, (call_isolated {} nestingLimit noteDecl [.text "a"] none s).2.1 s' haround,
    by decide +kernel⟩

end Orus.Run
