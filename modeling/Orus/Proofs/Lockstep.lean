import Orus.Proofs.Effects

/-! # Runs in step

Two runs go in step when, from related states, they give the same and leave related
states. What a run reads from its state and what it does to it is little, so it is enough
that the relation respects that: then the whole evaluator keeps it. The runs may keep
different logs, and the first may be cut short for a cause that excuses it. Nothing is said
about the second from there on.
-/

namespace Orus.Run

variable {α β : Type}

/-! ## Evaluations in step -/

/-- Results that are the same up to their states, which are related. -/
inductive InStep (R : State → State → Prop) :
    EStateM.Result Stop State α → EStateM.Result Stop State α → Prop where
  | ok {a : α} {t t' : State} : R t t' → InStep R (.ok a t) (.ok a t')
  | error {e : Stop} {t t' : State} : R t t' → InStep R (.error e t) (.error e t')

theorem InStep.refl {R : State → State → Prop} {r : EStateM.Result Stop State α}
    (h : ∀ t, R t t) : InStep R r r := by
  cases r with
  | ok a t => exact .ok (h t)
  | error e t => exact .error (h t)

theorem InStep.endState {R : State → State → Prop} {r r' : EStateM.Result Stop State α}
    (h : InStep R r r') : R (endState r) (endState r') := by
  cases h with
  | ok ht => exact ht
  | error ht => exact ht

/-- Two evaluations, at `false` and at `true`: from related states they give the same and
leave related states, unless a cause that is excused stops the first. -/
def Lockstep (R : State → State → Prop) (excused : Cause → Prop) (c : Bool → Eval α) : Prop :=
  ∀ s s', R s s' →
    (∃ cause, causeOf (c false s) = some cause ∧ excused cause) ∨
      InStep R (c false s) (c true s')

section Lockstep

variable {R : State → State → Prop} {excused : Cause → Prop}

theorem lockstep_pure (a : α) : Lockstep R excused fun _ => (pure a : Eval α) :=
  fun _ _ h => .inr (.ok h)

theorem lockstep_throw (stop : Stop) : Lockstep R excused fun _ => (throw stop : Eval α) :=
  fun _ _ h => .inr (.error h)

theorem lockstep_ofExcept (mark : Option Mark) (r : Except Failure α) :
    Lockstep R excused fun _ => ofExcept mark r := by
  cases r with
  | ok a => exact lockstep_pure a
  | error failure =>
    cases failure with
    | fault fault => exact lockstep_throw _
    | error e =>
      change Lockstep R excused fun _ => if e.cause = .nestingTooDeep then (_ : Eval α) else _
      split <;> exact lockstep_throw _

theorem Lockstep.bind {c : Bool → Eval α} {k : Bool → α → Eval β} (hc : Lockstep R excused c)
    (hk : ∀ a, Lockstep R excused fun i => k i a) : Lockstep R excused fun i => c i >>= k i := by
  intro s s' h
  rcases hc s s' h with ⟨cause, hcause, hexcused⟩ | hs
  · exact .inl ⟨cause, causeOf_bind hcause, hexcused⟩
  · generalize hr : c false s = r at hs
    generalize hr' : c true s' = r' at hs
    cases hs with
    | ok ht =>
      dsimp only
      rw [bind_of_ok hr, bind_of_ok hr']
      exact hk _ _ _ ht
    | error ht =>
      dsimp only
      rw [bind_of_error hr, bind_of_error hr']
      exact .inr (.error ht)

theorem Lockstep.catchReturn {c : Bool → Eval Unit} (h : Lockstep R excused c) :
    Lockstep R excused fun i => catchReturn (c i) := by
  intro s s' hs
  refine (h s s' hs).imp ?_ fun hr => ?_
  · rintro ⟨cause, hcause, hexcused⟩
    exact ⟨cause, by rwa [causeOf_catchReturn], hexcused⟩
  · simp only [Run.catchReturn]
    generalize c false s = r, c true s' = r' at hr
    cases hr with
    | ok ht => exact .ok ht
    | @error e _ _ ht =>
      cases e with
      | returned v => exact .ok ht
      | _ => exact .error ht

theorem Lockstep.loopRound {c : Bool → Eval Unit} (h : Lockstep R excused c) :
    Lockstep R excused fun i => loopRound (c i) := by
  intro s s' hs
  refine (h s s' hs).imp ?_ fun hr => ?_
  · rintro ⟨cause, hcause, hexcused⟩
    exact ⟨cause, by rwa [causeOf_loopRound], hexcused⟩
  · simp only [Run.loopRound]
    generalize c false s = r, c true s' = r' at hr
    cases hr with
    | ok ht => exact .ok ht
    | @error e _ _ ht =>
      cases e with
      | breakLoop | continueLoop => exact .ok ht
      | _ => exact .error ht

theorem Lockstep.orPure {c : Bool → Eval Unit} (h : Lockstep R excused c) (b : Bool) :
    Lockstep R excused fun i => if b = true then c i else pure () := by
  cases b with
  | false => exact lockstep_pure ()
  | true => exact h

/-- The first loop may have fewer rounds left than the second, if running out of them is
excused. -/
theorem lockstep_whileRounds {cfg : Bool → Config} {cond : Bool → Eval Bool}
    {body : Bool → Eval Unit} (htick : Lockstep R excused fun i => loopTick (cfg i))
    (hcond : Lockstep R excused cond) (hbody : Lockstep R excused body) (rounds : Bool → Nat)
    (hrounds : rounds false = rounds true ∨
      rounds false ≤ rounds true ∧ excused .iterationBudget) :
    Lockstep R excused fun i => whileRounds (cfg i) (cond i) (body i) (rounds i) := by
  generalize hn : rounds false = n at hrounds
  induction n generalizing rounds with
  | zero =>
    rcases hrounds with hsame | ⟨-, hexcused⟩
    · have hzero : ∀ i, rounds i = 0 := Bool.forall_bool.2 ⟨hn, hsame.symm⟩
      simp only [hzero]
      exact lockstep_throw _
    · intro s s' _
      dsimp only
      rw [hn]
      exact .inl ⟨.iterationBudget, rfl, hexcused⟩
  | succ n ih =>
    obtain ⟨m, hm⟩ : ∃ m, rounds true = m + 1 := Nat.exists_eq_add_one.2 (by omega)
    have hsucc : ∀ i, rounds i = (bif i then m else n) + 1 := Bool.forall_bool.2 ⟨hn, hm⟩
    simp only [hsucc]
    have hrest := ih (fun i => bif i then m else n) rfl
      (hrounds.imp (by simp only [hm, cond_true]; omega)
        (And.imp_left (by simp only [hm, cond_true]; omega)))
    have hround := hbody.loopRound.bind hrest.orPure
    exact hcond.bind (htick.bind fun _ => hround).orPure

theorem lockstep_declare {name : Name} {v : Value} (mark : Option Mark)
    (hdeclare : ∀ {s s'}, R s s' →
      Option.Rel (fun c c' => R { s with scopes := c } { s' with scopes := c' })
        (s.scopes.declare? name v) (s'.scopes.declare? name v)) :
    Lockstep R excused fun _ => declare name v mark := by
  intro s s' hs
  simp only [declare_eq]
  split
  · have hrel := hdeclare hs
    generalize s.scopes.declare? name v = c, s'.scopes.declare? name v = c' at hrel
    cases hrel with
    | some hc => exact .inr (.ok hc)
    | none => exact .inr (.error hs)
  · exact .inr (.error hs)

/-- Opening and closing a scope, which may change what relates the states. -/
theorem Lockstep.inScope {S : State → State → Prop} {c : Bool → Eval α}
    (hc : Lockstep S excused c) (pushed : ∀ {s s'}, R s s' → S s.scoped s'.scoped)
    (popped : ∀ {t t'}, S t t' → R t.unscoped t'.unscoped) :
    Lockstep R excused fun i => inScope (c i) := by
  intro s s' hs
  refine (hc _ _ (pushed hs)).imp ?_ fun hr => ?_
  · rintro ⟨cause, hcause, hexcused⟩
    exact ⟨cause, by rwa [causeOf_inScope], hexcused⟩
  · simp only [inScope_eq]
    generalize c false s.scoped = r, c true s'.scoped = r' at hr
    cases hr with
    | ok ht => exact .ok (popped ht)
    | error ht => exact .error (popped ht)

/-- Leaving two calls that went in step. -/
theorem inStep_left {R S : State → State → Prop} {c c' : Eval Value} {s s' : State}
    (hc : InStep R (c s.entered) (c' s'.entered))
    (hleft : ∀ t t', R t t' → S (t.left s) (t'.left s')) :
    InStep S (inCall c s) (inCall c' s') := by
  rw [inCall_eq, inCall_eq]
  generalize c s.entered = r, c' s'.entered = r' at hc
  cases hc with
  | ok ht => exact .ok (hleft _ _ ht)
  | @error e _ _ ht =>
    cases e with
    | returned v => exact .ok (hleft _ _ ht)
    | _ => exact .error (hleft _ _ ht)

end Lockstep

/-! ## Relations that the operations respect -/

def Config.logging (cfg : Config) (level : Nat) : Config :=
  { cfg with logLevel := level }

@[simp] theorem limits_logging (cfg : Config) (level : Nat) :
    (cfg.logging level).limits = cfg.limits := rfl

@[simp] theorem isCancelled_logging (cfg : Config) (level : Nat) (s : State) :
    isCancelled (cfg.logging level) s = isCancelled cfg s := rfl

theorem isCancelled_of_checks (cfg : Config) {s s' : State}
    (h : s.checks.count = s'.checks.count) : isCancelled cfg s = isCancelled cfg s' := by
  unfold isCancelled
  rw [h]

/-- A relation between the states of two runs, with a log of its own level each, that
respects what expressions read from their state and do to it, calls apart. Where the levels
differ, the first log is the longer one, it does not count, and nesting is an excuse. The
first run may have counted more iterations, and then their budget is an excuse. -/
structure IsPaced (cfg : Config) (level : Bool → Nat) (excused : Cause → Prop)
    (R : State → State → Prop) : Prop where
  steps {s s' : State} : R s s' → s.steps = s'.steps
  iterations_le {s s' : State} : R s s' → s'.iterations ≤ s.iterations
  callDepth {s s' : State} : R s s' → s.callDepth = s'.callDepth
  isCancelled_eq {s s' : State} : R s s' → isCancelled cfg s = isCancelled cfg s'
  lines {s s' : State} : R s s' → s.output.size = s'.output.size
  lookup? {s s' : State} (name : Name) : R s s' →
    s.scopes.lookup? name = s'.scopes.lookup? name
  assign? {s s' : State} (name : Name) (v : Value) : R s s' →
    Option.Rel (fun c c' => R { s with scopes := c } { s' with scopes := c' })
      (s.scopes.assign? name v) (s'.scopes.assign? name v)
  checked {s s' : State} : R s s' → R s.checked s'.checked
  stepped {s s' : State} (mark : Option Mark) : R s s' → R (s.stepped mark) (s'.stepped mark)
  iterated {s s' : State} : R s s' → R s.iterated s'.iterated
  printed {s s' : State} (line : String) : R s s' →
    R { s with output := s.output.push line } { s' with output := s'.output.push line }
  warned {s s' : State} (note : String) : R s s' →
    R { s with diagnostics := s.diagnostics.push note }
      { s' with diagnostics := s'.diagnostics.push note }
  logged {s s' : State} (line : String) : R s s' →
    R (s.logged (cfg.logging (level false)) line) (s'.logged (cfg.logging (level true)) line)
  extraLog : level true = level false ∨
    level true ≤ level false ∧ excused .nestingTooDeep ∧
      ∀ {s s' : State} (line : String), R s s' →
        R (s.logged (cfg.logging (level false)) line) s'
  extraIterations : (∀ {s s' : State}, R s s' → s.iterations = s'.iterations) ∨
    excused .iterationBudget

/-- A relation between the states of two runs that respects all that a run reads from its
state and all that it does to it, declarations, scopes and calls included. -/
structure IsSimulation (cfg : Config) (level : Bool → Nat) (excused : Cause → Prop)
    (R : State → State → Prop) : Prop extends IsPaced cfg level excused R where
  declare? {s s' : State} (name : Name) (v : Value) : R s s' →
    Option.Rel (fun c c' => R { s with scopes := c } { s' with scopes := c' })
      (s.scopes.declare? name v) (s'.scopes.declare? name v)
  pushed {s s' : State} : R s s' → R s.scoped s'.scoped
  popped {s s' : State} : R s s' → R s.unscoped s'.unscoped
  entered {s s' : State} : R s s' → R s.entered s'.entered
  left {s s' t t' : State} : R s s' → R t t' → R (t.left s) (t'.left s')

structure IsSteady (cfg : Config) (level : Bool → Nat) (excused : Cause → Prop)
    (R : State → State → Prop) : Prop extends IsPaced cfg level excused R where
  iterations {s s' : State} : R s s' → s.iterations = s'.iterations
  checks {s s' : State} : R s s' → s.checks.count = s'.checks.count
  iterations_le := fun h => Nat.le_of_eq (iterations h).symm
  isCancelled_eq := fun h => isCancelled_of_checks cfg (checks h)
  extraIterations := .inl iterations

structure IsBisimulation (cfg : Config) (level : Bool → Nat) (excused : Cause → Prop)
    (R : State → State → Prop) : Prop
    extends IsSteady cfg level excused R, IsSimulation cfg level excused R

namespace IsPaced

variable {cfg : Config} {level : Bool → Nat} {excused : Cause → Prop} {R : State → State → Prop}
  (h : IsPaced cfg level excused R)
include h

theorem lockstep_lookup (name : Name) : Lockstep R excused fun _ => lookup name := by
  intro s s' hs
  simp only [lookup_eq, h.lookup? name hs]
  split
  · exact .inr (.ok hs)
  · exact .inr (.error hs)

theorem lockstep_setVariable (name : Name) (v : Value) (mark : Option Mark) :
    Lockstep R excused fun _ => setVariable name v mark := by
  intro s s' hs
  simp only [setVariable_eq]
  split
  · have hrel := h.assign? name v hs
    generalize s.scopes.assign? name v = c, s'.scopes.assign? name v = c' at hrel
    cases hrel with
    | some hc => exact .inr (.ok hc)
    | none => exact .inr (.error hs)
  · exact .inr (.error hs)

theorem lockstep_warn (mark : Option Mark) (message : String) :
    Lockstep R excused fun _ => warn mark message :=
  fun _ _ hs => .inr (.ok (h.warned _ hs))

theorem lockstep_log (line : String) :
    Lockstep R excused fun i => log (cfg.logging (level i)) line := by
  intro s s' hs
  simp only [log_eq]
  exact .inr (.ok (h.logged line hs))

theorem lockstep_logFrom (threshold : Nat) {line : Bool → Eval String}
    (hline : Lockstep R excused line) (hlog : ∀ i, IsLogLine (line i)) :
    Lockstep R excused fun i => logFrom (cfg.logging (level i)) threshold (line i) := by
  have hboth : Lockstep R excused fun i => line i >>= log (cfg.logging (level i)) :=
    hline.bind h.lockstep_log
  have hsame : (∀ i, threshold ≤ level i) ∨ (∀ i, ¬ threshold ≤ level i) →
      Lockstep R excused fun i => logFrom (cfg.logging (level i)) threshold (line i) := by
    rintro (hall | hnone)
    · simpa only [logFrom_eq, Config.logging, hall, ↓reduceIte] using hboth
    · simpa only [logFrom_eq, Config.logging, hnone, ↓reduceIte] using lockstep_pure ()
  rcases h.extraLog with heq | ⟨hle, hexcused, hextra⟩
  · refine hsame ?_
    simp only [Bool.forall_bool, heq, and_self]
    exact Decidable.em _
  by_cases hsecond : threshold ≤ level true
  · exact hsame (.inl (Bool.forall_bool.2 ⟨Nat.le_trans hsecond hle, hsecond⟩))
  by_cases hfirst : threshold ≤ level false
  · -- only the first run writes the line, so only it can meet a value nested too deeply
    intro s s' hs
    simp only [logFrom_eq, Config.logging, hfirst, hsecond, ↓reduceIte]
    rcases hlog false s with ⟨text, htext⟩ | hdeep
    · rw [bind_of_ok htext, log_eq]
      exact .inr (.ok (hextra text hs))
    · rw [bind_of_error hdeep]
      exact .inl ⟨.nestingTooDeep, rfl, hexcused⟩
  · exact hsame (.inr (Bool.forall_bool.2 ⟨hfirst, hsecond⟩))

theorem lockstep_tick (mark : Option Mark) :
    Lockstep R excused fun i => tick (cfg.logging (level i)) mark := by
  intro s s' hs
  have hstepped := h.stepped mark hs
  refine .inr ?_
  dsimp only
  rw [tick_eq, tick_eq, isCancelled_logging, isCancelled_logging, limits_logging, limits_logging,
    h.isCancelled_eq hs, h.steps hstepped]
  split
  · exact .error (h.checked hs)
  · split
    · exact .error (h.logged _ hstepped)
    · exact .ok hstepped

theorem lockstep_loopTick : Lockstep R excused fun i => loopTick (cfg.logging (level i)) := by
  intro s s' hs
  have hiterated := h.iterated hs
  have hle := h.iterations_le hiterated
  dsimp only
  rw [loopTick_eq, loopTick_eq, isCancelled_logging, isCancelled_logging, limits_logging,
    limits_logging, h.isCancelled_eq hs]
  split
  · exact .inr (.error (h.checked hs))
  · split
    next hfirst =>
      rcases h.extraIterations with heq | hexcused
      · rw [heq hiterated] at hfirst
        rw [if_pos hfirst]
        exact .inr (.error (h.logged _ hiterated))
      · exact .inl ⟨.iterationBudget, rfl, hexcused⟩
    next hfirst =>
      rw [if_neg (by omega)]
      exact .inr (.ok hiterated)

theorem lockstep_emit (line : String) :
    Lockstep R excused fun i => emit (cfg.logging (level i)) line := by
  intro s s' hs
  refine .inr ?_
  dsimp only
  rw [emit_eq, emit_eq, limits_logging, limits_logging, h.lines hs]
  split
  · exact .error hs
  · exact .ok (h.printed line hs)

theorem lockstep_checkCallDepth :
    Lockstep R excused fun i => checkCallDepth (cfg.logging (level i)) := by
  intro s s' hs
  refine .inr ?_
  dsimp only
  rw [checkCallDepth_eq, checkCallDepth_eq, limits_logging, limits_logging, h.callDepth hs]
  split
  · exact .error (h.logged _ hs)
  · exact .ok hs

theorem lockstep_whileLoop {cond : Bool → Eval Bool} {body : Bool → Eval Unit}
    (hcond : Lockstep R excused cond) (hbody : Lockstep R excused body) :
    Lockstep R excused fun i => whileLoop (cfg.logging (level i)) (cond i) (body i) := by
  intro s s' hs
  have hle := h.iterations_le hs
  refine lockstep_whileRounds h.lockstep_loopTick hcond hbody
    (fun i => bif i then roundsLeft (cfg.logging (level true)) s'
      else roundsLeft (cfg.logging (level false)) s) ?_ s s' hs
  simp only [cond_true, cond_false, roundsLeft, limits_logging]
  refine h.extraIterations.imp (fun heq => ?_) fun hexcused => ⟨?_, hexcused⟩
  · rw [heq hs]
  · omega

end IsPaced

namespace IsSimulation

variable {cfg : Config} {level : Bool → Nat} {excused : Cause → Prop} {R : State → State → Prop}
  (h : IsSimulation cfg level excused R)
include h

theorem lockstep_declare (name : Name) (v : Value) (mark : Option Mark) :
    Lockstep R excused fun _ => declare name v mark :=
  Run.lockstep_declare mark (h.declare? name v)

theorem lockstep_inScope {c : Bool → Eval α} (hc : Lockstep R excused c) :
    Lockstep R excused fun i => inScope (c i) :=
  hc.inScope h.pushed h.popped

theorem lockstep_inCall {c : Bool → Eval Value} (hc : Lockstep R excused c) :
    Lockstep R excused fun i => inCall (c i) := by
  intro s s' hs
  refine (hc _ _ (h.entered hs)).imp ?_ fun hr => ?_
  · rintro ⟨cause, hcause, hexcused⟩
    exact ⟨cause, by rwa [causeOf_inCall], hexcused⟩
  · exact inStep_left hr fun _ _ => h.left hs

/-- The evaluator of any depth keeps a relation that the operations respect. -/
theorem compositional (n : Nat) :
    Compositional (fun i => cfg.logging (level i)) (fun _ => n) (Lockstep R excused)
      (Lockstep R excused) where
  pure := lockstep_pure
  bind := Lockstep.bind
  throw _ := lockstep_throw _
  lookup := h.lockstep_lookup
  declare := h.lockstep_declare
  setVariable := h.lockstep_setVariable
  warn := h.lockstep_warn
  shown _ := lockstep_ofExcept _ _
  operator _ _ _ _ := lockstep_ofExcept _ _
  builtin _ _ _ _ := lockstep_ofExcept _ _
  logFrom threshold _ := h.lockstep_logFrom threshold
  tick := h.lockstep_tick
  loopTick := h.lockstep_loopTick
  emit := h.lockstep_emit
  openScope := fun _ _ hs => .inr (.ok (h.pushed hs))
  inScope := h.lockstep_inScope
  enter hc := h.lockstep_checkCallDepth.bind fun _ => hc
  inCall := h.lockstep_inCall
  catchReturn := Lockstep.catchReturn
  loopRound := Lockstep.loopRound
  whileLoop := h.lockstep_whileLoop

theorem ofDepth (n : Nat) :
    EvaluatorHas (Lockstep R excused) (Lockstep R excused)
      fun i => .ofDepth (cfg.logging (level i)) n := by
  refine .ofDepth h.compositional ?_ n
  exact ⟨fun _ => lockstep_throw _, fun _ => lockstep_throw _, fun _ => lockstep_throw _,
    fun _ _ _ => lockstep_throw _⟩

end IsSimulation

/-! ## Relations between scopes -/

inductive State.InScopes (C : Chain → Chain → Prop) (s : State) : State → Prop where
  | intro {scopes : Chain} : C s.scopes scopes → State.InScopes C s { s with scopes }

theorem State.InScopes.scopes {C : Chain → Chain → Prop} {s s' : State} (h : s.InScopes C s') :
    C s.scopes s'.scopes := by
  cases h with
  | intro h => exact h

theorem State.inScopes_rel {C : Chain → Chain → Prop} (s : State) {c d : Option Chain}
    (h : Option.Rel C c d) :
    Option.Rel (fun c d => State.InScopes C { s with scopes := c } { s with scopes := d }) c d := by
  cases h with
  | none => exact .none
  | some h => exact .some (.intro h)

/-- States are compared by their scopes, of which expressions only look up names and assign
to them. -/
theorem isSteady_inScopes {C : Chain → Chain → Prop}
    (hlookup : ∀ {c d : Chain} (name : Name), C c d → c.lookup? name = d.lookup? name)
    (hassign : ∀ {c d : Chain} (name : Name) (v : Value), C c d →
      Option.Rel C (c.assign? name v) (d.assign? name v)) (cfg : Config) :
    IsSteady cfg (fun _ => cfg.logLevel) (fun _ => False) (State.InScopes C) where
  steps := fun ⟨_⟩ => rfl
  iterations := fun ⟨_⟩ => rfl
  callDepth := fun ⟨_⟩ => rfl
  checks := fun ⟨_⟩ => rfl
  lines := fun ⟨_⟩ => rfl
  lookup? name := fun ⟨hs⟩ => hlookup name hs
  assign? {s _} name v := fun ⟨hs⟩ => s.inScopes_rel (hassign name v hs)
  checked := fun ⟨hs⟩ => .intro hs
  stepped _ := fun ⟨hs⟩ => .intro hs
  iterated := fun ⟨hs⟩ => .intro hs
  printed _ := fun ⟨hs⟩ => .intro hs
  warned _ := fun ⟨hs⟩ => .intro hs
  logged line := by
    rintro ⟨hs⟩
    unfold State.logged
    split <;> exact .intro hs
  extraLog := .inl rfl

structure IsScopeBisimulation (C : Chain → Chain → Prop) : Prop where
  lookup? {c d : Chain} (name : Name) : C c d → c.lookup? name = d.lookup? name
  declare? {c d : Chain} (name : Name) (v : Value) : C c d →
    Option.Rel C (c.declare? name v) (d.declare? name v)
  assign? {c d : Chain} (name : Name) (v : Value) : C c d →
    Option.Rel C (c.assign? name v) (d.assign? name v)
  pushed {c d : Chain} : C c d → C (c.push {}) (d.push {})
  popped {c d : Chain} : C c d → C c.pop d.pop
  entered {c d : Chain} : C c d → C { c with locals := [{}] } { d with locals := [{}] }
  left {c d caller caller' : Chain} : C caller caller' → C c d →
    C { c with locals := caller.locals } { d with locals := caller'.locals }

namespace IsScopeBisimulation

variable {C : Chain → Chain → Prop} (h : IsScopeBisimulation C) (cfg : Config)
include h

theorem isBisimulation :
    IsBisimulation cfg (fun _ => cfg.logLevel) (fun _ => False) (State.InScopes C) where
  toIsSteady := isSteady_inScopes h.lookup? h.assign? cfg
  declare? {s _} name v := fun ⟨hs⟩ => s.inScopes_rel (h.declare? name v hs)
  pushed := fun ⟨hs⟩ => .intro (h.pushed hs)
  popped := fun ⟨hs⟩ => .intro (h.popped hs)
  entered := fun ⟨hs⟩ => .intro (h.entered hs)
  left := fun ⟨hcaller⟩ ⟨hs⟩ => .intro (h.left hcaller hs)

theorem runDeclared (n : Nat) (globals : List Node) (main : Option Node) {s s' : State}
    (hs : s.InScopes C s') :
    InStep (State.InScopes C) (Run.runDeclared (.ofDepth cfg n) globals main s)
      (Run.runDeclared (.ofDepth cfg n) globals main s') := by
  have hb := h.isBisimulation cfg
  have hrun := (hb.compositional n).runDeclared (hb.ofDepth n).exec globals main
  exact (hrun s s' hs).resolve_left fun ⟨_, _, hfalse⟩ => hfalse

theorem runProgram (n : Nat) (program : Node) {s s' : State} (hs : s.InScopes C s') :
    InStep (State.InScopes C) (Run.runProgram (.ofDepth cfg n) program s)
      (Run.runProgram (.ofDepth cfg n) program s') := by
  have hb := h.isBisimulation cfg
  have hrun := (hb.compositional n).runProgram (hb.ofDepth n).exec program
  exact (hrun s s' hs).resolve_left fun ⟨_, _, hfalse⟩ => hfalse

end IsScopeBisimulation

end Orus.Run
