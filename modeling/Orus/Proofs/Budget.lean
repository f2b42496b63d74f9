import Orus.Proofs.Failures
import Orus.Proofs.Limits

/-! # Budgets are kept

The counters of a run are raised before they are compared with their limits. No counter
is ever more than one above its limit, and the two that can exceed it do so only in the
run that fails for that reason, because nothing catches such an error. Every call that
is entered is left again.
-/

namespace Orus.Run

variable {α β : Type}

/-! ## Watching a run -/

/-- An evaluation with an alarm in its place when a check of the states before and after
it fails. -/
def watch (holds : State → Bool) (alarm : Stop) (c : Eval α) : Eval α := fun s =>
  if holds s && holds (endState (c s)) then c s else .error alarm s

def Evaluator.watched (holds : State → Bool) (alarm : Stop) (e : Evaluator) : Evaluator where
  depth := e.depth
  eval node := watch holds alarm (e.eval node)
  exec node := watch holds alarm (e.exec node)
  resolve node := watch holds alarm (e.resolve node)
  enter decl params args := watch holds alarm (e.enter decl params args)

def Evaluator.ofDepthWatched (cfg : Config) (holds : State → Bool) (alarm : Stop) :
    Nat → Evaluator
  | 0 => .watched holds alarm .exhausted
  | n + 1 => .watched holds alarm (.above cfg (ofDepthWatched cfg holds alarm n))

/-- A check never fails in a run: neither at its ends nor where the evaluation of an
expression, a statement, a marker or the inside of a call begins or ends. Whatever the
alarm would be, there is none. -/
def HoldsThroughout (cfg : Config) (depth : Nat) (program : Node) (holds : State → Bool) : Prop :=
  ∀ alarm, watch holds alarm (runProgram (.ofDepthWatched cfg holds alarm depth) program) {} =
    execute cfg depth program

theorem watch_eq {holds : State → Bool} {alarm : Stop} {c : Eval α} {s : State}
    (hs : holds s = true) (ht : holds (endState (c s)) = true) : watch holds alarm c s = c s := by
  simp only [watch, hs, ht, Bool.and_self, ↓reduceIte]

/-! ## Counters within their limits -/

/-- No counter is more than one above its limit, and there are no more lines than
allowed. -/
def isBounded (l : Limits) (s : State) : Bool :=
  s.steps ≤ l.maxSteps + 1 && s.iterations ≤ l.maxIterations + 1 &&
    s.callDepth ≤ l.maxCallDepth + 1 && s.output.size ≤ l.maxOutputLines

/-- No budget is exceeded, calls with the given excess apart. -/
structure InBudget (l : Limits) (excess : Int) (s : State) : Prop where
  steps : s.steps ≤ l.maxSteps
  iterations : s.iterations ≤ l.maxIterations
  callDepth : s.callDepth ≤ l.maxCallDepth + excess
  output : s.output.size ≤ l.maxOutputLines

/-- How an evaluation may end: a budget of steps or iterations is exceeded, by one, just
when this is the error, and all calls are left. -/
structure Accounted (l : Limits) (s : State) (r : EStateM.Result Stop State α) : Prop where
  steps : if causeOf r = some .stepBudget then ((endState r).steps : Int) = l.maxSteps + 1
    else (endState r).steps ≤ l.maxSteps
  iterations : if causeOf r = some .iterationBudget then
      ((endState r).iterations : Int) = l.maxIterations + 1
    else (endState r).iterations ≤ l.maxIterations
  callDepth : (endState r).callDepth = s.callDepth
  output : (endState r).output.size ≤ l.maxOutputLines
  growing : s.iterations ≤ (endState r).iterations

variable {l : Limits} {excess : Int} {s t : State}

theorem InBudget.quiet (h : InBudget l excess s) (hq : s.Quiet t) : InBudget l excess t where
  steps := hq.steps ▸ h.steps
  iterations := hq.iterations ▸ h.iterations
  callDepth := hq.callDepth ▸ h.callDepth
  output := hq.output ▸ h.output

theorem Accounted.congr {r : EStateM.Result Stop State α} {r' : EStateM.Result Stop State β}
    (h : Accounted l s r) (hcause : causeOf r' = causeOf r)
    (hstate : (endState r).Quiet (endState r')) : Accounted l s r' where
  steps := by simpa only [hcause, hstate.steps] using h.steps
  iterations := by simpa only [hcause, hstate.iterations] using h.iterations
  callDepth := hstate.callDepth.trans h.callDepth
  output := hstate.output ▸ h.output
  growing := hstate.iterations ▸ h.growing

theorem Accounted.start {r : EStateM.Result Stop State α} (h : Accounted l t r)
    (hq : s.Quiet t) : Accounted l s r :=
  ⟨h.steps, h.iterations, h.callDepth.trans hq.callDepth, h.output, hq.iterations ▸ h.growing⟩

theorem Accounted.inBudget {a : α} (h : Accounted l s (.ok a t)) (hs : InBudget l excess s) :
    InBudget l excess t where
  steps := by simpa using h.steps
  iterations := by simpa using h.iterations
  callDepth := by
    have hd : t.callDepth = s.callDepth := h.callDepth
    rw [hd]
    exact hs.callDepth
  output := h.output

theorem Accounted.trans {a : α} {r : EStateM.Result Stop State β}
    (h : Accounted l s (.ok a t)) (hr : Accounted l t r) : Accounted l s r where
  steps := hr.steps
  iterations := hr.iterations
  callDepth := hr.callDepth.trans h.callDepth
  output := hr.output
  growing := Nat.le_trans h.growing hr.growing

def Uncounted (r : EStateM.Result Stop State α) : Prop :=
  causeOf r ≠ some .stepBudget ∧ causeOf r ≠ some .iterationBudget

theorem accounted_of_quiet {r : EStateM.Result Stop State α} (hs : InBudget l excess s)
    (hq : s.Quiet (endState r)) (hr : Uncounted r) : Accounted l s r where
  steps := by
    rw [if_neg hr.1, hq.steps]
    exact hs.steps
  iterations := by
    rw [if_neg hr.2, hq.iterations]
    exact hs.iterations
  callDepth := hq.callDepth
  output := hq.output ▸ hs.output
  growing := Nat.le_of_eq hq.iterations.symm

theorem Quiet.uncounted {c : Eval α} (h : Quiet c) (s : State) : Uncounted (c s) := by
  have hstop : ∀ cause : Cause, cause.kind = .resourceExhausted → causeOf (c s) ≠ some cause := by
    intro cause hkind hcause
    obtain ⟨stop, hstop, hc⟩ := Option.bind_eq_some_iff.1 hcause
    have hg := h.stop s stop hstop
    cases stop with
    | error e =>
      cases hc
      simp [Stop.isGraceful, isGraceful, hkind] at hg
    | _ => cases hc
  exact ⟨hstop _ rfl, hstop _ rfl⟩

theorem uncounted_ofExcept {r : Except Failure α} {isDeep : Prop} (hr : FailsByValue isDeep r)
    (mark : Option Mark)
    (s : State) : Uncounted (ofExcept mark r s) := by
  have hcause : ∀ cause, causeOf (ofExcept mark r s) = some cause →
      cause.kind = .typeMismatch ∨ cause.kind = .divisionByZero ∨ cause = .nestingTooDeep := by
    intro cause h
    obtain ⟨stop, hstop, hc⟩ := Option.bind_eq_some_iff.1 h
    rcases stopOf_ofExcept hstop with ⟨f, -, rfl⟩ | ⟨e, e', he, rfl, hcause⟩
    · cases hc
    · cases hc
      rw [hcause]
      cases hr _ he with
      | mismatch h => exact .inl h
      | division h => exact .inr (.inl h)
      | tooDeep => exact .inr (.inr rfl)
  constructor <;> intro h <;> rcases hcause _ h with hk | hk | hk <;> cases hk

/-! ## Watched and unwatched evaluations -/

variable (cfg : Config)

/-- From a state, a watched evaluation ends like the unwatched one, and within the
limits. -/
def AccountsAt (s : State) (watched c : Eval α) : Prop :=
  watched s = c s ∧ Accounted cfg.limits s (c s)

/-- This holds from all states within the limits; the watched evaluation is the one with
index `true`. -/
def Accounts (c : Bool → Eval α) : Prop :=
  ∀ s, InBudget cfg.limits 0 s → AccountsAt cfg s (c true) (c false)

/-- This holds from all states within the limits that may have one more call open. -/
def AccountsInside (c : Bool → Eval Value) : Prop :=
  ∀ s, InBudget cfg.limits 1 s → AccountsAt cfg s (c true) (c false)

variable {cfg}

theorem accounts_of_same {c : Eval α}
    (h : ∀ s, InBudget cfg.limits 0 s → Accounted cfg.limits s (c s)) :
    Accounts cfg fun _ => c :=
  fun s hs => ⟨rfl, h s hs⟩

theorem Quiet.accounts {c : Eval α} (h : Quiet c) : Accounts cfg fun _ => c :=
  accounts_of_same fun s hs => accounted_of_quiet hs (h.state s) (h.uncounted s)

theorem accounts_ofExcept {r : Except Failure α} {isDeep : Prop} (hr : FailsByValue isDeep r)
    (mark : Option Mark) :
    Accounts cfg fun _ => ofExcept mark r :=
  accounts_of_same fun s hs => accounted_of_quiet hs
    ((endState_ofExcept mark r s).symm ▸ .refl s) (uncounted_ofExcept hr mark s)

theorem AccountsAt.bind {w c : Eval α} {m k : α → Eval β} (hc : AccountsAt cfg s w c)
    (hk : ∀ a t, c s = .ok a t → Accounted cfg.limits s (.ok a t) →
      AccountsAt cfg t (m a) (k a)) :
    AccountsAt cfg s (w >>= m) (c >>= k) := by
  obtain ⟨heq, hr⟩ := hc
  cases h : c s with
  | ok a t =>
    rw [h] at heq hr
    obtain ⟨heq', hr'⟩ := hk a t h hr
    unfold AccountsAt
    rw [bind_of_ok h, bind_of_ok heq]
    exact ⟨heq', hr.trans hr'⟩
  | error e t =>
    rw [h] at heq hr
    unfold AccountsAt
    rw [bind_of_error h, bind_of_error heq]
    exact ⟨rfl, hr.congr rfl (.refl t)⟩

theorem Accounts.bind {c : Bool → Eval α} {k : Bool → α → Eval β} (hc : Accounts cfg c)
    (hk : ∀ a, Accounts cfg fun i => k i a) : Accounts cfg fun i => c i >>= k i :=
  fun s hs => (hc s hs).bind fun a t _ ht => hk a t (ht.inBudget hs)

/-! ## The operations of a run -/

theorem accounts_log (line : String) : Accounts cfg fun _ => log cfg line := by
  refine accounts_of_same fun s hs => ?_
  rw [log_eq]
  exact accounted_of_quiet hs (s.quiet_logged cfg line) ⟨nofun, nofun⟩

theorem accounts_logFrom (level : Nat) {line : Bool → Eval String} (h : Accounts cfg line) :
    Accounts cfg fun i => logFrom cfg level (line i) := by
  simp only [logFrom_eq]
  by_cases hl : level ≤ cfg.logLevel
  · simp only [hl, ↓reduceIte]
    exact h.bind accounts_log
  · simp only [hl, ↓reduceIte]
    exact (quiet_pure ()).accounts

theorem accounts_tick (mark : Option Mark) : Accounts cfg fun _ => tick cfg mark := by
  refine accounts_of_same fun s hs => ?_
  have hsteps : (s.stepped mark).steps = s.steps + 1 := rfl
  have := hs.steps
  rw [tick_eq]
  split
  · exact ⟨hs.steps, hs.iterations, rfl, hs.output, Nat.le_refl _⟩
  · split
    · refine Accounted.congr (α := Unit) (r := .error _ (s.stepped mark)) ?_ rfl
        ((s.stepped mark).quiet_logged cfg _)
      refine ⟨?_, hs.iterations, rfl, hs.output, Nat.le_refl _⟩
      change ((s.stepped mark).steps : Int) = cfg.limits.maxSteps + 1
      omega
    · refine ⟨?_, hs.iterations, rfl, hs.output, Nat.le_refl _⟩
      change ((s.stepped mark).steps : Int) ≤ cfg.limits.maxSteps
      omega

theorem accounts_loopTick : Accounts cfg fun _ => loopTick cfg := by
  refine accounts_of_same fun s hs => ?_
  have hiterations : s.iterated.iterations = s.iterations + 1 := rfl
  have := hs.iterations
  rw [loopTick_eq]
  split
  · exact ⟨hs.steps, hs.iterations, rfl, hs.output, Nat.le_refl _⟩
  · split
    · refine Accounted.congr (α := Unit) (r := .error _ s.iterated) ?_ rfl
        (s.iterated.quiet_logged cfg _)
      refine ⟨hs.steps, ?_, rfl, hs.output, Nat.le_succ _⟩
      change (s.iterated.iterations : Int) = cfg.limits.maxIterations + 1
      omega
    · refine ⟨hs.steps, ?_, rfl, hs.output, Nat.le_succ _⟩
      change (s.iterated.iterations : Int) ≤ cfg.limits.maxIterations
      omega

theorem accounts_emit (line : String) : Accounts cfg fun _ => emit cfg line := by
  refine accounts_of_same fun s hs => ?_
  rw [emit_eq]
  split
  · exact accounted_of_quiet hs (.refl s) ⟨nofun, nofun⟩
  · refine ⟨hs.steps, hs.iterations, rfl, ?_, Nat.le_refl _⟩
    change ((s.output.push line).size : Int) ≤ cfg.limits.maxOutputLines
    rw [Array.size_push]
    omega

/-! ## Evaluations inside others -/

theorem accounts_inScope {c : Bool → Eval α} (h : Accounts cfg c) :
    Accounts cfg fun i => inScope (c i) := by
  intro s hs
  obtain ⟨heq, hr⟩ := h s.scoped (hs.quiet s.quiet_scoped)
  refine ⟨by simp only [inScope_eq, heq], ?_⟩
  refine (hr.start s.quiet_scoped).congr (causeOf_inScope _ s) ?_
  rw [endState_inScope]
  exact State.quiet_unscoped _

theorem accounts_catchReturn {c : Bool → Eval Unit} (h : Accounts cfg c) :
    Accounts cfg fun i => catchReturn (c i) := by
  intro s hs
  obtain ⟨heq, hr⟩ := h s hs
  refine ⟨by simp only [catchReturn, heq], hr.congr (causeOf_catchReturn _ s) ?_⟩
  rw [endState_catchReturn]
  exact .refl _

theorem accountsAt_loopRound {w c : Eval Unit} (h : AccountsAt cfg s w c) :
    AccountsAt cfg s (loopRound w) (loopRound c) := by
  obtain ⟨heq, hr⟩ := h
  refine ⟨by simp only [loopRound, heq], hr.congr (causeOf_loopRound _ s) ?_⟩
  rw [endState_loopRound]
  exact .refl _

theorem accounts_enter {c : Bool → Eval Value} (h : Accounts cfg c) :
    AccountsInside cfg fun i => checkCallDepth cfg >>= fun _ => c i := by
  intro s hs
  by_cases hd : cfg.limits.maxCallDepth < s.callDepth
  · have hstop := (checkCallDepth_eq cfg s).trans (if_pos hd)
    refine ⟨?_, ?_⟩
    · simp only [bind_of_error hstop]
    · simp only [bind_of_error hstop]
      exact accounted_of_quiet hs (s.quiet_logged cfg _) ⟨nofun, nofun⟩
  · have hok := (checkCallDepth_eq cfg s).trans (if_neg hd)
    have hs' : InBudget cfg.limits 0 s := ⟨hs.steps, hs.iterations, by omega, hs.output⟩
    unfold AccountsAt
    simp only [bind_of_ok hok]
    exact h s hs'

theorem accounts_inCall {c : Bool → Eval Value} (h : AccountsInside cfg c) :
    Accounts cfg fun i => inCall (c i) := by
  intro s hs
  have hdepth : s.entered.callDepth = s.callDepth + 1 := rfl
  have hs' : InBudget cfg.limits 1 s.entered := by
    refine ⟨hs.steps, hs.iterations, ?_, hs.output⟩
    have := hs.callDepth
    omega
  obtain ⟨heq, hr⟩ := h s.entered hs'
  refine ⟨by simp only [inCall_eq, heq], ?_⟩
  constructor <;> simp only [causeOf_inCall, endState_inCall, State.steps_left,
    State.iterations_left, State.callDepth_left, State.output_left]
  · exact hr.steps
  · exact hr.iterations
  · rw [hr.callDepth, hdepth, Nat.add_sub_cancel]
  · exact hr.output
  · exact hr.growing

/-- The rounds that a loop has do not run out before the iterations do. -/
theorem accountsAt_whileRounds {cond : Bool → Eval Bool} {body : Bool → Eval Unit}
    (hcond : Accounts cfg cond) (hbody : Accounts cfg body) (n : Nat) (s : State)
    (hs : InBudget cfg.limits 0 s) (hn : roundsLeft cfg s ≤ n) :
    AccountsAt cfg s (whileRounds cfg (cond true) (body true) n)
      (whileRounds cfg (cond false) (body false) n) := by
  induction n generalizing s with
  | zero => exact absurd hn (Nat.not_succ_le_zero _)
  | succ n ih =>
    refine (hcond s hs).bind fun holds t _ ht => ?_
    have hts := ht.inBudget hs
    cases holds with
    | false => exact (quiet_pure ()).accounts t hts
    | true =>
      refine (accounts_loopTick t hts).bind fun _ u hut hu => ?_
      have hus := hu.inBudget hts
      obtain ⟨rfl, hmax⟩ := loopTick_ok cfg hut
      refine (accountsAt_loopRound (hbody _ hus)).bind fun goOn v _ hv => ?_
      have hvs := hv.inBudget hus
      cases goOn with
      | false => exact (quiet_pure ()).accounts v hvs
      | true =>
        refine ih v hvs ?_
        have hst : s.iterations ≤ t.iterations := ht.growing
        have htv : t.iterations + 1 ≤ v.iterations := hv.growing
        have hvmax := hvs.iterations
        unfold roundsLeft at hn ⊢
        omega

theorem accounts_whileLoop {cond : Bool → Eval Bool} {body : Bool → Eval Unit}
    (hcond : Accounts cfg cond) (hbody : Accounts cfg body) :
    Accounts cfg fun i => whileLoop cfg (cond i) (body i) :=
  fun s hs => accountsAt_whileRounds hcond hbody _ s hs (Nat.le_refl _)

/-! ## The evaluator -/

theorem accounts_compositional (n : Nat) :
    Compositional (fun _ : Bool => cfg) (fun _ => n) (Accounts cfg) (AccountsInside cfg) where
  pure a := (quiet_pure a).accounts
  bind := Accounts.bind
  throw h := (quiet_throw h).accounts
  lookup name := (quiet_lookup name).accounts
  declare name v mark := (quiet_declare name v mark).accounts
  setVariable name v mark := (quiet_setVariable name v mark).accounts
  warn mark message := (quiet_warn mark message).accounts
  shown _ := accounts_ofExcept (failsByValue_shown id) none
  operator mark op a b := accounts_ofExcept (failsByValue_applyOperator n op a b) mark
  builtin mark _ _ hargs := accounts_ofExcept (failsByValue_apply _ hargs) mark
  logFrom level _ hline _ := accounts_logFrom level hline
  tick := accounts_tick
  loopTick := accounts_loopTick
  emit := accounts_emit
  openScope := quiet_openScope.accounts
  inScope := accounts_inScope
  enter := accounts_enter
  inCall := accounts_inCall
  catchReturn := accounts_catchReturn
  loopRound h s hs := accountsAt_loopRound (h s hs)
  whileLoop := accounts_whileLoop

theorem InBudget.isBounded (h : InBudget l excess s) (he : excess ≤ 1) : isBounded l s = true := by
  have := h.steps
  have := h.iterations
  have := h.callDepth
  have := h.output
  simp only [Run.isBounded, Bool.and_eq_true, decide_eq_true_eq]
  omega

theorem Accounted.isBounded {r : EStateM.Result Stop State α} (h : Accounted l s r)
    (hs : InBudget l excess s) (he : excess ≤ 1) : isBounded l (endState r) = true := by
  have hsteps := h.steps
  have hiterations := h.iterations
  have := h.callDepth
  have := hs.callDepth
  have := h.output
  simp only [Run.isBounded, Bool.and_eq_true, decide_eq_true_eq]
  refine ⟨⟨⟨?_, ?_⟩, by omega⟩, by omega⟩
  · split at hsteps <;> omega
  · split at hiterations <;> omega

theorem AccountsAt.watch {w c : Eval α} (h : AccountsAt cfg s w c)
    (hs : InBudget cfg.limits excess s) (he : excess ≤ 1) (alarm : Stop) :
    AccountsAt cfg s (watch (isBounded cfg.limits) alarm w) c := by
  obtain ⟨heq, hr⟩ := h
  refine ⟨?_, hr⟩
  rw [watch_eq (hs.isBounded he), heq]
  rw [heq]
  exact hr.isBounded hs he

def evaluatorPair (cfg : Config) (alarm : Stop) (n : Nat) : Bool → Evaluator
  | true => .ofDepthWatched cfg (isBounded cfg.limits) alarm n
  | false => .ofDepth cfg n

theorem depth_evaluatorPair (alarm : Stop) (n : Nat) (watched : Bool) :
    (evaluatorPair cfg alarm n watched).depth = n := by
  cases watched with
  | false => exact depth_ofDepth cfg n
  | true =>
    induction n with
    | zero => rfl
    | succ n ih => exact congrArg (· + 1) ih

/-- Evaluators that end alike and within the limits still do when the first is watched. -/
theorem accounts_watched {e e' : Bool → Evaluator} {alarm : Stop}
    (he : EvaluatorHas (Accounts cfg) (AccountsInside cfg) e)
    (htrue : e' true = .watched (isBounded cfg.limits) alarm (e true))
    (hfalse : e' false = e false) : EvaluatorHas (Accounts cfg) (AccountsInside cfg) e' := by
  constructor
  · intro node s hs
    simp only [htrue, hfalse]
    exact (he.eval node s hs).watch hs (by omega) alarm
  · intro node s hs
    simp only [htrue, hfalse]
    exact (he.exec node s hs).watch hs (by omega) alarm
  · intro node s hs
    simp only [htrue, hfalse]
    exact (he.resolve node s hs).watch hs (by omega) alarm
  · intro decl params args s hs
    simp only [htrue, hfalse]
    exact (he.enter decl params args s hs).watch hs (by omega) alarm

theorem accounts_exhausted :
    EvaluatorHas (Accounts cfg) (AccountsInside cfg) fun _ => .exhausted := by
  have htooDeep : ∀ {α : Type} {excess : Int} (s : State), InBudget cfg.limits excess s →
      AccountsAt cfg s (tooDeep : Eval α) tooDeep :=
    fun s hs => ⟨rfl, accounted_of_quiet hs (.refl s) ⟨nofun, nofun⟩⟩
  exact ⟨fun _ => htooDeep, fun _ => htooDeep, fun _ => htooDeep, fun _ _ _ => htooDeep⟩

theorem accounts_evaluatorPair (alarm : Stop) (n : Nat) :
    EvaluatorHas (Accounts cfg) (AccountsInside cfg) (evaluatorPair cfg alarm n) := by
  induction n with
  | zero => exact accounts_watched accounts_exhausted rfl rfl
  | succ n ih =>
    have habove := EvaluatorHas.above (accounts_compositional n).blockwise
      (depth_evaluatorPair alarm n) ih
    exact accounts_watched habove rfl rfl

/-! ## Runs -/

theorem inBudget_initial (h : cfg.limits.Nonnegative) : InBudget cfg.limits 0 {} where
  steps := h.steps
  iterations := h.iterations
  callDepth := by simpa using h.callDepth
  output := h.outputLines

theorem accountsAt_execute (h : cfg.limits.Nonnegative) (depth : Nat) (program : Node)
    (alarm : Stop) :
    AccountsAt cfg {}
      (runProgram (.ofDepthWatched cfg (isBounded cfg.limits) alarm depth) program)
      (runProgram (.ofDepth cfg depth) program) :=
  (accounts_compositional depth).runProgram (accounts_evaluatorPair alarm depth).exec program {}
    (inBudget_initial h)

/-- The counters of a run stay within one of their limits throughout, and the lines
within theirs; in the end no call is open; and steps or iterations are one above their
limit just when the run failed because of it. -/
theorem execute_within_limits (cfg : Config) (depth : Nat) (program : Node)
    (h : cfg.limits.Nonnegative) :
    HoldsThroughout cfg depth program (isBounded cfg.limits) ∧
    (endState (execute cfg depth program)).callDepth = 0 ∧
    (causeOf (execute cfg depth program) = some .stepBudget ↔
      ((endState (execute cfg depth program)).steps : Int) = cfg.limits.maxSteps + 1) ∧
    (causeOf (execute cfg depth program) = some .iterationBudget ↔
      ((endState (execute cfg depth program)).iterations : Int) = cfg.limits.maxIterations + 1) ∧
    (¬ IsExhausted (execute cfg depth program) →
      (endState (execute cfg depth program)).steps ≤ cfg.limits.maxSteps ∧
      (endState (execute cfg depth program)).iterations ≤ cfg.limits.maxIterations) := by
  have hr : Accounted cfg.limits {} (execute cfg depth program) :=
    (accountsAt_execute h depth program .breakLoop).2
  have hsteps := hr.steps
  have hiterations := hr.iterations
  refine ⟨fun alarm => ?_, hr.callDepth, ?_, ?_, fun hne => ⟨?_, ?_⟩⟩
  · exact ((accountsAt_execute h depth program alarm).watch (inBudget_initial h)
      (by omega) alarm).1
  · split at hsteps
    next hc => exact iff_of_true hc hsteps
    next hc => exact iff_of_false hc (by omega)
  · split at hiterations
    next hc => exact iff_of_true hc hiterations
    next hc => exact iff_of_false hc (by omega)
  · rwa [if_neg fun hc => hne (by rw [IsExhausted, hc]; rfl)] at hsteps
  · rwa [if_neg fun hc => hne (by rw [IsExhausted, hc]; rfl)] at hiterations

/-- A program whose loop never ends by itself. -/
def endlessLoop : Node :=
  .program [.fnDecl (.str "main") [] (.block [
    .whileLoop (.string [.raw (.str "go")] none) (.block [] none) none] none) none] [] 0 none

theorem execute_endlessLoop_within_limits :
    Limits.Nonnegative { maxIterations := 3 } ∧
    causeOf (execute { limits := { maxIterations := 3 } } 9 endlessLoop) = some .iterationBudget ∧
    (endState (execute { limits := { maxIterations := 3 } } 9 endlessLoop)).iterations = 4 := by
  have hn : Limits.Nonnegative { maxIterations := 3 } := by constructor <;> decide
  have hc : causeOf (execute { limits := { maxIterations := 3 } } 9 endlessLoop) =
      some .iterationBudget := by decide +kernel
  refine ⟨hn, hc, ?_⟩
  exact Int.ofNat_inj.1 ((execute_within_limits _ 9 endlessLoop hn).2.2.2.1.1 hc)

end Orus.Run
