import Orus.Proofs.Compositional

/-! # What the operations of a run do

The operations that touch the state, as equations between what they are given and what
they leave. Proofs about runs use these and do not open the operations.
-/

namespace Orus.Run

variable {α β : Type}

def endState : EStateM.Result Stop State α → State
  | .ok _ t => t
  | .error _ t => t

def stopOf : EStateM.Result Stop State α → Option Stop
  | .ok _ _ => none
  | .error e _ => some e

def Stop.cause? : Stop → Option Cause
  | .error e => some e.cause
  | _ => none

def causeOf (r : EStateM.Result Stop State α) : Option Cause :=
  (stopOf r).bind Stop.cause?

def IsExhausted (r : EStateM.Result Stop State α) : Prop :=
  (causeOf r).map Cause.kind = some .resourceExhausted

@[simp] theorem endState_ok (a : α) (t : State) : endState (.ok a t) = t := rfl
@[simp] theorem endState_error (e : Stop) (t : State) :
    endState (.error e t : EStateM.Result Stop State α) = t := rfl
@[simp] theorem stopOf_ok (a : α) (t : State) : stopOf (.ok a t) = none := rfl
@[simp] theorem stopOf_error (e : Stop) (t : State) :
    stopOf (.error e t : EStateM.Result Stop State α) = some e := rfl
@[simp] theorem causeOf_ok (a : α) (t : State) : causeOf (.ok a t) = none := rfl
@[simp] theorem causeOf_error (e : Stop) (t : State) :
    causeOf (.error e t : EStateM.Result Stop State α) = e.cause? := rfl

/-! ## Sequences -/

theorem bind_of_ok {c : Eval α} {k : α → Eval β} {s t : State} {a : α} (h : c s = .ok a t) :
    (c >>= k) s = k a t := by
  change EStateM.bind c k s = _
  simp only [EStateM.bind, h]

theorem bind_of_error {c : Eval α} {k : α → Eval β} {s t : State} {e : Stop}
    (h : c s = .error e t) : (c >>= k) s = .error e t := by
  change EStateM.bind c k s = _
  simp only [EStateM.bind, h]

theorem causeOf_bind {c : Eval α} {k : α → Eval β} {s : State} {cause : Cause}
    (h : causeOf (c s) = some cause) : causeOf ((c >>= k) s) = some cause := by
  cases hc : c s with
  | ok a t =>
    rw [hc] at h
    cases h
  | error e t =>
    rw [hc] at h
    rwa [bind_of_error hc]

theorem bind_congr_of_ok {c : Eval α} {k k' : α → Eval β} {s : State}
    (h : ∀ a t, c s = .ok a t → k a t = k' a t) : (c >>= k) s = (c >>= k') s := by
  cases hc : c s with
  | ok a t => rw [bind_of_ok hc, bind_of_ok hc, h a t hc]
  | error e t => rw [bind_of_error hc, bind_of_error hc]

/-! ## Counters -/

variable (cfg : Config)

/-- Whether a run in this state has been cancelled by its next check. -/
def isCancelled (s : State) : Bool :=
  cfg.cancelAfter.any (· ≤ s.checks.count)

def State.checked (s : State) : State :=
  { s with checks := s.checks.add s.progress }

def State.stepped (s : State) (mark : Option Mark) : State :=
  { s.checked with steps := s.steps + 1, mark := mark <|> s.mark }

def State.iterated (s : State) : State :=
  { s.checked with iterations := s.iterations + 1 }

/-- The state with one more line in the log, if there is a log. -/
def State.logged (s : State) (line : String) : State :=
  if 0 < cfg.logLevel then { s with log := s.log.push line } else s

theorem scopes_logged (s : State) (line : String) : (s.logged cfg line).scopes = s.scopes := by
  unfold State.logged
  split <;> rfl

theorem log_eq (line : String) (s : State) : log cfg line s = .ok () (s.logged cfg line) := by
  unfold log State.logged
  split <;> rfl

theorem check_eq (s : State) : check cfg s =
    if isCancelled cfg s then .error (.error ⟨.cancelled, none⟩) s.checked
    else .ok () s.checked := by
  change (if isCancelled cfg s then fail none .cancelled else pure ()) s.checked = _
  split <;> rfl

theorem tick_eq (mark : Option Mark) (s : State) : tick cfg mark s =
    if isCancelled cfg s then .error (.error ⟨.cancelled, none⟩) s.checked
    else if cfg.limits.maxSteps < (s.stepped mark).steps then .error (.error ⟨.stepBudget, none⟩)
      ((s.stepped mark).logged cfg s!"step budget of {cfg.limits.maxSteps} exhausted")
    else .ok () (s.stepped mark) := by
  unfold tick
  by_cases hc : isCancelled cfg s = true
  · rw [if_pos hc]
    exact bind_of_error (by rw [check_eq, if_pos hc])
  · rw [if_neg hc, bind_of_ok (by rw [check_eq, if_neg hc])]
    change (if cfg.limits.maxSteps < (s.stepped mark).steps then (_ : Eval Unit) else _)
      (s.stepped mark) = _
    split
    · exact bind_of_ok (log_eq cfg _ _)
    · rfl

theorem tick_ok {mark : Option Mark} {s t : State} {a : Unit} (h : tick cfg mark s = .ok a t) :
    t = s.stepped mark ∧ (s.stepped mark).steps ≤ cfg.limits.maxSteps := by
  rw [tick_eq] at h
  split at h
  · cases h
  · split at h
    · cases h
    · cases h
      exact ⟨rfl, by omega⟩

theorem loopTick_eq (s : State) : loopTick cfg s =
    if isCancelled cfg s then .error (.error ⟨.cancelled, none⟩) s.checked
    else if cfg.limits.maxIterations < s.iterated.iterations then
      .error (.error ⟨.iterationBudget, none⟩)
        (s.iterated.logged cfg s!"iteration budget of {cfg.limits.maxIterations} exhausted")
    else .ok () s.iterated := by
  unfold loopTick
  by_cases hc : isCancelled cfg s = true
  · rw [if_pos hc]
    exact bind_of_error (by rw [check_eq, if_pos hc])
  · rw [if_neg hc, bind_of_ok (by rw [check_eq, if_neg hc])]
    change (if cfg.limits.maxIterations < s.iterated.iterations then (_ : Eval Unit) else _)
      s.iterated = _
    split
    · exact bind_of_ok (log_eq cfg _ _)
    · rfl

theorem loopTick_ok {s t : State} {a : Unit} (h : loopTick cfg s = .ok a t) :
    t = s.iterated ∧ s.iterated.iterations ≤ cfg.limits.maxIterations := by
  rw [loopTick_eq] at h
  split at h
  · cases h
  · split at h
    · cases h
    · cases h
      exact ⟨rfl, by omega⟩

theorem checkCallDepth_eq (s : State) : checkCallDepth cfg s =
    if cfg.limits.maxCallDepth < s.callDepth then .error (.error ⟨.callDepth, none⟩)
      (s.logged cfg s!"call depth limit of {cfg.limits.maxCallDepth} exhausted")
    else .ok () s := by
  change (if cfg.limits.maxCallDepth < s.callDepth then (_ : Eval Unit) else _) s = _
  split
  · exact bind_of_ok (log_eq cfg _ _)
  · rfl

theorem emit_eq (line : String) (s : State) : emit cfg line s =
    if cfg.limits.maxOutputLines ≤ s.output.size then .error (.error ⟨.outputBudget, none⟩) s
    else .ok () { s with output := s.output.push line } := by
  change (if cfg.limits.maxOutputLines ≤ s.output.size then (_ : Eval Unit) else _) s = _
  split <;> rfl

/-! ## Warnings -/

/-- The warning that a message about a place is. -/
def noted (message : String) (mark : Option Mark) : String :=
  message ++ match mark with
    | some m => m.note
    | none => ""

def State.warned (s : State) (warnings : List String) : State :=
  { s with diagnostics := s.diagnostics ++ warnings.toArray }

@[simp] theorem State.scopes_warned (s : State) (warnings : List String) :
    (s.warned warnings).scopes = s.scopes := rfl

@[simp] theorem State.warned_nil (s : State) : s.warned [] = s := by
  simp [State.warned]

@[simp] theorem State.warned_warned (s : State) (first second : List String) :
    (s.warned first).warned second = s.warned (first ++ second) := by
  simp [State.warned]

theorem warn_eq (mark : Option Mark) (message : String) (s : State) :
    warn mark message s = .ok () (s.warned [noted message mark]) := by
  change EStateM.Result.ok () { s with diagnostics := s.diagnostics.push (noted message mark) } = _
  simp [State.warned]

/-! ## Scopes -/

/-- Whether a name can be one. -/
def isUsable : Name → Bool
  | .arr _ | .obj _ => false
  | _ => true

@[simp] theorem isUsable_str (name : String) : isUsable (.str name) = true := rfl

theorem checkName_eq (name : Name) (s : State) : checkName name s =
    if isUsable name then .ok () s else .error (.fault (.badName name.kind)) s := by
  cases name <;> rfl

theorem lookup_eq (name : Name) (s : State) : lookup name s =
    if isUsable name then .ok (s.scopes.lookup? name) s
    else .error (.fault (.badName name.kind)) s := by
  unfold lookup
  split
  next h => rw [bind_of_ok (by rw [checkName_eq, if_pos h])]; rfl
  next h => exact bind_of_error (by rw [checkName_eq, if_neg h])

theorem declare_eq (name : Name) (v : Value) (mark : Option Mark) (s : State) :
    declare name v mark s =
      if isUsable name then
        match s.scopes.declare? name v with
        | some scopes => .ok () { s with scopes }
        | none => .error (.error ⟨.redeclared name, mark⟩) s
      else .error (.fault (.badName name.kind)) s := by
  unfold declare
  split
  next h =>
    rw [bind_of_ok (by rw [checkName_eq, if_pos h])]
    change (match s.scopes.declare? name v with | some _ => (_ : Eval Unit) | none => _) s = _
    cases s.scopes.declare? name v <;> rfl
  next h => exact bind_of_error (by rw [checkName_eq, if_neg h])

theorem setVariable_eq (name : Name) (v : Value) (mark : Option Mark) (s : State) :
    setVariable name v mark s =
      if isUsable name then
        match s.scopes.assign? name v with
        | some scopes => .ok () { s with scopes }
        | none => .error (.error ⟨.undeclaredVariable name, mark⟩) s
      else .error (.fault (.badName name.kind)) s := by
  unfold setVariable
  split
  next h =>
    rw [bind_of_ok (by rw [checkName_eq, if_pos h])]
    change (match s.scopes.assign? name v with | some _ => (_ : Eval Unit) | none => _) s = _
    cases s.scopes.assign? name v <;> rfl
  next h => exact bind_of_error (by rw [checkName_eq, if_neg h])

/-! ## Evaluations inside others -/

def State.scoped (s : State) : State :=
  { s with scopes := s.scopes.push {} }

def State.unscoped (s : State) : State :=
  { s with scopes := s.scopes.pop }

def State.entered (s : State) : State :=
  { s with callDepth := s.callDepth + 1, scopes := { s.scopes with locals := [{}] } }

/-- The state after a call from another state. -/
def State.left (s caller : State) : State :=
  { s with
    callDepth := s.callDepth - 1
    scopes := { s.scopes with locals := caller.scopes.locals } }

@[simp] theorem State.steps_left (s caller : State) : (s.left caller).steps = s.steps := rfl
@[simp] theorem State.iterations_left (s caller : State) :
    (s.left caller).iterations = s.iterations := rfl
@[simp] theorem State.callDepth_left (s caller : State) :
    (s.left caller).callDepth = s.callDepth - 1 := rfl
@[simp] theorem State.output_left (s caller : State) : (s.left caller).output = s.output := rfl

theorem inScope_eq (c : Eval α) (s : State) : inScope c s =
    match c s.scoped with
    | .ok a t => .ok a t.unscoped
    | .error e t => .error e t.unscoped := rfl

theorem inCall_eq (c : Eval Value) (s : State) : inCall c s =
    match c s.entered with
    | .ok v t => .ok v (t.left s)
    | .error (.returned v) t => .ok v (t.left s)
    | .error e t => .error e (t.left s) := rfl

@[simp] theorem endState_inScope (c : Eval α) (s : State) :
    endState (inScope c s) = (endState (c s.scoped)).unscoped := by
  rw [inScope_eq]
  cases c s.scoped <;> rfl

@[simp] theorem causeOf_inScope (c : Eval α) (s : State) :
    causeOf (inScope c s) = causeOf (c s.scoped) := by
  rw [inScope_eq]
  cases c s.scoped <;> rfl

@[simp] theorem endState_inCall (c : Eval Value) (s : State) :
    endState (inCall c s) = (endState (c s.entered)).left s := by
  rw [inCall_eq]
  cases c s.entered with
  | ok v t => rfl
  | error e t => cases e <;> rfl

@[simp] theorem causeOf_inCall (c : Eval Value) (s : State) :
    causeOf (inCall c s) = causeOf (c s.entered) := by
  rw [inCall_eq]
  cases c s.entered with
  | ok v t => rfl
  | error e t => cases e <;> rfl

@[simp] theorem endState_catchReturn (c : Eval Unit) (s : State) :
    endState (catchReturn c s) = endState (c s) := by
  unfold catchReturn
  cases c s with
  | ok v t => rfl
  | error e t => cases e <;> rfl

@[simp] theorem causeOf_catchReturn (c : Eval Unit) (s : State) :
    causeOf (catchReturn c s) = causeOf (c s) := by
  unfold catchReturn
  cases c s with
  | ok v t => rfl
  | error e t => cases e <;> rfl

@[simp] theorem endState_loopRound (c : Eval Unit) (s : State) :
    endState (loopRound c s) = endState (c s) := by
  unfold loopRound
  cases c s with
  | ok v t => rfl
  | error e t => cases e <;> rfl

@[simp] theorem causeOf_loopRound (c : Eval Unit) (s : State) :
    causeOf (loopRound c s) = causeOf (c s) := by
  unfold loopRound
  cases c s with
  | ok v t => rfl
  | error e t => cases e <;> rfl

theorem logFrom_eq (level : Nat) (line : Eval String) : logFrom cfg level line =
    if level ≤ cfg.logLevel then line >>= log cfg else pure () := rfl

/-! ## Quiet evaluations -/

/-- Between the states neither a counter nor the printed lines change, and no warning is
lost. -/
structure State.Quiet (s t : State) : Prop where
  steps : t.steps = s.steps
  iterations : t.iterations = s.iterations
  callDepth : t.callDepth = s.callDepth
  checks : t.checks = s.checks
  output : t.output = s.output
  diagnostics : s.diagnostics.toList <+: t.diagnostics.toList

theorem State.Quiet.refl (s : State) : s.Quiet s :=
  ⟨rfl, rfl, rfl, rfl, rfl, List.prefix_rfl⟩

theorem State.quiet_scoped (s : State) : s.Quiet s.scoped :=
  ⟨rfl, rfl, rfl, rfl, rfl, List.prefix_rfl⟩

theorem State.quiet_unscoped (s : State) : s.Quiet s.unscoped :=
  ⟨rfl, rfl, rfl, rfl, rfl, List.prefix_rfl⟩

theorem State.quiet_logged (s : State) (line : String) : s.Quiet (s.logged cfg line) := by
  unfold State.logged
  split <;> exact ⟨rfl, rfl, rfl, rfl, rfl, List.prefix_rfl⟩

/-- An evaluation that changes only scopes, warnings and the log, and that is not
stopped for want of resources. -/
structure Quiet (c : Eval α) : Prop where
  state (s : State) : s.Quiet (endState (c s))
  stop (s : State) (e : Stop) : stopOf (c s) = some e → e.isGraceful = false

theorem quiet_of_cases {c : Eval α}
    (h : ∀ s, (∃ a t, c s = .ok a t ∧ s.Quiet t) ∨
      ∃ e t, c s = .error e t ∧ s.Quiet t ∧ e.isGraceful = false) : Quiet c := by
  constructor
  · intro s
    rcases h s with ⟨a, t, hc, hq⟩ | ⟨e, t, hc, hq, -⟩ <;> rwa [hc]
  · intro s e he
    rcases h s with ⟨a, t, hc, -⟩ | ⟨e', t, hc, -, hg⟩ <;> rw [hc] at he
    · cases he
    · cases he
      exact hg

theorem quiet_pure (a : α) : Quiet (pure a : Eval α) :=
  quiet_of_cases fun s => .inl ⟨a, s, rfl, .refl s⟩

theorem quiet_throw {stop : Stop} (h : stop.isGraceful = false) : Quiet (throw stop : Eval α) :=
  quiet_of_cases fun s => .inr ⟨stop, s, rfl, .refl s, h⟩

theorem quiet_lookup (name : Name) : Quiet (lookup name) := by
  refine quiet_of_cases fun s => ?_
  rw [lookup_eq]
  split
  · exact .inl ⟨_, s, rfl, .refl s⟩
  · exact .inr ⟨_, s, rfl, .refl s, rfl⟩

theorem quiet_declare (name : Name) (v : Value) (mark : Option Mark) :
    Quiet (declare name v mark) := by
  refine quiet_of_cases fun s => ?_
  rw [declare_eq]
  split
  · split
    · exact .inl ⟨(), _, rfl, rfl, rfl, rfl, rfl, rfl, List.prefix_rfl⟩
    · exact .inr ⟨_, s, rfl, .refl s, rfl⟩
  · exact .inr ⟨_, s, rfl, .refl s, rfl⟩

theorem quiet_setVariable (name : Name) (v : Value) (mark : Option Mark) :
    Quiet (setVariable name v mark) := by
  refine quiet_of_cases fun s => ?_
  rw [setVariable_eq]
  split
  · split
    · exact .inl ⟨(), _, rfl, rfl, rfl, rfl, rfl, rfl, List.prefix_rfl⟩
    · exact .inr ⟨_, s, rfl, .refl s, rfl⟩
  · exact .inr ⟨_, s, rfl, .refl s, rfl⟩

theorem quiet_warn (mark : Option Mark) (message : String) : Quiet (warn mark message) := by
  refine quiet_of_cases fun s => .inl ⟨(), _, rfl, rfl, rfl, rfl, rfl, rfl, ?_⟩
  simp only [Array.toList_push]
  exact List.prefix_append _ _

theorem quiet_openScope : Quiet openScope :=
  quiet_of_cases fun _ => .inl ⟨(), _, rfl, rfl, rfl, rfl, rfl, rfl, List.prefix_rfl⟩

theorem endState_ofExcept (mark : Option Mark) (r : Except Failure α) (s : State) :
    endState (ofExcept mark r s) = s := by
  cases r with
  | ok a => rfl
  | error failure =>
    cases failure with
    | fault f => rfl
    | error e =>
      change endState ((if e.cause = .nestingTooDeep then (_ : Eval α) else _) s) = s
      split <;> rfl

/-! ## Outcomes -/

@[simp]
theorem cause_placed (s : State) (e : Error) : (placed s e).cause = e.cause := by
  unfold placed
  split <;> rfl

def Outcome.FailsWith (o : Outcome) (cause : Cause) : Prop :=
  ∃ r e, o.result = .ok r ∧ r.error = some e ∧ e.cause = cause

/-- An execution that an error ends has an outcome that says so, unless its variables cannot
be shown. -/
theorem outcomeOf_of_causeOf (mode : Mode) (length : Int) {r : EStateM.Result Stop State Unit}
    {cause : Cause} (h : causeOf r = some cause) :
    (outcomeOf cfg mode length r).FailsWith cause ∨
      mode = .debug ∧ ∃ fault, (outcomeOf cfg mode length r).result = .error fault := by
  cases r with
  | ok a t => cases h
  | error stop t =>
    cases stop with
    | error e =>
      cases h
      cases hlines : shownLines mode length t (some e) with
      | ok lines =>
        refine .inl ⟨⟨[], some (placed t e), t.diagnostics.toList, lines⟩, placed t e, ?_, rfl,
          cause_placed t e⟩
        simp only [outcomeOf, outcomeOf.finish, resultOf, hlines]
        rfl
      | error fault =>
        refine .inr ⟨?_, fault, ?_⟩
        · cases mode with
          | debug => rfl
          | normal => cases hlines
        · simp only [outcomeOf, outcomeOf.finish, resultOf, hlines]
          rfl
    | _ => cases h

end Orus.Run
