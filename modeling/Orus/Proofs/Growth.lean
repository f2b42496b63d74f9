import Orus.Proofs.Failures

/-! # What a run never takes back

Steps and iterations are only counted up, and lines and warnings only added at the end,
however an evaluation ends.
-/

namespace Orus.Run

variable {α β : Type}

/-- From one state to another no count goes down, and lines and warnings are only
added. -/
structure State.Grows (s t : State) : Prop where
  steps : s.steps ≤ t.steps
  iterations : s.iterations ≤ t.iterations
  output : s.output.toList <+: t.output.toList
  diagnostics : s.diagnostics.toList <+: t.diagnostics.toList

theorem State.Grows.refl (s : State) : s.Grows s :=
  ⟨Nat.le_refl _, Nat.le_refl _, List.prefix_rfl, List.prefix_rfl⟩

theorem State.Grows.trans {s t u : State} (h : s.Grows t) (h' : t.Grows u) : s.Grows u where
  steps := Nat.le_trans h.steps h'.steps
  iterations := Nat.le_trans h.iterations h'.iterations
  output := h.output.trans h'.output
  diagnostics := h.diagnostics.trans h'.diagnostics

theorem State.Quiet.grows {s t : State} (h : s.Quiet t) : s.Grows t where
  steps := Nat.le_of_eq h.steps.symm
  iterations := Nat.le_of_eq h.iterations.symm
  output := h.output ▸ List.prefix_rfl
  diagnostics := h.diagnostics

def Growing (c : Eval α) : Prop :=
  ∀ s : State, s.Grows (endState (c s))

theorem Growing.of_ok {c : Eval α} (h : Growing c) {s t : State} {a : α} (hc : c s = .ok a t) :
    s.Grows t := by
  have hs := h s
  rw [hc] at hs
  exact hs

theorem Quiet.growing {c : Eval α} (h : Quiet c) : Growing c :=
  fun s => (h.state s).grows

theorem growing_ofExcept (mark : Option Mark) (r : Except Failure α) :
    Growing (ofExcept mark r) := by
  intro s
  rw [endState_ofExcept]
  exact .refl s

theorem Growing.bind {c : Eval α} {k : α → Eval β} (hc : Growing c) (hk : ∀ a, Growing (k a)) :
    Growing (c >>= k) := by
  intro s
  cases h : c s with
  | ok a t =>
    rw [bind_of_ok h]
    exact (hc.of_ok h).trans (hk a t)
  | error e t =>
    have hs := hc s
    rw [bind_of_error h]
    rwa [h] at hs

theorem Growing.orPure {c : Eval Unit} (h : Growing c) (b : Bool) :
    Growing (if b = true then c else pure ()) := by
  cases b with
  | false => exact (quiet_pure ()).growing
  | true => exact h

variable {cfg : Config}

theorem growing_log (line : String) : Growing (log cfg line) := by
  intro s
  rw [log_eq]
  exact (s.quiet_logged cfg line).grows

theorem growing_logFrom (level : Nat) {line : Eval String} (h : Growing line) :
    Growing (logFrom cfg level line) := by
  rw [logFrom_eq]
  split
  · exact h.bind growing_log
  · exact (quiet_pure ()).growing

theorem State.grows_checked (s : State) : s.Grows s.checked :=
  ⟨Nat.le_refl _, Nat.le_refl _, List.prefix_rfl, List.prefix_rfl⟩

theorem State.grows_stepped (s : State) (mark : Option Mark) : s.Grows (s.stepped mark) :=
  ⟨Nat.le_succ _, Nat.le_refl _, List.prefix_rfl, List.prefix_rfl⟩

theorem State.grows_iterated (s : State) : s.Grows s.iterated :=
  ⟨Nat.le_refl _, Nat.le_succ _, List.prefix_rfl, List.prefix_rfl⟩

theorem growing_tick (mark : Option Mark) : Growing (tick cfg mark) := by
  intro s
  rw [tick_eq]
  split
  · exact s.grows_checked
  · split
    · exact (s.grows_stepped mark).trans (State.quiet_logged cfg _ _).grows
    · exact s.grows_stepped mark

theorem growing_loopTick : Growing (loopTick cfg) := by
  intro s
  rw [loopTick_eq]
  split
  · exact s.grows_checked
  · split
    · exact s.grows_iterated.trans (State.quiet_logged cfg _ _).grows
    · exact s.grows_iterated

theorem growing_emit (line : String) : Growing (emit cfg line) := by
  intro s
  rw [emit_eq]
  split
  · exact .refl s
  · refine ⟨Nat.le_refl _, Nat.le_refl _, ?_, List.prefix_rfl⟩
    simp only [endState_ok, Array.toList_push]
    exact List.prefix_append _ _

theorem growing_checkCallDepth : Growing (checkCallDepth cfg) := by
  intro s
  rw [checkCallDepth_eq]
  split
  · exact (s.quiet_logged cfg _).grows
  · exact .refl s

theorem growing_inScope {c : Eval α} (h : Growing c) : Growing (inScope c) := by
  intro s
  rw [endState_inScope]
  exact s.quiet_scoped.grows.trans ((h s.scoped).trans (State.quiet_unscoped _).grows)

theorem growing_inCall {c : Eval Value} (h : Growing c) : Growing (inCall c) := by
  intro s
  rw [endState_inCall]
  have hs := h s.entered
  exact ⟨hs.steps, hs.iterations, hs.output, hs.diagnostics⟩

theorem growing_catchReturn {c : Eval Unit} (h : Growing c) : Growing (catchReturn c) := by
  intro s
  rw [endState_catchReturn]
  exact h s

theorem growing_loopRound {c : Eval Unit} (h : Growing c) : Growing (loopRound c) := by
  intro s
  rw [endState_loopRound]
  exact h s

theorem growing_whileRounds (cfg : Config) {cond : Eval Bool} {body : Eval Unit}
    (hcond : Growing cond) (hbody : Growing body) (n : Nat) :
    Growing (whileRounds cfg cond body n) := by
  induction n with
  | zero => exact fun s => .refl s
  | succ n ih =>
    have hround := (growing_loopRound hbody).bind ih.orPure
    exact hcond.bind (growing_loopTick.bind fun _ => hround).orPure

theorem growing_whileLoop {cond : Eval Bool} {body : Eval Unit} (hcond : Growing cond)
    (hbody : Growing body) : Growing (whileLoop cfg cond body) :=
  fun s => growing_whileRounds cfg hcond hbody _ s

theorem growing_compositional (cfg : Config) (n : Nat) :
    Compositional (fun _ : Unit => cfg) (fun _ => n) (fun c => Growing (c ()))
      (fun c => Growing (c ())) where
  pure a := (quiet_pure a).growing
  bind := Growing.bind
  throw h := (quiet_throw h).growing
  lookup name := (quiet_lookup name).growing
  declare name v mark := (quiet_declare name v mark).growing
  setVariable name v mark := (quiet_setVariable name v mark).growing
  warn mark message := (quiet_warn mark message).growing
  shown _ := growing_ofExcept _ _
  operator _ _ _ _ := growing_ofExcept _ _
  builtin _ _ _ _ := growing_ofExcept _ _
  logFrom level _ hline _ := growing_logFrom level hline
  tick := growing_tick
  loopTick := growing_loopTick
  emit := growing_emit
  openScope := quiet_openScope.growing
  inScope := growing_inScope
  enter h := growing_checkCallDepth.bind fun _ => h
  inCall := growing_inCall
  catchReturn := growing_catchReturn
  loopRound := growing_loopRound
  whileLoop := growing_whileLoop

theorem growing_ofDepth (cfg : Config) (n : Nat) :
    EvaluatorHas (fun c => Growing (c ())) (fun c => Growing (c ()))
      fun _ : Unit => .ofDepth cfg n := by
  refine .ofDepth (growing_compositional cfg) ?_ n
  have htooDeep : ∀ {α : Type}, Growing (tooDeep : Eval α) := fun s => .refl s
  exact ⟨fun _ => htooDeep, fun _ => htooDeep, fun _ => htooDeep, fun _ _ _ => htooDeep⟩

end Orus.Run
