import Orus.Proofs.Failures

/-! # Changes of scopes

An evaluation changes the scopes it runs in by few operations: it declares, it writes, and it
opens scopes for blocks and calls, which are closed again. So a relation between the scopes
before and after holds of every evaluation once it holds of these operations.
-/

namespace Orus.Run

variable {α β : Type} {R S : Chain → Chain → Prop} {cfg : Config}

/-- Evaluations that change the scopes as the relation allows, however they end. -/
def Changes (R : Chain → Chain → Prop) (c : Eval α) : Prop :=
  ∀ s, R s.scopes (endState (c s)).scopes

structure IsScopeOrder (R : Chain → Chain → Prop) : Prop where
  refl (c : Chain) : R c c
  trans {c d e : Chain} : R c d → R d e → R c e

theorem Changes.bind {T : Chain → Chain → Prop} {c : Eval α} {k : α → Eval β}
    (hc : Changes R c) (hstopped : ∀ c d, R c d → T c d)
    (hgoesOn : ∀ c d e, R c d → S d e → T c e) (hk : ∀ a, Changes S (k a)) :
    Changes T (c >>= k) := by
  intro s
  have hs := hc s
  cases h : c s with
  | ok a t =>
    rw [h] at hs
    rw [bind_of_ok h]
    exact hgoesOn _ _ _ hs (hk a t)
  | error e t =>
    rw [bind_of_error h]
    rw [h] at hs
    exact hstopped _ _ hs

theorem changes_loopRound {c : Eval Unit} (h : Changes R c) : Changes R (loopRound c) := by
  intro s
  rw [endState_loopRound]
  exact h s

theorem changes_declare (hR : IsScopeOrder R) {name : Name} {v : Value}
    (hdeclare : ∀ c d, c.declare? name v = some d → R c d) (mark : Option Mark) :
    Changes R (declare name v mark) := by
  intro s
  rw [declare_eq]
  split
  · split
    next scopes hscopes => exact hdeclare _ _ hscopes
    next => exact hR.refl _
  · exact hR.refl _

theorem changes_setVariable (hR : IsScopeOrder R) {name : Name} {v : Value}
    (hassign : ∀ c d, c.assign? name v = some d → R c d) (mark : Option Mark) :
    Changes R (setVariable name v mark) := by
  intro s
  rw [setVariable_eq]
  split
  · split
    next scopes hscopes => exact hassign _ _ hscopes
    next => exact hR.refl _
  · exact hR.refl _

theorem changes_inScope {c : Eval α} (hc : Changes S c)
    (hclosed : ∀ c d, S (c.push {}) d → R c d.pop) : Changes R (inScope c) := by
  intro s
  rw [endState_inScope]
  exact hclosed _ _ (hc s.scoped)

theorem changes_inCall {c : Eval Value} (hc : Changes S c)
    (hreturned : ∀ c d, S { c with locals := [{}] } d → R c { d with locals := c.locals }) :
    Changes R (inCall c) := by
  intro s
  rw [endState_inCall]
  exact hreturned _ _ (hc s.entered)

namespace IsScopeOrder

variable (hR : IsScopeOrder R)
include hR

/-! ## Evaluations that leave the scopes alone -/

theorem changes_pure (a : α) : Changes R (pure a : Eval α) := fun _ => hR.refl _

theorem changes_throw (stop : Stop) : Changes R (throw stop : Eval α) := fun _ => hR.refl _

theorem changes_lookup (name : Name) : Changes R (lookup name) := by
  intro s
  rw [lookup_eq]
  split <;> exact hR.refl _

theorem changes_warn (mark : Option Mark) (message : String) : Changes R (warn mark message) :=
  fun _ => hR.refl _

theorem changes_ofExcept (mark : Option Mark) (r : Except Failure α) :
    Changes R (ofExcept mark r) := by
  intro s
  rw [endState_ofExcept]
  exact hR.refl _

theorem changes_log (line : String) : Changes R (log cfg line) := by
  intro s
  rw [log_eq, endState_ok, scopes_logged]
  exact hR.refl _

theorem changes_tick (mark : Option Mark) : Changes R (tick cfg mark) := by
  intro s
  rw [tick_eq]
  split
  · exact hR.refl _
  · split
    · rw [endState_error, scopes_logged]
      exact hR.refl _
    · exact hR.refl _

theorem changes_loopTick : Changes R (loopTick cfg) := by
  intro s
  rw [loopTick_eq]
  split
  · exact hR.refl _
  · split
    · rw [endState_error, scopes_logged]
      exact hR.refl _
    · exact hR.refl _

theorem changes_emit (line : String) : Changes R (emit cfg line) := by
  intro s
  rw [emit_eq]
  split <;> exact hR.refl _

theorem changes_checkCallDepth : Changes R (checkCallDepth cfg) := by
  intro s
  rw [checkCallDepth_eq]
  split
  · rw [endState_error, scopes_logged]
    exact hR.refl _
  · exact hR.refl _

/-! ## Evaluations put together -/

theorem changes_bind {c : Eval α} {k : α → Eval β} (hc : Changes R c)
    (hk : ∀ a, Changes R (k a)) : Changes R (c >>= k) :=
  hc.bind (fun _ _ => id) (fun _ _ _ => hR.trans) hk

theorem changes_orPure {c : Eval Unit} (h : Changes R c) (b : Bool) :
    Changes R (if b = true then c else pure ()) := by
  cases b with
  | false => exact hR.changes_pure ()
  | true => exact h

theorem changes_whileRounds (cfg : Config) {cond : Eval Bool} {body : Eval Unit}
    (hcond : Changes R cond) (hbody : Changes R body) (n : Nat) :
    Changes R (whileRounds cfg cond body n) := by
  induction n with
  | zero => exact hR.changes_throw _
  | succ n ih =>
    have hround := hR.changes_bind (changes_loopRound hbody) (hR.changes_orPure ih)
    exact hR.changes_bind hcond
      (hR.changes_orPure (hR.changes_bind hR.changes_loopTick fun _ => hround))

/-- Expressions change the scopes as the order allows if writes and calls do. -/
theorem expressive (cfg : Config) (n : Nat) {Inside : Eval Value → Prop}
    (hassign : ∀ name v c d, c.assign? name v = some d → R c d)
    (hcall : ∀ c, Inside c → Changes R (inCall c)) :
    Expressive (fun _ : Unit => cfg) (fun _ => n) (fun c => Changes R (c ()))
      (fun c => Inside (c ())) where
  pure := hR.changes_pure
  bind := hR.changes_bind
  throw _ := hR.changes_throw _
  lookup := hR.changes_lookup
  setVariable name v := changes_setVariable hR (hassign name v)
  warn := hR.changes_warn
  shown _ := hR.changes_ofExcept _ _
  operator _ _ _ _ := hR.changes_ofExcept _ _
  builtin _ _ _ _ := hR.changes_ofExcept _ _
  logFrom level _ hline _ := by
    simp only [logFrom_eq]
    split
    · exact hR.changes_bind hline hR.changes_log
    · exact hR.changes_pure ()
  loopTick := hR.changes_loopTick
  inCall := hcall _

end IsScopeOrder

/-- Relations between the scopes before and after: one for evaluations outside of the scopes
that they open, one for what runs in these, where it may declare. -/
structure IsScoping (R S : Chain → Chain → Prop) : Prop where
  outer : IsScopeOrder R
  inner : IsScopeOrder S
  le {c d : Chain} : R c d → S c d
  assign (name : Name) (v : Value) (c d : Chain) : c.assign? name v = some d → R c d
  declare (name : Name) (v : Value) (c d : Chain) : c.declare? name v = some d → S c d
  closed (c d : Chain) : S (c.push {}) d → R c d.pop
  returned (c d : Chain) : S { c with locals := [{}] } d → R c { d with locals := c.locals }

/-- Expressions and statements other than declarations change the scopes as the relations
allow. -/
theorem IsScoping.blockwise (h : IsScoping R S) (cfg : Config) (n : Nat) :
    Blockwise (fun _ : Unit => cfg) (fun _ => n) (fun c => Changes R (c ()))
      (fun c => Changes S (c ())) (fun c => Changes S (c ())) where
  toExpressive := h.outer.expressive cfg n h.assign fun _ hc => changes_inCall hc h.returned
  within := h.inner.expressive cfg n (fun name v c d hd => h.le (h.assign name v c d hd))
    fun _ hc => changes_inCall hc fun c d hd => h.le (h.returned c d hd)
  tick := h.outer.changes_tick
  emit := h.outer.changes_emit
  declare name v := changes_declare h.inner (h.declare name v)
  loopRound := changes_loopRound
  inScope hc := changes_inScope hc h.closed
  enter hc := h.inner.changes_bind h.inner.changes_checkCallDepth fun _ => hc
  whileLoop hcond hbody := fun s => h.outer.changes_whileRounds cfg hcond hbody _ s

end Orus.Run
