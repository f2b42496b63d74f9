import Orus.Proofs.Lockstep

/-! # Empty scopes

A scope without names changes nothing that is read or assigned through it, and what is
declared is declared in the innermost scope. So an evaluation goes in step with itself when
an empty scope is put among its scopes, as long as it declares nothing there. A statement that
is no declaration declares nothing in the scope it is executed in: a scope of its own around
it makes no difference.
-/

namespace Orus.Chain

theorem assignIn?_append (name : Name) (v : Value) (inner outer : List Frame) :
    assignIn? name v (inner ++ outer) = match assignIn? name v inner with
      | some changed => some (changed ++ outer)
      | none => (assignIn? name v outer).map (inner ++ ·) := by
  induction inner with
  | nil => simp [assignIn?]
  | cons f inner ih =>
    simp only [List.cons_append, assignIn?]
    split
    · rfl
    · rw [ih]
      cases assignIn? name v inner with
      | some changed => rfl
      | none =>
        simp only [Option.map_none, Option.map_map]
        rfl

theorem length_assignIn? {name : Name} {v : Value} {frames changed : List Frame}
    (h : assignIn? name v frames = some changed) : changed.length = frames.length := by
  induction frames generalizing changed with
  | nil => cases h
  | cons f frames ih =>
    unfold assignIn? at h
    split at h
    · cases h
      rfl
    · obtain ⟨rest, hrest, rfl⟩ := Option.map_eq_some_iff.1 h
      rw [List.length_cons, List.length_cons, ih hrest]

/-- Scopes without and with an empty one right outside of the innermost `k` blocks. -/
inductive Padded (k : Nat) : Chain → Chain → Prop where
  | intro (inner outer : List Frame) (globals builtins : Frame) : inner.length = k →
      Padded k ⟨inner ++ outer, globals, builtins⟩ ⟨inner ++ {} :: outer, globals, builtins⟩

theorem padded_push (c : Chain) : Padded 0 c (c.push {}) :=
  .intro [] c.locals c.globals c.builtins rfl

namespace Padded

variable {k : Nat} {c d : Chain}

theorem eq_pop (h : Padded 0 c d) : d.pop = c := by
  obtain ⟨inner, outer, globals, builtins, hlength⟩ := h
  obtain rfl := List.length_eq_zero_iff.1 hlength
  rfl

theorem lookup?_eq (h : Padded k c d) (name : Name) : c.lookup? name = d.lookup? name := by
  obtain ⟨inner, outer, globals, builtins, -⟩ := h
  have hempty : ({} : Frame).find? name = none := rfl
  simp only [lookup?, frames, List.append_assoc, List.cons_append, List.findSome?_append,
    List.findSome?_cons, hempty]

theorem declare? (h : Padded (k + 1) c d) (name : Name) (v : Value) :
    Option.Rel (Padded (k + 1)) (c.declare? name v) (d.declare? name v) := by
  obtain ⟨inner, outer, globals, builtins, hlength⟩ := h
  obtain ⟨top, inner, rfl⟩ := List.exists_cons_of_length_eq_add_one hlength
  simp only [Chain.declare?, List.cons_append]
  cases top.declare? name v with
  | none => exact .none
  | some f => exact .some (.intro (f :: inner) outer globals builtins hlength)

theorem assign? (h : Padded k c d) (name : Name) (v : Value) :
    Option.Rel (Padded k) (c.assign? name v) (d.assign? name v) := by
  obtain ⟨inner, outer, globals, builtins, hlength⟩ := h
  have hempty : assignIn? name v ({} :: outer) = (assignIn? name v outer).map ({} :: ·) := rfl
  simp only [Chain.assign?, assignIn?_append, hempty]
  cases hinner : assignIn? name v inner with
  | some changed =>
    exact .some (.intro changed outer globals builtins ((length_assignIn? hinner).trans hlength))
  | none =>
    cases assignIn? name v outer with
    | some changed => exact .some (.intro inner changed globals builtins hlength)
    | none =>
      simp only [Option.map_none]
      split
      · exact .some (.intro inner outer _ builtins hlength)
      split
      · exact .some (.intro inner outer globals _ hlength)
      · exact .none

theorem push (h : Padded k c d) : Padded (k + 1) (c.push {}) (d.push {}) := by
  obtain ⟨inner, outer, globals, builtins, hlength⟩ := h
  exact .intro ({} :: inner) outer globals builtins (congrArg (· + 1) hlength)

theorem pop (h : Padded (k + 1) c d) : Padded k c.pop d.pop := by
  obtain ⟨inner, outer, globals, builtins, hlength⟩ := h
  obtain ⟨top, inner, rfl⟩ := List.exists_cons_of_length_eq_add_one hlength
  exact .intro inner outer globals builtins (Nat.succ.inj hlength)

theorem globals_eq (h : Padded k c d) : c.globals = d.globals := by
  obtain ⟨inner, outer, globals, builtins, -⟩ := h
  rfl

theorem builtins_eq (h : Padded k c d) : c.builtins = d.builtins := by
  obtain ⟨inner, outer, globals, builtins, -⟩ := h
  rfl

theorem withLocals (h : Padded k c d) (e : Chain) :
    Padded k { e with locals := c.locals } { e with locals := d.locals } := by
  obtain ⟨inner, outer, globals, builtins, hlength⟩ := h
  exact .intro inner outer e.globals e.builtins hlength

end Padded

end Orus.Chain

namespace Orus.Run

variable {α β : Type} {cfg : Config}

def State.Padded (k : Nat) : State → State → Prop :=
  State.InScopes (Chain.Padded k)

namespace State

theorem padded_scoped (s : State) : State.Padded 0 s s.scoped :=
  .intro s.scopes.padded_push

variable {k : Nat} {s s' : State}

theorem Padded.eq_unscoped (h : State.Padded 0 s s') : s'.unscoped = s := by
  obtain ⟨h⟩ := h
  simp only [State.unscoped, h.eq_pop]

theorem Padded.scoped (h : State.Padded k s s') : State.Padded (k + 1) s.scoped s'.scoped := by
  obtain ⟨h⟩ := h
  exact .intro h.push

theorem Padded.unscoped (h : State.Padded (k + 1) s s') :
    State.Padded k s.unscoped s'.unscoped := by
  obtain ⟨h⟩ := h
  exact .intro h.pop

theorem Padded.entered_eq (h : State.Padded k s s') : s.entered = s'.entered := by
  obtain ⟨h⟩ := h
  simp only [State.entered, h.globals_eq, h.builtins_eq]

theorem Padded.left (h : State.Padded k s s') (t : State) :
    State.Padded k (t.left s) (t.left s') := by
  obtain ⟨h⟩ := h
  exact .intro (h.withLocals t.scopes)

end State

theorem isSteady_padded (cfg : Config) (k : Nat) :
    IsSteady cfg (fun _ => cfg.logLevel) (fun _ => False) (State.Padded k) :=
  isSteady_inScopes (fun name h => h.lookup?_eq name) (fun name v h => h.assign? name v) cfg

/-! ## Evaluations -/

/-- Evaluations that go in step with themselves when an empty scope is put outside of the
innermost `inner` blocks or further out. -/
def Overlooks (inner : Nat) (c : Eval α) : Prop :=
  ∀ k, inner ≤ k → Lockstep (State.Padded k) (fun _ => False) fun _ => c

theorem Overlooks.mono {inner outer : Nat} {c : Eval α} (h : Overlooks inner c)
    (hle : inner ≤ outer) : Overlooks outer c :=
  fun k hk => h k (Nat.le_trans hle hk)

theorem Overlooks.bind {inner : Nat} {c : Eval α} {k : α → Eval β} (hc : Overlooks inner c)
    (hk : ∀ a, Overlooks inner (k a)) : Overlooks inner (c >>= k) :=
  fun outer hle => (hc outer hle).bind fun a => hk a outer hle

theorem overlooks_inScope {inner : Nat} {c : Eval α} (h : Overlooks (inner + 1) c) :
    Overlooks inner (inScope c) :=
  fun k hk => (h (k + 1) (Nat.succ_le_succ hk)).inScope State.Padded.scoped State.Padded.unscoped

theorem overlooks_inCall (inner : Nat) (c : Eval Value) : Overlooks inner (inCall c) := by
  intro k _ s s' hs
  have hinside : InStep Eq (c s.entered) (c s'.entered) := by
    rw [hs.entered_eq]
    exact .refl fun _ => rfl
  exact .inr (inStep_left hinside fun t _ ht => ht ▸ hs.left t)

theorem overlooks_declare (name : Name) (v : Value) (mark : Option Mark) :
    Overlooks 1 (declare name v mark) := by
  intro k hk
  obtain ⟨k, rfl⟩ := Nat.exists_eq_add_of_le' hk
  refine lockstep_declare mark ?_
  rintro s _ ⟨hs⟩
  exact s.inScopes_rel (hs.declare? name v)

theorem overlooks_expressive (cfg : Config) (n inner : Nat) :
    Expressive (fun _ : Unit => cfg) (fun _ => n) (fun c => Overlooks inner (c ()))
      (fun _ => True) where
  pure a _ _ := lockstep_pure a
  bind := Overlooks.bind
  throw _ _ _ := lockstep_throw _
  lookup name k _ := (isSteady_padded cfg k).lockstep_lookup name
  setVariable name v mark k _ := (isSteady_padded cfg k).lockstep_setVariable name v mark
  warn mark message k _ := (isSteady_padded cfg k).lockstep_warn mark message
  shown _ _ _ := lockstep_ofExcept _ _
  operator _ _ _ _ _ _ := lockstep_ofExcept _ _
  builtin _ _ _ _ _ _ := lockstep_ofExcept _ _
  logFrom level _ hline hlog k hle :=
    (isSteady_padded cfg k).lockstep_logFrom level (hline k hle) fun _ => hlog ()
  loopTick k _ := (isSteady_padded cfg k).lockstep_loopTick
  inCall _ := overlooks_inCall inner _

theorem overlooks_blockwise (cfg : Config) (n : Nat) :
    Blockwise (fun _ : Unit => cfg) (fun _ => n) (fun c => Overlooks 0 (c ()))
      (fun c => Overlooks 1 (c ())) (fun _ => True) where
  toExpressive := overlooks_expressive cfg n 0
  within := overlooks_expressive cfg n 1
  tick mark k _ := (isSteady_padded cfg k).lockstep_tick mark
  emit line k _ := (isSteady_padded cfg k).lockstep_emit line
  declare := overlooks_declare
  loopRound h k hk := (h k hk).loopRound
  inScope := overlooks_inScope
  enter _ := trivial
  whileLoop hcond hbody k hk :=
    (isSteady_padded cfg k).lockstep_whileLoop (hcond k hk) (hbody k hk)

/-- Evaluators that look through empty scopes, except that a declaration has to find the
innermost scope in its place. -/
structure LooksThrough (evaluator : Evaluator) : Prop where
  eval (node : Node) : Overlooks 0 (evaluator.eval node)
  resolve (node : Node) : Overlooks 0 (evaluator.resolve node)
  other (node : Node) : declaredName? node = none → Overlooks 0 (evaluator.exec node)
  exec (node : Node) : Overlooks 1 (evaluator.exec node)

theorem overlooks_declaration {deeper : Evaluator} (h : LooksThrough deeper) (name : Name)
    (value : Node) (isMutable : Bool) (mark : Option Mark) :
    Overlooks 1 (Evaluator.execRule cfg deeper (.letDecl name value isMutable mark)) := by
  have hrules := overlooks_blockwise cfg deeper.depth
  have htick : Overlooks 1 (tick cfg mark) := (hrules.tick mark).mono (Nat.zero_le 1)
  refine htick.bind fun _ => ((h.eval value).mono (Nat.zero_le 1)).bind fun v => ?_
  exact (overlooks_declare name v mark).bind fun _ => hrules.within.logText (fun _ => rfl) 2 v _

theorem LooksThrough.above {deeper : Evaluator} (h : LooksThrough deeper) :
    LooksThrough (.above cfg deeper) := by
  have hrules := overlooks_blockwise cfg deeper.depth
  have hother : ∀ node, declaredName? node = none →
      Overlooks 0 (Evaluator.execRule cfg deeper node) :=
    hrules.execRule (fun _ => rfl) h.exec h.eval h.other
  constructor
  · exact fun node => hrules.evalRule (fun _ => rfl) node (fun n _ => h.eval n)
      (fun n _ => h.resolve n) fun _ _ _ => trivial
  · exact fun node => @Expressive.resolveRule _ _ _ _ _ hrules.toExpressive (fun _ => deeper) node
      (h.eval node) fun n _ => h.resolve n
  · exact hother
  · intro node
    cases node with
    | letDecl name value isMutable mark => exact overlooks_declaration h name value isMutable mark
    | _ => exact (hother _ rfl).mono (Nat.zero_le 1)

theorem looksThrough_ofDepth (cfg : Config) (n : Nat) : LooksThrough (.ofDepth cfg n) := by
  induction n with
  | zero =>
    have hstop (inner : Nat) {α : Type} : Overlooks inner (tooDeep : Eval α) :=
      fun _ _ => lockstep_throw _
    exact ⟨fun _ => hstop 0, fun _ => hstop 0, fun _ _ => hstop 0, fun _ => hstop 1⟩
  | succ n ih => exact ih.above

/-- A statement that is no declaration may as well be executed in a scope of its own. -/
theorem inScope_exec (cfg : Config) (n : Nat) {node : Node} (hnode : declaredName? node = none) :
    inScope ((Evaluator.ofDepth cfg n).exec node) = (Evaluator.ofDepth cfg n).exec node := by
  funext s
  have hstep := ((looksThrough_ofDepth cfg n).other node hnode 0 (Nat.le_refl 0) s s.scoped
    s.padded_scoped).resolve_left fun ⟨_, _, hfalse⟩ => hfalse
  dsimp only at hstep
  rw [inScope_eq]
  generalize (Evaluator.ofDepth cfg n).exec node s = r at hstep ⊢
  generalize (Evaluator.ofDepth cfg n).exec node s.scoped = r' at hstep ⊢
  cases hstep with
  | ok ht => simp only [ht.eq_unscoped]
  | error ht => simp only [ht.eq_unscoped]

end Orus.Run
