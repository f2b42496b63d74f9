import Orus.Proofs.EmptyScopes
import Orus.Proofs.Likeness.Scopes

/-! # Runs of alike trees

Two runs of alike trees go in step: they count, print, log and bind the same and are stopped
at the same point for the same cause. Where their warnings, their errors and the statements
they are at have places, these places are alike.
-/

namespace Orus.Run

variable {α β α' β' : Type} {L : Likeness}

inductive WarningAlike (L : Likeness) : String → String → Prop where
  | intro (message : String) {m m' : Option Mark} : L.marks m m' →
      WarningAlike L (noted message m) (noted message m')

/-- States that count, print and log the same and bind the same names to alike values. -/
structure State.Alike (L : Likeness) (s s' : State) : Prop where
  steps : s.steps = s'.steps
  iterations : s.iterations = s'.iterations
  callDepth : s.callDepth = s'.callDepth
  checks : s.checks = s'.checks
  output : s.output = s'.output
  diagnostics : List.Forall₂ (WarningAlike L) s.diagnostics.toList s'.diagnostics.toList
  log : s.log = s'.log
  mark : L.marks s.mark s'.mark
  scopes : s.scopes.Alike L s'.scopes

structure ErrorAlike (L : Likeness) (e e' : Error) : Prop where
  cause : e.cause = e'.cause
  mark : L.marks e.mark e'.mark

inductive Stop.Alike (L : Likeness) : Stop → Stop → Prop where
  | error {e e' : Error} : ErrorAlike L e e' → Alike L (.error e) (.error e')
  | fault (fault : Fault) : Alike L (.fault fault) (.fault fault)
  | breakLoop : Alike L .breakLoop .breakLoop
  | continueLoop : Alike L .continueLoop .continueLoop
  | returned {v v' : Value} : v.Alike L v' → Alike L (.returned v) (.returned v')

/-- Results of two evaluations: related values or alike stops, with alike states. -/
inductive Agree (L : Likeness) (R : α → α' → Prop) :
    EStateM.Result Stop State α → EStateM.Result Stop State α' → Prop where
  | ok {a : α} {a' : α'} {s s' : State} : R a a' → s.Alike L s' → Agree L R (.ok a s) (.ok a' s')
  | error {e e' : Stop} {s s' : State} : e.Alike L e' → s.Alike L s' →
      Agree L R (.error e s) (.error e' s')

theorem Agree.endState {R : α → α' → Prop} {r : EStateM.Result Stop State α}
    {r' : EStateM.Result Stop State α'} (h : Agree L R r r') :
    (endState r).Alike L (endState r') := by
  cases h with
  | ok _ hs => exact hs
  | error _ hs => exact hs

/-- From alike states two evaluations give results that agree. -/
def Parallel (L : Likeness) (R : α → α' → Prop) (m : Eval α) (m' : Eval α') : Prop :=
  ∀ s s' : State, s.Alike L s' → Agree L R (m s) (m' s')

variable {R : α → α' → Prop} {S : β → β' → Prop}

/-! ## Putting evaluations together -/

theorem parallel_pure {a : α} {a' : α'} (h : R a a') : Parallel L R (pure a) (pure a') :=
  fun _ _ hs => .ok h hs

theorem parallel_throw {e e' : Stop} (h : e.Alike L e') :
    Parallel L R (throw e : Eval α) (throw e' : Eval α') :=
  fun _ _ hs => .error h hs

theorem parallel_fail {m m' : Option Mark} (hm : L.marks m m') (cause : Cause) :
    Parallel L R (fail m cause : Eval α) (fail m' cause : Eval α') :=
  parallel_throw (.error ⟨rfl, hm⟩)

theorem parallel_breakDown (fault : Fault) :
    Parallel L R (breakDown fault : Eval α) (breakDown fault : Eval α') :=
  parallel_throw (.fault fault)

theorem Parallel.bind {m : Eval α} {m' : Eval α'} {f : α → Eval β} {f' : α' → Eval β'}
    (hm : Parallel L R m m') (hf : ∀ a a', R a a' → Parallel L S (f a) (f' a')) :
    Parallel L S (m >>= f) (m' >>= f') := by
  intro s s' hs
  have h := hm s s' hs
  change Agree L S (EStateM.bind m f s) (EStateM.bind m' f' s')
  unfold EStateM.bind
  generalize m s = r at h ⊢
  generalize m' s' = r' at h ⊢
  cases h with
  | ok ha ht => exact hf _ _ ha _ _ ht
  | error he ht => exact .error he ht

theorem Parallel.bind_pure {m : Eval α} {m' : Eval α'} {f : α → β} {f' : α' → β'}
    (hm : Parallel L R m m') (h : ∀ a a', R a a' → S (f a) (f' a')) :
    Parallel L S (m >>= fun a => pure (f a)) (m' >>= fun a => pure (f' a)) :=
  hm.bind fun a a' ha => parallel_pure (h a a' ha)

theorem Parallel.ite {cond : Prop} [Decidable cond] {m n : Eval α} {m' n' : Eval α'}
    (hm : cond → Parallel L R m m') (hn : ¬ cond → Parallel L R n n') :
    Parallel L R (if cond then m else n) (if cond then m' else n') := by
  split
  next h => exact hm h
  next h => exact hn h

theorem parallel_need {a : Option α} {a' : Option α'} (h : Option.Rel R a a') :
    Parallel L R (need a) (need a') := by
  cases h with
  | none => exact parallel_breakDown _
  | some ha => exact parallel_pure ha

theorem parallel_ofExcept {m m' : Option Mark} (hm : L.marks m m') {r : Except Failure α}
    {r' : Except Failure α'} (h : AgreeComputed R r r') :
    Parallel L R (ofExcept m r) (ofExcept m' r') := by
  cases h with
  | ok ha => exact parallel_pure ha
  | error f =>
    cases f with
    | fault fault => exact parallel_breakDown fault
    | error e =>
      apply Parallel.ite
      · intro _
        exact parallel_throw (.error ⟨rfl, L.marks_refl _⟩)
      · intro _
        exact parallel_throw (.error ⟨rfl, L.marks_orElse (L.marks_refl _) hm⟩)

theorem parallel_forM {f : α → Eval Unit} {f' : α' → Eval Unit} {as : List α} {as' : List α'}
    (h : List.Forall₂ R as as') (hf : ∀ a a', R a a' → Parallel L Eq (f a) (f' a')) :
    Parallel L Eq (as.forM f) (as'.forM f') := by
  induction h with
  | nil => exact parallel_pure rfl
  | cons ha _ ih => exact (hf _ _ ha).bind fun _ _ _ => ih

theorem parallel_mapM {f : α → Eval β} {f' : α' → Eval β'} {as : List α} {as' : List α'}
    (h : List.Forall₂ R as as') (hf : ∀ a a', R a a' → Parallel L S (f a) (f' a')) :
    Parallel L (List.Forall₂ S) (as.mapM f) (as'.mapM f') := by
  induction h with
  | nil => exact parallel_pure .nil
  | cons ha _ ih =>
    simp only [List.mapM_cons]
    apply (hf _ _ ha).bind
    intro b b' hb
    exact ih.bind_pure fun _ _ hbs => .cons hb hbs

theorem parallel_foldlM {f : β → α → Eval β} {f' : β' → α' → Eval β'} {as : List α}
    {as' : List α'} (h : List.Forall₂ R as as')
    (hf : ∀ b b' a a', S b b' → R a a' → Parallel L S (f b a) (f' b' a')) {b : β} {b' : β'}
    (hb : S b b') : Parallel L S (as.foldlM f b) (as'.foldlM f' b') := by
  induction h generalizing b b' with
  | nil => exact parallel_pure hb
  | cons ha _ ih =>
    simp only [List.foldlM_cons]
    exact (hf _ _ _ _ hb ha).bind fun _ _ hc => ih hc

/-! ## Counters -/

variable (cfg : Config)

namespace State.Alike

variable {s s' : State} (h : s.Alike L s')

include h

theorem progress_eq : s.progress = s'.progress := by
  have hlength := h.diagnostics.length_eq
  simp only [Array.length_toList] at hlength
  rw [progress, progress, h.output, hlength]

theorem checked : s.checked.Alike L s'.checked := by
  have hchecks : s.checks.add s.progress = s'.checks.add s'.progress := by
    rw [h.checks, h.progress_eq]
  exact ⟨h.steps, h.iterations, h.callDepth, hchecks, h.output, h.diagnostics, h.log, h.mark,
    h.scopes⟩

theorem stepped {m m' : Option Mark} (hm : L.marks m m') :
    (s.stepped m).Alike L (s'.stepped m') :=
  ⟨congrArg (· + 1) h.steps, h.iterations, h.callDepth, h.checked.checks, h.output, h.diagnostics,
    h.log, L.marks_orElse hm h.mark, h.scopes⟩

theorem iterated : s.iterated.Alike L s'.iterated :=
  ⟨h.steps, congrArg (· + 1) h.iterations, h.callDepth, h.checked.checks, h.output, h.diagnostics,
    h.log, h.mark, h.scopes⟩

theorem logged (line : String) : (s.logged cfg line).Alike L (s'.logged cfg line) := by
  unfold State.logged
  split
  · exact ⟨h.steps, h.iterations, h.callDepth, h.checks, h.output, h.diagnostics,
      congrArg (·.push line) h.log, h.mark, h.scopes⟩
  · exact h

theorem withScopes {scopes scopes' : Chain} (hscopes : scopes.Alike L scopes') :
    State.Alike L { s with scopes } { s' with scopes := scopes' } :=
  ⟨h.steps, h.iterations, h.callDepth, h.checks, h.output, h.diagnostics, h.log, h.mark, hscopes⟩

theorem pushed : s.scoped.Alike L s'.scoped :=
  h.withScopes h.scopes.push

theorem popped : s.unscoped.Alike L s'.unscoped :=
  h.withScopes h.scopes.pop

theorem entered : s.entered.Alike L s'.entered :=
  ⟨h.steps, h.iterations, congrArg (· + 1) h.callDepth, h.checks, h.output, h.diagnostics, h.log,
    h.mark, .cons .nil .nil, h.scopes.globals, h.scopes.builtins⟩

theorem left {t t' : State} (ht : t.Alike L t') : (s.left t).Alike L (s'.left t') :=
  ⟨h.steps, h.iterations, congrArg (· - 1) h.callDepth, h.checks, h.output, h.diagnostics, h.log,
    h.mark, ht.scopes.locals, h.scopes.globals, h.scopes.builtins⟩

theorem isCancelled_eq : isCancelled cfg s = isCancelled cfg s' := by
  rw [isCancelled, isCancelled, h.checks]

end State.Alike

theorem parallel_log (line : String) : Parallel L Eq (log cfg line) (log cfg line) := by
  intro s s' hs
  rw [log_eq, log_eq]
  exact .ok rfl (hs.logged cfg line)

theorem parallel_logFrom (level : Nat) {line line' : Eval String} (h : Parallel L Eq line line') :
    Parallel L Eq (logFrom cfg level line) (logFrom cfg level line') := by
  apply Parallel.ite
  · intro _
    apply h.bind
    rintro text _ rfl
    exact parallel_log cfg text
  · intro _
    exact parallel_pure rfl

theorem parallel_tick {m m' : Option Mark} (hm : L.marks m m') :
    Parallel L Eq (tick cfg m) (tick cfg m') := by
  intro s s' hs
  have hstepped := hs.stepped hm
  rw [tick_eq, tick_eq, hs.isCancelled_eq, hstepped.steps]
  split
  · exact .error (.error ⟨rfl, L.marks_refl _⟩) hs.checked
  split
  · exact .error (.error ⟨rfl, L.marks_refl _⟩) (hstepped.logged cfg _)
  · exact .ok rfl hstepped

theorem parallel_loopTick : Parallel L Eq (loopTick cfg) (loopTick cfg) := by
  intro s s' hs
  rw [loopTick_eq, loopTick_eq, hs.isCancelled_eq, hs.iterated.iterations]
  split
  · exact .error (.error ⟨rfl, L.marks_refl _⟩) hs.checked
  split
  · exact .error (.error ⟨rfl, L.marks_refl _⟩) (hs.iterated.logged cfg _)
  · exact .ok rfl hs.iterated

theorem parallel_checkCallDepth : Parallel L Eq (checkCallDepth cfg) (checkCallDepth cfg) := by
  intro s s' hs
  rw [checkCallDepth_eq, checkCallDepth_eq, hs.callDepth]
  split
  · exact .error (.error ⟨rfl, L.marks_refl _⟩) (hs.logged cfg _)
  · exact .ok rfl hs

theorem parallel_emit (line : String) : Parallel L Eq (emit cfg line) (emit cfg line) := by
  intro s s' hs
  rw [emit_eq, emit_eq, hs.output]
  split
  · exact .error (.error ⟨rfl, L.marks_refl _⟩) hs
  · exact .ok rfl ⟨hs.steps, hs.iterations, hs.callDepth, hs.checks, rfl, hs.diagnostics, hs.log,
      hs.mark, hs.scopes⟩

theorem parallel_warn {m m' : Option Mark} (hm : L.marks m m') (message : String) :
    Parallel L Eq (warn m message) (warn m' message) := by
  intro s s' hs
  have hpush : List.Forall₂ (WarningAlike L) (s.diagnostics.push (noted message m)).toList
      (s'.diagnostics.push (noted message m')).toList := by
    simp only [Array.toList_push]
    exact List.rel_append hs.diagnostics (.cons (.intro message hm) .nil)
  exact .ok rfl ⟨hs.steps, hs.iterations, hs.callDepth, hs.checks, hs.output, hpush, hs.log,
    hs.mark, hs.scopes⟩

/-! ## Scopes -/

theorem parallel_lookup (name : Name) :
    Parallel L (Option.Rel (Value.Alike L)) (lookup name) (lookup name) := by
  intro s s' hs
  rw [lookup_eq, lookup_eq]
  split
  · exact .ok (hs.scopes.lookup? name) hs
  · exact .error (.fault _) hs

theorem parallel_getVariable (name : Name) {m m' : Option Mark} (hm : L.marks m m') :
    Parallel L (Value.Alike L) (getVariable name m) (getVariable name m') := by
  apply (parallel_lookup name).bind
  rintro _ _ (hv | _)
  · exact parallel_pure hv
  · exact parallel_fail hm _

theorem parallel_declare (name : Name) {v v' : Value} (hv : v.Alike L v') {m m' : Option Mark}
    (hm : L.marks m m') :
    Parallel L Eq (declare name v m) (declare name v' m') := by
  intro s s' hs
  have hdeclare := hs.scopes.declare? name hv
  rw [declare_eq, declare_eq]
  split
  · generalize s.scopes.declare? name v = r at hdeclare ⊢
    generalize s'.scopes.declare? name v' = r' at hdeclare ⊢
    cases hdeclare with
    | some hscopes => exact .ok rfl (hs.withScopes hscopes)
    | none => exact .error (.error ⟨rfl, hm⟩) hs
  · exact .error (.fault _) hs

theorem parallel_setVariable (name : Name) {v v' : Value} (hv : v.Alike L v')
    {m m' : Option Mark} (hm : L.marks m m') :
    Parallel L Eq (setVariable name v m) (setVariable name v' m') := by
  intro s s' hs
  have hassign := hs.scopes.assign? name hv
  rw [setVariable_eq, setVariable_eq]
  split
  · generalize s.scopes.assign? name v = r at hassign ⊢
    generalize s'.scopes.assign? name v' = r' at hassign ⊢
    cases hassign with
    | some hscopes => exact .ok rfl (hs.withScopes hscopes)
    | none => exact .error (.error ⟨rfl, hm⟩) hs
  · exact .error (.fault _) hs

theorem parallel_openScope : Parallel L Eq openScope openScope :=
  fun _ _ hs => .ok rfl hs.pushed

theorem parallel_inScope {m : Eval α} {m' : Eval α'} (h : Parallel L R m m') :
    Parallel L R (inScope m) (inScope m') := by
  intro s s' hs
  have hinside := h _ _ hs.pushed
  rw [inScope_eq, inScope_eq]
  generalize m s.scoped = r at hinside ⊢
  generalize m' s'.scoped = r' at hinside ⊢
  cases hinside with
  | ok ha ht => exact .ok ha ht.popped
  | error he ht => exact .error he ht.popped

theorem parallel_inCall {m m' : Eval Value} (h : Parallel L (Value.Alike L) m m') :
    Parallel L (Value.Alike L) (inCall m) (inCall m') := by
  intro s s' hs
  have hinside := h _ _ hs.entered
  rw [inCall_eq, inCall_eq]
  generalize m s.entered = r at hinside ⊢
  generalize m' s'.entered = r' at hinside ⊢
  cases hinside with
  | ok ha ht => exact .ok ha (ht.left hs)
  | error he ht =>
    cases he with
    | returned hv => exact .ok hv (ht.left hs)
    | error he => exact .error (.error he) (ht.left hs)
    | fault fault => exact .error (.fault fault) (ht.left hs)
    | breakLoop => exact .error .breakLoop (ht.left hs)
    | continueLoop => exact .error .continueLoop (ht.left hs)

theorem parallel_catchReturn {m m' : Eval Unit} (h : Parallel L Eq m m') :
    Parallel L Eq (catchReturn m) (catchReturn m') := by
  intro s s' hs
  have hinside := h s s' hs
  unfold catchReturn
  generalize m s = r at hinside ⊢
  generalize m' s' = r' at hinside ⊢
  cases hinside with
  | ok _ ht => exact .ok rfl ht
  | error he ht =>
    cases he with
    | returned _ => exact .ok rfl ht
    | error he => exact .error (.error he) ht
    | fault fault => exact .error (.fault fault) ht
    | breakLoop => exact .error .breakLoop ht
    | continueLoop => exact .error .continueLoop ht

/-! ## Loops -/

theorem parallel_loopRound {m m' : Eval Unit} (h : Parallel L Eq m m') :
    Parallel L Eq (loopRound m) (loopRound m') := by
  intro s s' hs
  have hinside := h s s' hs
  unfold loopRound
  generalize m s = r at hinside ⊢
  generalize m' s' = r' at hinside ⊢
  cases hinside with
  | ok _ ht => exact .ok rfl ht
  | error he ht =>
    cases he with
    | returned hv => exact .error (.returned hv) ht
    | error he => exact .error (.error he) ht
    | fault fault => exact .error (.fault fault) ht
    | breakLoop => exact .ok rfl ht
    | continueLoop => exact .ok rfl ht

theorem Parallel.bind_ite {m m' : Eval Bool} {n n' : Eval Unit} (hm : Parallel L Eq m m')
    (hn : Parallel L Eq n n') :
    Parallel L Eq (m >>= fun b => if b = true then n else pure ())
      (m' >>= fun b => if b = true then n' else pure ()) := by
  apply hm.bind
  rintro b _ rfl
  apply Parallel.ite
  · intro _
    exact hn
  · intro _
    exact parallel_pure rfl

theorem parallel_forItems {round round' : Value → Eval Bool}
    (hround : ∀ v v', v.Alike L v' → Parallel L Eq (round v) (round' v'))
    {items items' : List Value} (h : List.Forall₂ (Value.Alike L) items items') :
    Parallel L Eq (forItems round items) (forItems round' items') := by
  induction h with
  | nil => exact parallel_pure rfl
  | cons hv _ ih => exact (hround _ _ hv).bind_ite ih

theorem parallel_forRange {round round' : Value → Eval Bool}
    (hround : ∀ v v', v.Alike L v' → Parallel L Eq (round v) (round' v')) (count : Nat)
    (first : Int) :
    Parallel L Eq (forRange round count first) (forRange round' count first) := by
  induction count generalizing first with
  | zero => exact parallel_pure rfl
  | succ n ih => exact (hround _ _ (.number _)).bind_ite (ih (first + 1))

theorem parallel_whileRounds {cond cond' : Eval Bool} {body body' : Eval Unit}
    (hcond : Parallel L Eq cond cond') (hbody : Parallel L Eq body body') (rounds : Nat) :
    Parallel L Eq (whileRounds cfg cond body rounds) (whileRounds cfg cond' body' rounds) := by
  induction rounds with
  | zero => exact parallel_fail (L.marks_refl _) _
  | succ n ih =>
    apply hcond.bind_ite
    apply (parallel_loopTick cfg).bind
    intro _ _ _
    exact (parallel_loopRound hbody).bind_ite ih

theorem parallel_whileLoop {cond cond' : Eval Bool} {body body' : Eval Unit}
    (hcond : Parallel L Eq cond cond') (hbody : Parallel L Eq body body') :
    Parallel L Eq (whileLoop cfg cond body) (whileLoop cfg cond' body') := by
  intro s s' hs
  have hrounds : roundsLeft cfg s = roundsLeft cfg s' := by
    rw [roundsLeft, roundsLeft, hs.iterations]
  change Agree L Eq (whileRounds cfg cond body (roundsLeft cfg s) s)
    (whileRounds cfg cond' body' (roundsLeft cfg s') s')
  rw [hrounds]
  exact parallel_whileRounds cfg hcond hbody _ s s' hs

/-! ## Expressions -/

theorem alike_fieldOf? {v v' : Value} (h : v.Alike L v') (name : Name) :
    Option.Rel (Value.Alike L) (fieldOf? v name) (fieldOf? v' name) := by
  unfold fieldOf?
  split
  · cases h with
    | text s => exact .some (.number _)
    | array hs =>
      simp only [hs.length_eq]
      exact .some (.number _)
    | _ => exact .none
  · exact .none

theorem rel_getElem? {as : List α} {as' : List α'} (h : List.Forall₂ R as as') (i : Nat) :
    Option.Rel R as[i]? as'[i]? := by
  induction h generalizing i with
  | nil => exact .none
  | cons ha _ ih =>
    cases i with
    | zero => exact .some ha
    | succ i => exact ih i

theorem rel_itemAt? {as : List α} {as' : List α'} (h : List.Forall₂ R as as') (i : Int) :
    Option.Rel R (itemAt? as i) (itemAt? as' i) := by
  unfold itemAt?
  rw [h.length_eq]
  generalize (if i < 0 then i + (as'.length : Int) else i) = k
  dsimp only
  split
  · exact .none
  · exact rel_getElem? h _

structure OperationAlike (L : Likeness) (o o' : Operation) : Prop where
  op : o.op = o'.op
  right : L.trees o.right o'.right
  mark : L.marks o.mark o'.mark

theorem alike_leftEdge {n n' : Node} (h : L.trees n n') {done done' : List Operation}
    (hdone : List.Forall₂ (OperationAlike L) done done') :
    L.trees (leftEdge n done).1 (leftEdge n' done').1 ∧
      List.Forall₂ (OperationAlike L) (leftEdge n done).2 (leftEdge n' done').2 := by
  fun_induction leftEdge n done generalizing n' done' with
  | case1 op left right mark done ih =>
    cases L.unfold h with
    | binary hleft hright hm => exact ih hleft (.cons ⟨rfl, hright, hm⟩ hdone)
  | case2 n done hn =>
    have hsame : leftEdge n' done' = (n', done') := by
      cases L.unfold h with
      | binary => exact absurd rfl (hn _ _ _ _)
      | _ => rfl
    rw [hsame]
    exact ⟨h, hdone⟩

namespace Evaluator

/-- The evaluator gives results that agree for alike trees, and a scope of its own around a
condition makes no difference. -/
structure Respects (L : Likeness) (ev : Evaluator) : Prop where
  eval {n n' : Node} : L.trees n n' → Parallel L (Value.Alike L) (ev.eval n) (ev.eval n')
  exec {n n' : Node} : L.trees n n' → Parallel L Eq (ev.exec n) (ev.exec n')
  resolve {n n' : Node} : L.trees n n' →
    Parallel L (Option.Rel (Value.Alike L)) (ev.resolve n) (ev.resolve n')
  enter {decl decl' : Node} (params : List Name) {args args' : List Value} :
    L.trees decl decl' → List.Forall₂ (Value.Alike L) args args' →
    Parallel L (Value.Alike L) (ev.enter decl params args) (ev.enter decl' params args')
  inScope_ifElse (cond thenPart elsePart : Node) (mark : Option Mark) :
    inScope (ev.exec (.ifElse cond thenPart elsePart mark)) =
      ev.exec (.ifElse cond thenPart elsePart mark)

variable (deeper : Evaluator)

theorem parallel_textOf {v v' : Value} (h : v.Alike L v') :
    Parallel L Eq (textOf deeper v) (textOf deeper v') := by
  unfold textOf
  rw [Builtin.shown_eq _ h]
  apply parallel_ofExcept (L.marks_refl none)
  cases Builtin.shown deeper.depth v' with
  | ok text => exact .ok rfl
  | error f => exact .error f

theorem parallel_logText (level : Nat) (line : String → String) {v v' : Value}
    (h : v.Alike L v') :
    Parallel L Eq (logFrom cfg level (textOf deeper v >>= fun text => pure (line text)))
      (logFrom cfg level (textOf deeper v' >>= fun text => pure (line text))) := by
  apply parallel_logFrom
  apply (parallel_textOf deeper h).bind_pure
  rintro text _ rfl
  rfl

variable {deeper} (hd : deeper.Respects L)

include hd

theorem parallel_resolveRule {n n' : Node} (h : L.trees n n') :
    Parallel L (Option.Rel (Value.Alike L)) (resolveRule deeper n) (resolveRule deeper n') := by
  have heval : Parallel L (Option.Rel (Value.Alike L)) (deeper.eval n >>= fun v => pure (some v))
      (deeper.eval n' >>= fun v => pure (some v)) :=
    (hd.eval h).bind_pure fun _ _ hv => .some hv
  cases L.unfold h with
  | identifier name hm =>
    apply (parallel_lookup name).bind
    rintro _ _ (hv | _)
    · exact parallel_pure (.some hv)
    · exact (parallel_warn hm _).bind_pure fun _ _ _ => .none
  | @field _ _ name _ _ htarget hm =>
    apply (hd.resolve htarget).bind
    rintro _ _ (hv | _)
    · have hfield := alike_fieldOf? hv name
      simp only [hv.type_eq]
      generalize fieldOf? _ name = r at hfield ⊢
      generalize fieldOf? _ name = r' at hfield ⊢
      cases hfield with
      | some hitem => exact parallel_pure (.some hitem)
      | none => exact (parallel_warn hm _).bind_pure fun _ _ _ => .none
    · exact parallel_pure .none
  | _ => exact heval

theorem parallel_markerText {n n' : Node} (h : L.trees n n') :
    Parallel L Eq (markerText deeper n) (markerText deeper n') := by
  apply (hd.resolve h).bind
  rintro _ _ (hv | _)
  · cases hv with
    | builtin b => exact (parallel_warn (L.mark h) _).bind_pure fun _ _ _ => rfl
    | function hdecl =>
      simp only [Value.Alike.functionName_eq hdecl]
      exact (parallel_warn (L.mark h) _).bind_pure fun _ _ _ => rfl
    | number x => exact parallel_textOf deeper (.number x)
    | text s => exact parallel_textOf deeper (.text s)
    | array hs => exact parallel_textOf deeper (.array hs)
    | undefined => exact parallel_textOf deeper .undefined
  · exact parallel_pure rfl

theorem parallel_segmentText {n n' : Node} (h : L.trees n n') :
    Parallel L Eq (segmentText deeper n) (segmentText deeper n') := by
  have hmarker := parallel_markerText hd h
  cases L.unfold h with
  | raw value =>
    cases value with
    | str s => exact parallel_pure rfl
    | _ => exact hmarker
  | _ => exact hmarker

theorem parallel_rangeBound {m m' : Option Mark} (hm : L.marks m m') {n n' : Node}
    (h : L.trees n n') :
    Parallel L Eq (rangeBound deeper m n) (rangeBound deeper m' n') := by
  apply (hd.eval h).bind
  intro v v' hv
  rw [hv.toInt?_eq, hv.type_eq]
  split
  · exact parallel_pure rfl
  · apply (parallel_textOf deeper hv).bind
    rintro shown _ rfl
    exact parallel_fail hm _

theorem parallel_rangeOf {a a' b b' : Node} (ha : L.trees a a') (hb : L.trees b b')
    {m m' : Option Mark} (hm : L.marks m m') :
    Parallel L Eq (rangeOf deeper a b m) (rangeOf deeper a' b' m') := by
  apply (parallel_rangeBound hd hm ha).bind
  rintro start _ rfl
  apply (parallel_rangeBound hd hm hb).bind_pure
  rintro stop _ rfl
  rfl

omit hd in
theorem parallel_rangeItems (count : Nat) (first : Int) {done done' : List Value}
    (hdone : List.Forall₂ (Value.Alike L) done done') :
    Parallel L (List.Forall₂ (Value.Alike L)) (rangeItems cfg count first done)
      (rangeItems cfg count first done') := by
  induction count generalizing first done done' with
  | zero => exact parallel_pure (List.rel_reverse hdone)
  | succ n ih =>
    apply (parallel_loopTick cfg).bind
    intro _ _ _
    exact ih (first + 1) (.cons (.number _) hdone)

theorem parallel_applyOperation {left left' : Value} {o o' : Operation} (hleft : left.Alike L left')
    (ho : OperationAlike L o o') :
    Parallel L (Value.Alike L) (applyOperation deeper left o) (applyOperation deeper left' o') := by
  have hright := hd.eval ho.right
  have htruth : Parallel L (Value.Alike L)
      (deeper.eval o.right >>= fun v => pure (.ofBool v.isTruthy))
      (deeper.eval o'.right >>= fun v => pure (.ofBool v.isTruthy)) := by
    apply hright.bind_pure
    intro v v' hv
    rw [hv.isTruthy_eq]
    exact .number _
  unfold applyOperation
  rw [ho.op, hleft.isTruthy_eq]
  apply Parallel.ite
  · intro _
    exact .ite (fun _ => htruth) fun _ => parallel_pure (.number _)
  intro _
  apply Parallel.ite
  · intro _
    exact .ite (fun _ => parallel_pure (.number _)) fun _ => htruth
  intro _
  apply hright.bind
  intro right right' hright
  exact parallel_ofExcept ho.mark (agreeComputed_applyOperator _ _ hleft hright)

theorem parallel_evalBinary {n n' : Node} (h : L.trees n n') :
    Parallel L (Value.Alike L) (evalBinary deeper n) (evalBinary deeper n') := by
  obtain ⟨hfirst, hoperations⟩ := alike_leftEdge h .nil
  apply (hd.eval hfirst).bind
  intro v v' hv
  exact parallel_foldlM hoperations (fun _ _ _ _ hb ho => parallel_applyOperation hd hb ho) hv

theorem parallel_evalUnary (op : Name) {n n' : Node} (h : L.trees n n') {m m' : Option Mark}
    (hm : L.marks m m') :
    Parallel L (Value.Alike L) (evalUnary deeper op n m) (evalUnary deeper op n' m') := by
  apply (hd.eval h).bind
  intro v v' hv
  rw [hv.isTruthy_eq]
  apply Parallel.ite
  · intro _
    exact parallel_pure (.number _)
  · intro _
    cases hv with
    | number x => exact parallel_pure (.number _)
    | _ => exact parallel_fail hm _

omit hd in
theorem parallel_pickItem {key key' : Value} (hkey : key.Alike L key') {m m' : Option Mark}
    (hm : L.marks m m') (length : Nat) {item item' : Int → Option Value}
    (hitem : ∀ i, Option.Rel (Value.Alike L) (item i) (item' i)) :
    Parallel L (Value.Alike L) (pickItem deeper key m length item)
      (pickItem deeper key' m' length item') := by
  unfold pickItem
  rw [hkey.toInt?_eq, hkey.type_eq]
  split
  · apply (parallel_textOf deeper hkey).bind
    rintro shown _ rfl
    exact parallel_fail hm _
  next i _ =>
    have hi := hitem i
    generalize item i = r at hi ⊢
    generalize item' i = r' at hi ⊢
    cases hi with
    | some hv => exact parallel_pure hv
    | none =>
      apply (parallel_textOf deeper hkey).bind
      rintro shown _ rfl
      exact parallel_fail hm _

theorem parallel_evalIndex {a a' b b' : Node} (ha : L.trees a a') (hb : L.trees b b')
    {m m' : Option Mark} (hm : L.marks m m') :
    Parallel L (Value.Alike L) (evalIndex deeper a b m) (evalIndex deeper a' b' m') := by
  apply (hd.eval ha).bind
  intro container container' hcontainer
  apply (hd.eval hb).bind
  intro key key' hkey
  cases hcontainer with
  | text s =>
    apply parallel_pickItem hkey hm
    intro i
    cases itemAt? s.toList i with
    | none => exact .none
    | some c => exact .some (.text _)
  | array hs =>
    simp only [hs.length_eq]
    exact parallel_pickItem hkey hm _ fun i => rel_itemAt? hs i
  | _ => exact parallel_fail hm _

/-! ## Calls -/

omit hd in
theorem parallel_bindParams {m m' : Option Mark} (hm : L.marks m m') (names : List Name)
    {args args' : List Value} (h : List.Forall₂ (Value.Alike L) args args') :
    Parallel L Eq (bindParams m names args) (bindParams m' names args') := by
  induction names generalizing args args' with
  | nil => exact parallel_pure rfl
  | cons name names ih =>
    cases h with
    | nil => exact parallel_pure rfl
    | cons hv hs => exact (parallel_declare name hv hm).bind fun _ _ _ => ih hs

omit hd in
theorem parallel_enterRule {exec exec' : Node → Eval Unit}
    (hexec : ∀ n n', L.trees n n' → Parallel L Eq (exec n) (exec' n')) {decl decl' : Node}
    (hdecl : L.trees decl decl') (params : List Name) {args args' : List Value}
    (hargs : List.Forall₂ (Value.Alike L) args args') :
    Parallel L (Value.Alike L) (enterRule cfg exec decl params args)
      (enterRule cfg exec' decl' params args') := by
  apply (parallel_checkCallDepth cfg).bind
  intro _ _ _
  apply (parallel_bindParams (L.mark hdecl) params hargs).bind
  intro _ _ _
  apply (parallel_need (L.rel_body? hdecl)).bind
  intro body body' hbody
  apply (parallel_need (L.rel_statements? hbody)).bind
  intro ns ns' hns
  exact (parallel_forM hns hexec).bind_pure fun _ _ _ => .undefined

theorem parallel_callFunction {decl decl' : Node} (hdecl : L.trees decl decl')
    {args args' : List Value} (hargs : List.Forall₂ (Value.Alike L) args args')
    {m m' : Option Mark} (hm : L.marks m m') :
    Parallel L (Value.Alike L) (callFunction deeper decl args m)
      (callFunction deeper decl' args' m') := by
  apply (parallel_need (L.rel_params? hdecl)).bind
  rintro params _ rfl
  rw [hargs.length_eq, Value.Alike.functionName_eq hdecl]
  apply Parallel.ite
  · intro _
    exact parallel_fail hm _
  · intro _
    exact parallel_inCall (hd.enter params hdecl hargs)

omit hd in
theorem parallel_callBuiltin (b : Builtin) {args args' : List Value}
    (hargs : List.Forall₂ (Value.Alike L) args args') {m m' : Option Mark} (hm : L.marks m m') :
    Parallel L (Value.Alike L) (callBuiltin cfg deeper b args m)
      (callBuiltin cfg deeper b args' m') := by
  have happly := parallel_ofExcept hm (b.agreeComputed_apply ⟨cfg.timestamp, deeper.depth⟩ hargs)
  unfold callBuiltin
  rw [hargs.length_eq]
  split
  · apply Parallel.ite
    · intro _
      exact (parallel_fail (R := Eq) hm _).bind fun _ _ _ => happly
    · intro _
      exact happly
  · exact happly

theorem parallel_evalCall (name : Name) {ns ns' : List Node} (h : List.Forall₂ L.trees ns ns')
    {m m' : Option Mark} (hm : L.marks m m') :
    Parallel L (Value.Alike L) (evalCall cfg deeper name ns m)
      (evalCall cfg deeper name ns' m') := by
  apply (parallel_lookup name).bind
  rintro _ _ (hcallee | _)
  · apply (parallel_mapM h fun _ _ => hd.eval).bind
    intro args args' hargs
    cases hcallee with
    | builtin b => exact parallel_callBuiltin cfg b hargs hm
    | function hdecl => exact parallel_callFunction hd hdecl hargs hm
    | _ => exact parallel_fail hm _
  · exact parallel_fail hm _

theorem parallel_evalRule {n n' : Node} (h : L.trees n n') :
    Parallel L (Value.Alike L) (evalRule cfg deeper n) (evalRule cfg deeper n') := by
  cases L.unfold h with
  | number x _ => exact parallel_pure (.number x)
  | nilLiteral _ => exact parallel_pure .undefined
  | string hs _ =>
    apply (parallel_mapM hs fun _ _ h => parallel_segmentText hd h).bind_pure
    intro texts texts' htexts
    rw [List.forall₂_eq_eq_eq] at htexts
    rw [htexts]
    exact .text _
  | identifier name hm => exact parallel_getVariable name hm
  | array hs _ => exact (parallel_mapM hs fun _ _ => hd.eval).bind_pure fun _ _ hvs => .array hvs
  | range ha hb hm =>
    apply (parallel_rangeOf hd ha hb hm).bind
    rintro ⟨start, count⟩ _ rfl
    exact (parallel_rangeItems cfg count start .nil).bind_pure fun _ _ hvs => .array hvs
  | unary he hm => exact parallel_evalUnary hd _ he hm
  | binary ha hb hm => exact parallel_evalBinary hd h
  | assignment he hm =>
    apply (hd.eval he).bind
    intro v v' hv
    apply (parallel_setVariable _ hv hm).bind
    intro _ _ _
    exact (parallel_logText cfg deeper _ _ hv).bind_pure fun _ _ _ => hv
  | call hs hm => exact parallel_evalCall cfg hd _ hs hm
  | index ha hb hm => exact parallel_evalIndex hd ha hb hm
  | @field _ _ name _ _ he hm =>
    apply (hd.eval he).bind
    intro v v' hv
    have hfield := alike_fieldOf? hv name
    rw [hv.type_eq]
    generalize fieldOf? v name = r at hfield ⊢
    generalize fieldOf? v' name = r' at hfield ⊢
    cases hfield with
    | some hitem => exact parallel_pure hitem
    | none => exact parallel_fail hm _
  | _ => exact parallel_breakDown _

/-! ## Statements -/

theorem parallel_execBlock {n n' : Node} (h : L.trees n n') :
    Parallel L Eq (execBlock deeper n) (execBlock deeper n') := by
  apply (parallel_need (L.rel_statements? h)).bind
  intro ns ns' hns
  exact parallel_inScope (parallel_forM hns fun _ _ => hd.exec)

theorem parallel_forRound (name : Name) {body body' : Node} (hbody : L.trees body body')
    {m m' : Option Mark} (hm : L.marks m m') {v v' : Value} (hv : v.Alike L v') :
    Parallel L Eq (forRound cfg deeper name body m v) (forRound cfg deeper name body' m' v') := by
  apply (parallel_loopTick cfg).bind
  intro _ _ _
  apply parallel_inScope
  apply (parallel_declare name hv hm).bind
  intro _ _ _
  apply (parallel_logText cfg deeper _ _ hv).bind
  intro _ _ _
  apply (parallel_need (L.rel_statements? hbody)).bind
  intro ns ns' hns
  exact parallel_loopRound (parallel_forM hns fun _ _ => hd.exec)

theorem parallel_execForItems (name : Name) {n n' body body' : Node} (h : L.trees n n')
    (hbody : L.trees body body') {m m' : Option Mark} (hm : L.marks m m') :
    Parallel L Eq (execForItems cfg deeper name n body m)
      (execForItems cfg deeper name n' body' m') := by
  apply (hd.eval h).bind
  intro v v' hv
  cases hv with
  | array hs =>
    exact parallel_forItems (fun _ _ hv => parallel_forRound cfg hd name hbody hm hv) hs
  | _ => exact parallel_fail (L.mark h) _

theorem parallel_execFor (name : Name) {n n' body body' : Node} (h : L.trees n n')
    (hbody : L.trees body body') {m m' : Option Mark} (hm : L.marks m m') :
    Parallel L Eq (execFor cfg deeper name n body m) (execFor cfg deeper name n' body' m') := by
  have hitems := parallel_execForItems cfg hd name h hbody hm
  cases L.unfold h with
  | range ha hb hrange =>
    apply (parallel_rangeOf hd ha hb hrange).bind
    rintro ⟨start, count⟩ _ rfl
    exact parallel_forRange (fun _ _ hv => parallel_forRound cfg hd name hbody hm hv) count start
  | _ => exact hitems

theorem parallel_execWhile {cond cond' body body' : Node} (hcond : L.trees cond cond')
    (hbody : L.trees body body') :
    Parallel L Eq (execWhile cfg deeper cond body) (execWhile cfg deeper cond' body') := by
  apply parallel_whileLoop
  · exact (hd.eval hcond).bind_pure fun _ _ hv => hv.isTruthy_eq
  · exact parallel_execBlock hd hbody

def execElse (deeper : Evaluator) (elsePart : Node) : Eval Unit :=
  match elsePart with
  | .ifElse .. => deeper.exec elsePart
  | .raw .null => return
  | _ => execBlock deeper elsePart

theorem parallel_execElse {b b' : Node} (hb : L.trees b b') :
    Parallel L Eq (execElse deeper b) (execElse deeper b') := by
  have hblock := parallel_execBlock hd hb
  have hexec := hd.exec hb
  cases L.unfold hb with
  | ifElse | elseBlock => exact hexec
  | raw value =>
    cases value with
    | null => exact parallel_pure rfl
    | _ => exact hblock
  | _ => exact hblock

/-- A condition that is the only statement of a block is executed as one that is the else part
itself, since the scope of the block makes no difference. -/
theorem parallel_elseBlock {cond thenPart elsePart s : Node} {mark place : Option Mark}
    (h : L.trees (.ifElse cond thenPart elsePart mark) s) :
    Parallel L Eq (execElse deeper (.ifElse cond thenPart elsePart mark))
      (execElse deeper (.block [s] place)) := by
  have hblock : execBlock deeper (.block [s] place) = deeper.exec s := by
    have honly : [s].forM deeper.exec = deeper.exec s := by
      simp only [List.forM, bind_pure_unit]
    change inScope ([s].forM deeper.exec) = deeper.exec s
    rw [honly]
    cases L.unfold h <;> exact hd.inScope_ifElse _ _ _ _
  change Parallel L Eq (deeper.exec (.ifElse cond thenPart elsePart mark))
    (execBlock deeper (.block [s] place))
  rw [hblock]
  exact hd.exec h

theorem parallel_execIf {cond cond' a a' b b' : Node} (hcond : L.trees cond cond')
    (ha : L.trees a a') (hb : Parallel L Eq (execElse deeper b) (execElse deeper b')) :
    Parallel L Eq (execIf cfg deeper cond a b) (execIf cfg deeper cond' a' b') := by
  apply (hd.eval hcond).bind
  intro v v' hv
  rw [hv.isTruthy_eq]
  apply (parallel_logText cfg deeper _ _ hv).bind
  intro _ _ _
  apply Parallel.ite
  · intro _
    exact parallel_execBlock hd ha
  · intro _
    exact hb

theorem parallel_printLine {e e' : Node} (h : L.trees e e') (m m' : Option Mark) :
    Parallel L Eq (effectRule cfg deeper (.printLine e m))
      (effectRule cfg deeper (.printLine e' m')) := by
  have hshown : Parallel L Eq
      (deeper.eval e >>= fun v => textOf deeper v >>= fun text => emit cfg text)
      (deeper.eval e' >>= fun v => textOf deeper v >>= fun text => emit cfg text) := by
    apply (hd.eval h).bind
    intro v v' hv
    apply (parallel_textOf deeper hv).bind
    rintro text _ rfl
    exact parallel_emit cfg text
  cases L.unfold h with
  | raw value =>
    cases value with
    | null => exact parallel_emit cfg ""
    | _ => exact hshown
  | _ => exact hshown

theorem parallel_returnWith {e e' : Node} (h : L.trees e e') (m m' : Option Mark) :
    Parallel L Eq (effectRule cfg deeper (.returnWith e m))
      (effectRule cfg deeper (.returnWith e' m')) := by
  have hreturned : Parallel L Eq (deeper.eval e >>= fun v => (throw (.returned v) : Eval Unit))
      (deeper.eval e' >>= fun v => (throw (.returned v) : Eval Unit)) :=
    (hd.eval h).bind fun _ _ hv => parallel_throw (.returned hv)
  cases L.unfold h with
  | raw value =>
    cases value with
    | null => exact parallel_throw (.returned .undefined)
    | _ => exact hreturned
  | _ => exact hreturned

theorem parallel_effectRule {n n' : Node} (h : L.trees n n') :
    Parallel L Eq (effectRule cfg deeper n) (effectRule cfg deeper n') := by
  have heval := hd.eval h
  have hblock := parallel_execBlock hd h
  cases L.unfold h with
  | letDecl hinit hm =>
    apply (hd.eval hinit).bind
    intro v v' hv
    rw [hv.type_eq]
    apply (parallel_declare _ hv hm).bind
    intro _ _ _
    exact parallel_logText cfg deeper _ _ hv
  | assignment => exact heval.bind_pure fun _ _ _ => rfl
  | printLine he _ => exact parallel_printLine cfg hd he _ _
  | ifElse hcond ha hb _ => exact parallel_execIf cfg hd hcond ha (parallel_execElse hd hb)
  | elseBlock hcond ha hs _ => exact parallel_execIf cfg hd hcond ha (parallel_elseBlock hd hs)
  | forIn he hbody hm => exact parallel_execFor cfg hd _ he hbody hm
  | whileLoop hcond hbody _ => exact parallel_execWhile cfg hd hcond hbody
  | block => exact hblock
  | breakLoop _ => exact parallel_throw .breakLoop
  | continueLoop _ => exact parallel_throw .continueLoop
  | returnWith he _ => exact parallel_returnWith cfg hd he _ _
  | expression he _ => exact (hd.eval he).bind_pure fun _ _ _ => rfl
  | _ => exact parallel_breakDown _

theorem parallel_execRule {n n' : Node} (h : L.trees n n') :
    Parallel L Eq (execRule cfg deeper n) (execRule cfg deeper n') :=
  (parallel_tick cfg (L.mark h)).bind fun _ _ _ => parallel_effectRule cfg hd h

/-! ## Depth -/

omit hd in
theorem respects_ofDepth (depth : Nat) : (ofDepth cfg depth).Respects L := by
  have hcondition (depth : Nat) (cond thenPart elsePart : Node) (mark : Option Mark) :
      inScope ((ofDepth cfg depth).exec (.ifElse cond thenPart elsePart mark)) =
        (ofDepth cfg depth).exec (.ifElse cond thenPart elsePart mark) :=
    inScope_exec cfg depth rfl
  induction depth with
  | zero =>
    have hstop {α α' : Type} {R : α → α' → Prop} :
        Parallel L R (tooDeep : Eval α) (tooDeep : Eval α') := parallel_fail (L.marks_refl none) _
    exact ⟨fun _ => hstop, fun _ => hstop, fun _ => hstop, fun _ _ _ _ _ => hstop, hcondition 0⟩
  | succ n ih =>
    exact ⟨parallel_evalRule cfg ih, parallel_execRule cfg ih, parallel_resolveRule ih,
      fun params _ _ hdecl hargs =>
        parallel_enterRule cfg (fun _ _ => parallel_execRule cfg ih) hdecl params hargs,
      hcondition (n + 1)⟩

end Evaluator

/-! ## Programs -/

theorem parallel_declareFunctions {fns fns' : List Node} (h : List.Forall₂ L.trees fns fns') :
    Parallel L Eq (declareFunctions fns) (declareFunctions fns') := by
  induction h with
  | nil => exact parallel_pure rfl
  | @cons fn fn' fns fns' hfn _ ih =>
    have hname : Option.Rel Eq fn.name? fn'.name? := by
      rw [L.name?_eq hfn]
      cases fn'.name? with
      | none => exact .none
      | some name => exact .some rfl
    apply (parallel_need hname).bind
    rintro name _ rfl
    exact (parallel_declare name (.function hfn) (L.mark hfn)).bind fun _ _ _ => ih

theorem rel_findMain {fns fns' : List Node} (h : List.Forall₂ L.trees fns fns') :
    Option.Rel L.trees (findMain fns) (findMain fns') := by
  induction h with
  | nil => exact .none
  | cons hfn _ ih =>
    simp only [findMain, List.find?_cons, L.name?_eq hfn] at ih ⊢
    split
    · exact .some hfn
    · exact ih

theorem parallel_runMain {evaluator : Evaluator} (hev : evaluator.Respects L) {main main' : Node}
    (h : L.trees main main') :
    Parallel L Eq (runMain evaluator main) (runMain evaluator main') := by
  apply parallel_openScope.bind
  intro _ _ _
  apply (parallel_need (L.rel_body? h)).bind
  intro body body' hbody
  apply (parallel_need (L.rel_statements? hbody)).bind
  intro ns ns' hns
  exact parallel_forM hns fun _ _ => hev.exec

theorem parallel_runProgram {evaluator : Evaluator} (hev : evaluator.Respects L) {p p' : Node}
    (h : L.trees p p') : Parallel L Eq (runProgram evaluator p) (runProgram evaluator p') := by
  cases L.unfold h with
  | program hf hg =>
    apply (parallel_declareFunctions hf).bind
    intro _ _ _
    apply (parallel_forM hg fun _ _ => hev.exec).bind
    intro _ _ _
    have hmain := rel_findMain hf
    generalize findMain _ = r at hmain ⊢
    generalize findMain _ = r' at hmain ⊢
    cases hmain with
    | none => exact parallel_fail (L.marks_refl _) _
    | some hmain =>
      apply (parallel_need (L.rel_params? hmain)).bind
      rintro params _ rfl
      apply Parallel.ite
      · intro _
        exact parallel_catchReturn (parallel_runMain hev hmain)
      · intro _
        exact parallel_fail (L.marks_refl _) _
  | _ => exact parallel_breakDown _

theorem agree_execute (depth : Nat) {p p' : Node} (h : L.trees p p') :
    Agree L Eq (execute cfg depth p) (execute cfg depth p') :=
  parallel_runProgram (Evaluator.respects_ofDepth cfg depth) h {} {}
    ⟨rfl, rfl, rfl, rfl, rfl, .nil, rfl, L.marks_refl none, Chain.alike_initial⟩

end Orus.Run
