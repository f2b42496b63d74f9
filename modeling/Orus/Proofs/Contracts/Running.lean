import Orus.Proofs.Failures
import Orus.Proofs.Contracts.Holdings

/-! # Evaluations under a contract

A contract for an evaluation says what it may assume of the functions in reach and has to
keep, what it gives when it comes to its end, and what may stop it before. The operations
on the state and the ways of putting evaluations together keep to contracts; what is left
to a proof are the trees.
-/

namespace Orus.Run

variable {α β : Type} {F : Node → Prop} {E E' : Stop → Prop}

def EnsuresResult (F : Node → Prop) (E : Stop → Prop) (P : α → Prop) :
    EStateM.Result Stop State α → Prop
  | .ok a t => P a ∧ t.scopes.Holds F
  | .error e t => E e ∧ t.scopes.Holds F

/-- With functions in reach that have a property, an evaluation gives a value with a property
or is stopped by something with a property, and it keeps that of the functions. -/
def Ensures (F : Node → Prop) (E : Stop → Prop) (P : α → Prop) (c : Eval α) : Prop :=
  ∀ s : State, s.scopes.Holds F → EnsuresResult F E P (c s)

theorem Ensures.of_ok {P : α → Prop} {c : Eval α} (h : Ensures F E P c) {s t : State}
    (hs : s.scopes.Holds F) {a : α} (hr : c s = .ok a t) : P a ∧ t.scopes.Holds F := by
  have hc := h s hs
  rwa [hr] at hc

theorem Ensures.of_error {P : α → Prop} {c : Eval α} (h : Ensures F E P c) {s t : State}
    (hs : s.scopes.Holds F) {e : Stop} (hr : c s = .error e t) : E e ∧ t.scopes.Holds F := by
  have hc := h s hs
  rwa [hr] at hc

/-- A contract may promise less and allow more stops. -/
theorem Ensures.weaken {P Q : α → Prop} {c : Eval α} (h : Ensures F E P c)
    (hP : ∀ a, P a → Q a) (hE : ∀ e, E e → E' e) : Ensures F E' Q c := by
  intro s hs
  cases hr : c s with
  | ok a t =>
    obtain ⟨ha, ht⟩ := h.of_ok hs hr
    exact ⟨hP a ha, ht⟩
  | error e t =>
    obtain ⟨he, ht⟩ := h.of_error hs hr
    exact ⟨hE e he, ht⟩

theorem ensures_pure {P : α → Prop} {a : α} (h : P a) : Ensures F E P (pure a) :=
  fun _ hs => ⟨h, hs⟩

theorem ensures_throw {P : α → Prop} {e : Stop} (h : E e) : Ensures F E P (throw e) :=
  fun _ hs => ⟨h, hs⟩

theorem Ensures.bind {P : α → Prop} {Q : β → Prop} {c : Eval α} {k : α → Eval β}
    (hc : Ensures F E P c) (hk : ∀ a, P a → Ensures F E Q (k a)) : Ensures F E Q (c >>= k) := by
  intro s hs
  cases hr : c s with
  | ok a t =>
    obtain ⟨ha, ht⟩ := hc.of_ok hs hr
    rw [bind_of_ok hr]
    exact hk a ha t ht
  | error e t =>
    rw [bind_of_error hr]
    exact hc.of_error hs hr

theorem ensures_ofExcept {P : α → Prop} {r : Except Failure α} {mark : Option Mark}
    (hok : ∀ a, r = .ok a → P a) (hfault : ∀ f, r = .error (.fault f) → E (.fault f))
    (herror : ∀ e, r = .error (.error e) →
      E (.error (if e.cause = .nestingTooDeep then e else { e with mark := e.mark <|> mark }))) :
    Ensures F E P (ofExcept mark r) := by
  cases r with
  | ok a => exact ensures_pure (hok a rfl)
  | error failure =>
    cases failure with
    | fault f => exact ensures_throw (hfault f rfl)
    | error e =>
      have he := herror e rfl
      change Ensures F E P (if e.cause = .nestingTooDeep then throw (.error e) else throw _)
      split
      next hdeep => exact ensures_throw (by rwa [if_pos hdeep] at he)
      next hdeep => exact ensures_throw (by rwa [if_neg hdeep] at he)

/-! ## The operations on the state -/

/-- Stops that a run may always meet: its limits and its cancellation. -/
def AllowsCuts (E : Stop → Prop) : Prop :=
  ∀ cause, isGraceful ⟨cause, none⟩ = true → E (.error ⟨cause, none⟩)

section Operations

variable {cfg : Config}

theorem ensures_log (line : String) : Ensures F E (fun _ => True) (log cfg line) := by
  intro s hs
  rw [log_eq]
  exact ⟨trivial, scopes_logged cfg s line ▸ hs⟩

theorem ensures_logFrom (level : Nat) {line : Eval String} (h : Ensures F E (fun _ => True) line) :
    Ensures F E (fun _ => True) (logFrom cfg level line) := by
  rw [logFrom_eq]
  split
  · exact h.bind fun line _ => ensures_log line
  · exact ensures_pure trivial

theorem ensures_warn (mark : Option Mark) (message : String) :
    Ensures F E (fun _ => True) (warn mark message) :=
  fun _ hs => ⟨trivial, hs⟩

theorem ensures_tick (hE : AllowsCuts E) (mark : Option Mark) :
    Ensures F E (fun _ => True) (tick cfg mark) := by
  intro s hs
  rw [tick_eq]
  split
  · exact ⟨hE _ rfl, hs⟩
  · split
    · exact ⟨hE _ rfl, (scopes_logged cfg (s.stepped mark) _).symm ▸ hs⟩
    · exact ⟨trivial, hs⟩

theorem ensures_loopTick (hE : AllowsCuts E) : Ensures F E (fun _ => True) (loopTick cfg) := by
  intro s hs
  rw [loopTick_eq]
  split
  · exact ⟨hE _ rfl, hs⟩
  · split
    · exact ⟨hE _ rfl, (scopes_logged cfg s.iterated _).symm ▸ hs⟩
    · exact ⟨trivial, hs⟩

theorem ensures_checkCallDepth (hE : AllowsCuts E) :
    Ensures F E (fun _ => True) (checkCallDepth cfg) := by
  intro s hs
  rw [checkCallDepth_eq]
  split
  · exact ⟨hE _ rfl, (scopes_logged cfg s _).symm ▸ hs⟩
  · exact ⟨trivial, hs⟩

theorem ensures_emit (hE : AllowsCuts E) (line : String) :
    Ensures F E (fun _ => True) (emit cfg line) := by
  intro s hs
  rw [emit_eq]
  split
  · exact ⟨hE _ rfl, hs⟩
  · exact ⟨trivial, hs⟩

/-- A name that can be one, unless the contract allows the fault of one that cannot. -/
def AllowsName (E : Stop → Prop) (name : Name) : Prop :=
  isUsable name = false → E (.fault (.badName name.kind))

theorem ensures_lookup {name : Name} (hname : AllowsName E name) :
    Ensures F E (fun found => ∀ v, found = some v → v.Holds F) (lookup name) := by
  intro s hs
  rw [lookup_eq]
  split
  · exact ⟨fun v hv => hs.lookup? hv, hs⟩
  next hunusable => exact ⟨hname (Bool.eq_false_iff.2 hunusable), hs⟩

theorem ensures_declare {name : Name} (hname : AllowsName E name) {v : Value} (hv : v.Holds F)
    {mark : Option Mark} (hE : E (.error ⟨.redeclared name, mark⟩)) :
    Ensures F E (fun _ => True) (declare name v mark) := by
  intro s hs
  rw [declare_eq]
  split
  · split
    next scopes hscopes => exact ⟨trivial, hs.declare? hv hscopes⟩
    · exact ⟨hE, hs⟩
  next hunusable => exact ⟨hname (Bool.eq_false_iff.2 hunusable), hs⟩

theorem ensures_setVariable {name : Name} (hname : AllowsName E name) {v : Value} (hv : v.Holds F)
    {mark : Option Mark} (hE : E (.error ⟨.undeclaredVariable name, mark⟩)) :
    Ensures F E (fun _ => True) (setVariable name v mark) := by
  intro s hs
  rw [setVariable_eq]
  split
  · split
    next scopes hscopes => exact ⟨trivial, hs.assign? hv hscopes⟩
    · exact ⟨hE, hs⟩
  next hunusable => exact ⟨hname (Bool.eq_false_iff.2 hunusable), hs⟩

theorem ensures_getVariable {name : Name} (hname : AllowsName E name) {mark : Option Mark}
    (hE : E (.error ⟨.undefinedVariable name, mark⟩)) :
    Ensures F E (Value.Holds F) (getVariable name mark) := by
  refine (ensures_lookup hname).bind fun found hfound => ?_
  cases found with
  | none => exact ensures_throw hE
  | some v => exact ensures_pure (hfound v rfl)

theorem holds_scoped {s : State} (hs : s.scopes.Holds F) : s.scoped.scopes.Holds F :=
  ⟨List.forall_mem_cons.2 ⟨List.forall_mem_nil _, hs.locals⟩, hs.globals, hs.builtins⟩

theorem holds_unscoped {s : State} (hs : s.scopes.Holds F) : s.unscoped.scopes.Holds F :=
  ⟨fun f hf => hs.locals f (List.mem_of_mem_tail hf), hs.globals, hs.builtins⟩

theorem ensures_openScope : Ensures F E (fun _ => True) openScope :=
  fun _ hs => ⟨trivial, holds_scoped hs⟩

theorem ensures_inScope {P : α → Prop} {c : Eval α} (h : Ensures F E P c) :
    Ensures F E P (inScope c) := by
  intro s hs
  rw [inScope_eq]
  cases hr : c s.scoped with
  | ok a t =>
    obtain ⟨ha, ht⟩ := h.of_ok (holds_scoped hs) hr
    exact ⟨ha, holds_unscoped ht⟩
  | error e t =>
    obtain ⟨he, ht⟩ := h.of_error (holds_scoped hs) hr
    exact ⟨he, holds_unscoped ht⟩

/-- A call catches the returns of its inside. -/
theorem ensures_inCall {P : Value → Prop} {c : Eval Value} (h : Ensures F E P c)
    (hreturned : ∀ v, E (.returned v) → P v) (hE : ∀ e, E e → (∀ v, e ≠ .returned v) → E' e) :
    Ensures F E' P (inCall c) := by
  intro s hs
  have hleft : ∀ {t : State}, t.scopes.Holds F → (t.left s).scopes.Holds F :=
    fun ht => ⟨hs.locals, ht.globals, ht.builtins⟩
  have hentered : s.entered.scopes.Holds F :=
    ⟨List.forall_mem_singleton.2 (List.forall_mem_nil _), hs.globals, hs.builtins⟩
  rw [inCall_eq]
  cases hr : c s.entered with
  | ok a t =>
    obtain ⟨ha, ht⟩ := h.of_ok hentered hr
    exact ⟨ha, hleft ht⟩
  | error e t =>
    obtain ⟨he, ht⟩ := h.of_error hentered hr
    cases e with
    | returned v => exact ⟨hreturned v he, hleft ht⟩
    | _ => exact ⟨hE _ he nofun, hleft ht⟩

theorem ensures_catchReturn {c : Eval Unit} (h : Ensures F E (fun _ => True) c)
    (hE : ∀ e, E e → (∀ v, e ≠ .returned v) → E' e) :
    Ensures F E' (fun _ => True) (catchReturn c) := by
  intro s hs
  unfold catchReturn
  cases hr : c s with
  | ok a t => exact h.of_ok hs hr
  | error e t =>
    obtain ⟨he, ht⟩ := h.of_error hs hr
    cases e with
    | returned v => exact ⟨trivial, ht⟩
    | _ => exact ⟨hE _ he nofun, ht⟩

/-- A loop catches the breaks and continues of its rounds. -/
theorem ensures_loopRound {c : Eval Unit} (h : Ensures F E (fun _ => True) c)
    (hE : ∀ e, E e → e ≠ .breakLoop → e ≠ .continueLoop → E' e) :
    Ensures F E' (fun _ => True) (loopRound c) := by
  intro s hs
  unfold loopRound
  cases hr : c s with
  | ok a t => exact h.of_ok hs hr
  | error e t =>
    obtain ⟨he, ht⟩ := h.of_error hs hr
    cases e with
    | breakLoop | continueLoop => exact ⟨trivial, ht⟩
    | _ => exact ⟨hE _ he nofun nofun, ht⟩

/-! ## Lists and loops -/

theorem ensures_forM {xs : List α} {f : α → Eval Unit}
    (h : ∀ x ∈ xs, Ensures F E (fun _ => True) (f x)) :
    Ensures F E (fun _ => True) (xs.forM f) := by
  induction xs with
  | nil => exact ensures_pure trivial
  | cons x xs ih =>
    simp only [List.forM]
    obtain ⟨hx, hxs⟩ := List.forall_mem_cons.1 h
    exact hx.bind fun _ _ => ih hxs

theorem ensures_mapM {P : β → Prop} {xs : List α} {f : α → Eval β}
    (h : ∀ x ∈ xs, Ensures F E P (f x)) :
    Ensures F E (fun ys => ∀ y ∈ ys, P y) (xs.mapM f) := by
  induction xs with
  | nil => exact ensures_pure (List.forall_mem_nil _)
  | cons x xs ih =>
    simp only [List.mapM_cons]
    obtain ⟨hx, hxs⟩ := List.forall_mem_cons.1 h
    refine hx.bind fun y hy => (ih hxs).bind fun ys hys => ?_
    exact ensures_pure (List.forall_mem_cons.2 ⟨hy, hys⟩)

theorem ensures_foldlM {P : β → Prop} {xs : List α} {f : β → α → Eval β}
    (h : ∀ b, P b → ∀ x ∈ xs, Ensures F E P (f b x)) {b : β} (hb : P b) :
    Ensures F E P (xs.foldlM f b) := by
  induction xs generalizing b with
  | nil => exact ensures_pure hb
  | cons x xs ih =>
    simp only [List.foldlM_cons]
    refine (h b hb x List.mem_cons_self).bind fun c hc => ?_
    exact ih (fun d hd y hy => h d hd y (List.mem_cons_of_mem x hy)) hc

theorem ensures_forItems {round : Value → Eval Bool} {items : List Value}
    (h : ∀ v ∈ items, Ensures F E (fun _ => True) (round v)) :
    Ensures F E (fun _ => True) (forItems round items) := by
  induction items with
  | nil => exact ensures_pure trivial
  | cons item rest ih =>
    obtain ⟨hitem, hrest⟩ := List.forall_mem_cons.1 h
    refine hitem.bind fun goOn _ => ?_
    split
    · exact ih hrest
    · exact ensures_pure trivial

theorem ensures_forRange {round : Value → Eval Bool}
    (h : ∀ v, v.Holds F → Ensures F E (fun _ => True) (round v)) (count : Nat) (first : Int) :
    Ensures F E (fun _ => True) (forRange round count first) := by
  induction count generalizing first with
  | zero => exact ensures_pure trivial
  | succ n ih =>
    refine (h _ (.number _)).bind fun goOn _ => ?_
    split
    · exact ih (first + 1)
    · exact ensures_pure trivial

theorem ensures_whileRounds (hE : AllowsCuts E) {cond : Eval Bool} {round : Eval Unit}
    (hcond : Ensures F E (fun _ => True) cond)
    (hround : Ensures F E (fun _ => True) (loopRound round)) (rounds : Nat) :
    Ensures F E (fun _ => True) (whileRounds cfg cond round rounds) := by
  induction rounds with
  | zero => exact ensures_throw (hE _ rfl)
  | succ n ih =>
    refine hcond.bind fun holds _ => ?_
    split
    · refine (ensures_loopTick hE).bind fun _ _ => hround.bind fun goOn _ => ?_
      split
      · exact ih
      · exact ensures_pure trivial
    · exact ensures_pure trivial

theorem ensures_rangeItems (hE : AllowsCuts E) (count : Nat) (first : Int) {done : List Value}
    (hdone : ∀ v ∈ done, v.Holds F) :
    Ensures F E (fun items => ∀ v ∈ items, v.Holds F)
      (Evaluator.rangeItems cfg count first done) := by
  induction count generalizing first done with
  | zero => exact ensures_pure fun v hv => hdone v (List.mem_reverse.1 hv)
  | succ n ih =>
    refine (ensures_loopTick hE).bind fun _ _ => ih (first + 1) ?_
    exact List.forall_mem_cons.2 ⟨.number _, hdone⟩

theorem ensures_bindParams {mark : Option Mark} {params : List Name} {args : List Value}
    (hnames : ∀ p ∈ params, AllowsName E p)
    (hE : ∀ p ∈ params, E (.error ⟨.redeclared p, mark⟩)) (hargs : ∀ v ∈ args, v.Holds F) :
    Ensures F E (fun _ => True) (Evaluator.bindParams mark params args) := by
  induction params generalizing args with
  | nil => exact ensures_pure trivial
  | cons param params ih =>
    cases args with
    | nil => exact ensures_pure trivial
    | cons arg args =>
      obtain ⟨hname, hnames⟩ := List.forall_mem_cons.1 hnames
      obtain ⟨hparam, hE⟩ := List.forall_mem_cons.1 hE
      obtain ⟨harg, hargs⟩ := List.forall_mem_cons.1 hargs
      exact (ensures_declare hname harg hparam).bind fun _ _ => ih hnames hE hargs

end Operations

end Orus.Run
