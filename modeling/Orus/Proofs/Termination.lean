import Orus.Proofs.Growth

/-! # Termination

The depth of the evaluator and the rounds of a loop make the definitions recursive on a
number, but neither bounds what a program can do. Every statement takes a step and every
round of a loop an iteration, so each run comes to an end at some depth, and at every
greater depth it ends in the same way.
-/

namespace Orus.Run

variable {α β : Type}

/-! ## Results at all depths -/

/-- Results at each depth: from some depth on they are all the same and not about
nesting, and before it they can only be about nesting instead. -/
structure SettlesTo (f : Nat → EStateM.Result Stop State α) (r : EStateM.Result Stop State α) :
    Prop where
  shallow : causeOf r ≠ some .nestingTooDeep
  eventually : ∃ depth, ∀ n, depth ≤ n → f n = r
  before (n : Nat) : f n = r ∨ causeOf (f n) = some .nestingTooDeep

def Settles (f : Nat → EStateM.Result Stop State α) : Prop :=
  ∃ r, SettlesTo f r

theorem settles_const {r : EStateM.Result Stop State α} (h : causeOf r ≠ some .nestingTooDeep) :
    Settles fun _ => r :=
  ⟨r, h, ⟨0, fun _ _ => rfl⟩, fun _ => .inl rfl⟩

theorem Settles.congr {f : Nat → EStateM.Result Stop State α}
    {g : Nat → EStateM.Result Stop State β} (h : Settles f)
    (heq : ∀ n m, f n = f m → g n = g m) (hcause : ∀ n, causeOf (g n) = causeOf (f n)) :
    Settles g := by
  obtain ⟨r, hr, ⟨depth, hdepth⟩, hbefore⟩ := h
  have hlast := hdepth depth (Nat.le_refl _)
  refine ⟨g depth, ?_, ⟨depth, fun n hn => ?_⟩, fun n => ?_⟩
  · rwa [hcause, hlast]
  · exact heq n depth ((hdepth n hn).trans hlast.symm)
  · rcases hbefore n with hn | hn
    · exact .inl (heq n depth (hn.trans hlast.symm))
    · exact .inr ((hcause n).trans hn)

/-- One level more at every depth makes no difference where the lowest level is about
nesting. -/
theorem Settles.below {f : Nat → EStateM.Result Stop State α} (h : Settles fun n => f (n + 1))
    (hzero : causeOf (f 0) = some .nestingTooDeep) : Settles f := by
  obtain ⟨r, hr, ⟨depth, hdepth⟩, hbefore⟩ := h
  refine ⟨r, hr, ⟨depth + 1, fun n hn => ?_⟩, fun n => ?_⟩
  · cases n with
    | zero => exact absurd hn (Nat.not_succ_le_zero _)
    | succ n => exact hdepth n (Nat.le_of_succ_le_succ hn)
  · cases n with
    | zero => exact .inr hzero
    | succ n => exact hbefore n

theorem Settles.bind {c : Nat → Eval α} {k : Nat → α → Eval β} {s : State}
    (hc : Settles fun n => c n s)
    (hk : ∀ a t n, c n s = .ok a t → Settles fun m => k m a t) :
    Settles fun n => (c n >>= k n) s := by
  obtain ⟨r, hr, ⟨depth, hdepth⟩, hbefore⟩ := hc
  cases r with
  | ok a t =>
    obtain ⟨r', hr', ⟨depth', hdepth'⟩, hbefore'⟩ := hk a t depth (hdepth depth (Nat.le_refl _))
    refine ⟨r', hr', ⟨max depth depth', fun n hn => ?_⟩, fun n => ?_⟩
    · rw [bind_of_ok (hdepth n (by omega))]
      exact hdepth' n (by omega)
    · rcases hbefore n with hn | hn
      · simp only [bind_of_ok hn]
        exact hbefore' n
      · exact .inr (causeOf_bind hn)
  | error e t =>
    refine ⟨.error e t, hr, ⟨depth, fun n hn => bind_of_error (hdepth n hn)⟩, fun n => ?_⟩
    rcases hbefore n with hn | hn
    · exact .inl (bind_of_error hn)
    · exact .inr (causeOf_bind hn)

/-! ## Values at all depths -/

/-- A computation that the depth can only cut short. -/
def DepthOnly (f : Nat → Except Failure α) : Prop :=
  ∃ r, ∀ n, f n = r ∨ f n = Builtin.reject .nestingTooDeep

theorem depthOnly_const (r : Except Failure α) : DepthOnly fun _ => r :=
  ⟨r, fun _ => .inl rfl⟩

theorem DepthOnly.bind {f : Nat → Except Failure α} {k : α → Nat → Except Failure β}
    (hf : DepthOnly f) (hk : ∀ a, DepthOnly (k a)) : DepthOnly fun n => f n >>= fun a => k a n := by
  obtain ⟨r, hr⟩ := hf
  have hcut : ∀ n, f n = Builtin.reject .nestingTooDeep →
      (f n >>= fun a => k a n) = Builtin.reject .nestingTooDeep := by
    intro n hn
    rw [hn]
    rfl
  cases r with
  | ok a =>
    obtain ⟨r', hr'⟩ := hk a
    refine ⟨r', fun n => ?_⟩
    rcases hr n with hn | hn
    · simp only [hn]
      exact hr' n
    · exact .inr (hcut n hn)
  | error e =>
    refine ⟨.error e, fun n => ?_⟩
    rcases hr n with hn | hn
    · simp only [hn]
      exact .inl rfl
    · exact .inr (hcut n hn)

theorem depthOnly_shown (v : Value) : DepthOnly fun n => Builtin.shown n v := by
  refine ⟨.ok v.display, fun n => ?_⟩
  by_cases h : v.height < n
  · simp only [Builtin.shown, Value.displayWithin, if_pos h, true_or]
  · simp only [Builtin.shown, Value.displayWithin, if_neg h, or_true]

theorem depthOnly_equality (wanted : Bool) (a b : Value) :
    DepthOnly fun n => equality n wanted a b := by
  refine ⟨.ok (.ofBool (a.equal b == wanted)), fun n => ?_⟩
  cases h : a.equalWithin n b with
  | none => simp only [equality, h, or_true]
  | some verdict => simp only [equality, h, equalWithin_eq_some h, true_or]

theorem depthOnly_applyOperator (op : Name) (a b : Value) :
    DepthOnly fun n => applyOperator n op a b := by
  unfold applyOperator
  split
  case h_6 => exact depthOnly_equality true a b
  case h_7 => exact depthOnly_equality false a b
  all_goals exact depthOnly_const _

theorem depthOnly_toFloat (v : Value) : DepthOnly fun n => Builtin.toFloat n v := by
  cases v with
  | number x => exact depthOnly_const _
  | text s => exact depthOnly_const _
  | _ => exact (depthOnly_shown _).bind fun _ => depthOnly_const _

theorem depthOnly_apply (b : Builtin) (timestamp : Float) (args : List Value) :
    DepthOnly fun n => b.apply ⟨timestamp, n⟩ args := by
  have hconst := depthOnly_const (b.apply ⟨timestamp, 0⟩ args)
  cases b with
  | str =>
    exact (depthOnly_const (Builtin.first args)).bind fun v =>
      (depthOnly_shown v).bind fun _ => depthOnly_const _
  | int =>
    exact (depthOnly_const (Builtin.first args)).bind fun v =>
      (depthOnly_toFloat v).bind fun _ => depthOnly_const _
  | float =>
    exact (depthOnly_const (Builtin.first args)).bind fun v =>
      (depthOnly_toFloat v).bind fun _ => depthOnly_const _
  | _ => exact hconst

/-- A computation that the depth can only cut short settles if it fails because of
nesting only up to some height. -/
theorem settles_ofExcept {f : Nat → Except Failure α} (hf : DepthOnly f) {height : Nat}
    (hfail : ∀ n, FailsByValue (n ≤ height) (f n)) (mark : Option Mark) (s : State) :
    Settles fun n => ofExcept mark (f n) s := by
  obtain ⟨r, hr⟩ := hf
  have hshallow : ∀ n, height < n → causeOf (ofExcept mark (f n) s) ≠ some .nestingTooDeep :=
    fun n hn => (hfail n).causeOf_ofExcept (Nat.not_le_of_lt hn) mark s
  have hsame : ∀ n, height < n → f n = r := by
    intro n hn
    rcases hr n with h | h
    · exact h
    · exact absurd (by rw [h]; rfl) (hshallow n hn)
  have hlast := Nat.lt_succ_self height
  refine ⟨ofExcept mark r s, ?_, ⟨height + 1, fun n hn => by rw [hsame n hn]⟩, fun n => ?_⟩
  · rw [← hsame _ hlast]
    exact hshallow _ hlast
  · rcases hr n with h | h
    · exact .inl (by rw [h])
    · exact .inr (by rw [h]; rfl)

/-! ## Evaluations at all depths -/

variable (cfg : Config) (budget : Nat)

/-- How many steps a run in this state may still take. -/
def stepsLeft (s : State) : Nat :=
  (cfg.limits.maxSteps - s.steps).toNat

theorem stepsLeft_le_of_grows {s t : State} (h : s.Grows t) :
    stepsLeft cfg t ≤ stepsLeft cfg s := by
  have := h.steps
  unfold stepsLeft
  omega

structure Settling (c : Nat → Eval α) : Prop where
  growing (n : Nat) : Growing (c n)
  settles (s : State) : stepsLeft cfg s ≤ budget → Settles fun n => c n s

variable {cfg budget}

theorem settling_const {c : Eval α} (hg : Growing c)
    (hc : ∀ s, causeOf (c s) ≠ some .nestingTooDeep) : Settling cfg budget fun _ => c :=
  ⟨fun _ => hg, fun s _ => settles_const (hc s)⟩

theorem Quiet.settling {c : Eval α} (h : Quiet c) : Settling cfg budget fun _ => c := by
  refine settling_const h.growing fun s hs => ?_
  obtain ⟨e, he, hcause⟩ := Option.bind_eq_some_iff.1 hs
  have hgraceful := h.stop s e he
  cases e with
  | error e =>
    have hdeep : e.cause = .nestingTooDeep := Option.some.inj hcause
    simp only [Stop.isGraceful, isGraceful, hdeep] at hgraceful
    cases hgraceful
  | _ => cases hcause

theorem settling_ofExcept {f : Nat → Except Failure α} (hf : DepthOnly f) {height : Nat}
    (hfail : ∀ n, FailsByValue (n ≤ height) (f n)) (mark : Option Mark) :
    Settling cfg budget fun n => ofExcept mark (f n) :=
  ⟨fun n => growing_ofExcept mark (f n), fun s _ => settles_ofExcept hf hfail mark s⟩

theorem Settling.bind {c : Nat → Eval α} {k : Nat → α → Eval β} (hc : Settling cfg budget c)
    (hk : ∀ a, Settling cfg budget fun n => k n a) : Settling cfg budget fun n => c n >>= k n := by
  refine ⟨fun n => (hc.growing n).bind fun a => (hk a).growing n, fun s hs => ?_⟩
  refine (hc.settles s hs).bind fun a t n hn => (hk a).settles t ?_
  exact Nat.le_trans (stepsLeft_le_of_grows cfg ((hc.growing n).of_ok hn)) hs

theorem settling_tick (mark : Option Mark) : Settling cfg budget fun _ => tick cfg mark := by
  refine settling_const (growing_tick mark) fun s => ?_
  rw [tick_eq]
  split
  · exact nofun
  · split <;> exact nofun

theorem settling_loopTick : Settling cfg budget fun _ => loopTick cfg := by
  refine settling_const growing_loopTick fun s => ?_
  rw [loopTick_eq]
  split
  · exact nofun
  · split <;> exact nofun

theorem settling_checkCallDepth : Settling cfg budget fun _ => checkCallDepth cfg := by
  refine settling_const growing_checkCallDepth fun s => ?_
  rw [checkCallDepth_eq]
  split <;> exact nofun

theorem settling_emit (line : String) : Settling cfg budget fun _ => emit cfg line := by
  refine settling_const (growing_emit line) fun s => ?_
  rw [emit_eq]
  split <;> exact nofun

theorem settling_logFrom (level : Nat) {line : Nat → Eval String} (h : Settling cfg budget line) :
    Settling cfg budget fun n => logFrom cfg level (line n) := by
  simp only [logFrom_eq]
  split
  · refine h.bind fun line => settling_const (growing_log line) fun s => ?_
    rw [log_eq]
    exact nofun
  · exact (quiet_pure ()).settling

theorem settling_inScope {c : Nat → Eval α} (h : Settling cfg budget c) :
    Settling cfg budget fun n => inScope (c n) := by
  refine ⟨fun n => growing_inScope (h.growing n), fun s hs => ?_⟩
  refine (h.settles s.scoped hs).congr (fun n m hnm => ?_) fun n => causeOf_inScope _ s
  simp only [inScope_eq, hnm]

theorem settling_inCall {c : Nat → Eval Value} (h : Settling cfg budget c) :
    Settling cfg budget fun n => inCall (c n) := by
  refine ⟨fun n => growing_inCall (h.growing n), fun s hs => ?_⟩
  refine (h.settles s.entered hs).congr (fun n m hnm => ?_) fun n => causeOf_inCall _ s
  simp only [inCall_eq, hnm]

theorem settling_catchReturn {c : Nat → Eval Unit} (h : Settling cfg budget c) :
    Settling cfg budget fun n => catchReturn (c n) := by
  refine ⟨fun n => growing_catchReturn (h.growing n), fun s hs => ?_⟩
  refine (h.settles s hs).congr (fun n m hnm => ?_) fun n => causeOf_catchReturn _ s
  simp only [catchReturn, hnm]

theorem settling_loopRound {c : Nat → Eval Unit} (h : Settling cfg budget c) :
    Settling cfg budget fun n => loopRound (c n) := by
  refine ⟨fun n => growing_loopRound (h.growing n), fun s hs => ?_⟩
  refine (h.settles s hs).congr (fun n m hnm => ?_) fun n => causeOf_loopRound _ s
  simp only [loopRound, hnm]

theorem settling_whileRounds {cond : Nat → Eval Bool} {body : Nat → Eval Unit}
    (hcond : Settling cfg budget cond) (hbody : Settling cfg budget body) (rounds : Nat) :
    Settling cfg budget fun n => whileRounds cfg (cond n) (body n) rounds := by
  induction rounds with
  | zero => exact settling_const (fun s => .refl s) fun _ => nofun
  | succ rounds ih =>
    refine hcond.bind fun holds => ?_
    cases holds with
    | false => exact (quiet_pure ()).settling
    | true =>
      refine settling_loopTick.bind fun _ => (settling_loopRound hbody).bind fun goOn => ?_
      cases goOn with
      | false => exact (quiet_pure ()).settling
      | true => exact ih

theorem settling_whileLoop {cond : Nat → Eval Bool} {body : Nat → Eval Unit}
    (hcond : Settling cfg budget cond) (hbody : Settling cfg budget body) :
    Settling cfg budget fun n => whileLoop cfg (cond n) (body n) :=
  ⟨fun n => growing_whileLoop (hcond.growing n) (hbody.growing n), fun s hs =>
    (settling_whileRounds hcond hbody (roundsLeft cfg s)).settles s hs⟩

theorem settling_compositional :
    Compositional (fun _ : Nat => cfg) (fun n => n) (Settling cfg budget)
      (Settling cfg budget) where
  pure a := (quiet_pure a).settling
  bind := Settling.bind
  throw h := (quiet_throw h).settling
  lookup name := (quiet_lookup name).settling
  declare name v mark := (quiet_declare name v mark).settling
  setVariable name v mark := (quiet_setVariable name v mark).settling
  warn mark message := (quiet_warn mark message).settling
  shown v := settling_ofExcept (depthOnly_shown v) (fun _ => failsByValue_shown id) none
  operator mark op a b := settling_ofExcept (depthOnly_applyOperator op a b)
    (fun n => failsByValue_applyOperator n op a b) mark
  builtin mark b args hargs := settling_ofExcept (depthOnly_apply b cfg.timestamp args)
    (fun n => (failsByValue_apply ⟨cfg.timestamp, n⟩ hargs).mono fun ⟨_, hv, hn⟩ =>
      Nat.le_trans hn (height_le_heightOfItems hv)) mark
  logFrom level _ hline _ := settling_logFrom level hline
  tick := settling_tick
  loopTick := settling_loopTick
  emit := settling_emit
  openScope := quiet_openScope.settling
  inScope := settling_inScope
  enter h := settling_checkCallDepth.bind fun _ => h
  inCall := settling_inCall
  catchReturn := settling_catchReturn
  loopRound := settling_loopRound
  whileLoop := settling_whileLoop

/-! ## The evaluator -/

theorem Settling.below {c : Nat → Eval α} (h : Settling cfg budget fun n => c (n + 1))
    (hzero : c 0 = tooDeep) : Settling cfg budget c := by
  refine ⟨fun n => ?_, fun s hs => (h.settles s hs).below (by rw [hzero]; rfl)⟩
  cases n with
  | zero =>
    rw [hzero]
    exact fun s => .refl s
  | succ n => exact h.growing n

/-- A statement takes a step before its effect, which has one step less to take. -/
theorem settling_execRule
    (ih : ∀ less, less < budget →
      EvaluatorHas (Settling cfg less) (Settling cfg less) (Evaluator.ofDepth cfg))
    (node : Node) : Settling cfg budget fun n => Evaluator.execRule cfg (.ofDepth cfg n) node := by
  refine ⟨fun n => (growing_ofDepth cfg (n + 1)).exec node, fun s hs => ?_⟩
  refine ((settling_tick node.mark).settles s hs).bind fun _ t _ htick => ?_
  obtain ⟨rfl, hmax⟩ := tick_ok cfg htick
  have hless : stepsLeft cfg (s.stepped node.mark) < budget := by
    have hstep : (s.stepped node.mark).steps = s.steps + 1 := rfl
    unfold stepsLeft at hs ⊢
    omega
  have he := ih _ hless
  exact (settling_compositional.effectRule (depth_ofDepth cfg) node he.eval he.exec).settles _
    (Nat.le_refl _)

theorem settling_eval_and_resolve
    (henter : ∀ decl params args,
      Settling cfg budget fun n => (Evaluator.ofDepth cfg n).enter decl params args)
    (node : Node) :
    (Settling cfg budget fun n => (Evaluator.ofDepth cfg n).eval node) ∧
      Settling cfg budget fun n => (Evaluator.ofDepth cfg n).resolve node := by
  induction hsize : sizeOf node using Nat.strongRecOn generalizing node with
  | ind size ih =>
    subst hsize
    have hsmaller := fun n hn => ih (sizeOf n) hn n rfl
    have heval : Settling cfg budget fun n => (Evaluator.ofDepth cfg n).eval node :=
      Settling.below (settling_compositional.evalRule (depth_ofDepth cfg) node
        (fun n hn => (hsmaller n hn).1) (fun n hn => (hsmaller n hn).2) henter) rfl
    refine ⟨heval, Settling.below ?_ rfl⟩
    exact settling_compositional.resolveRule node heval fun n hn => (hsmaller n hn).2

/-- All evaluations settle. The induction is on the steps that are left: a call leads to
any function, but each of its statements takes a step. Inside a statement it is on the
size of the expression. -/
theorem settling_ofDepth (cfg : Config) (budget : Nat) :
    EvaluatorHas (Settling cfg budget) (Settling cfg budget) (Evaluator.ofDepth cfg) := by
  induction budget using Nat.strongRecOn with
  | ind budget ih =>
    have hexec := settling_execRule ih
    have henter : ∀ decl params args,
        Settling cfg budget fun n => (Evaluator.ofDepth cfg n).enter decl params args :=
      fun decl params args =>
        Settling.below (settling_compositional.enterRule hexec decl params args) rfl
    exact ⟨fun node => (settling_eval_and_resolve henter node).1,
      fun node => Settling.below (hexec node) rfl,
      fun node => (settling_eval_and_resolve henter node).2, henter⟩

/-! ## Rounds of a loop -/

/-- The rounds that a loop gets are enough: more change nothing. -/
theorem whileRounds_eq_of_roundsLeft_le {cond : Eval Bool} {body : Eval Unit}
    (hcond : Growing cond) (hbody : Growing body) {n m : Nat} {s : State}
    (hn : roundsLeft cfg s ≤ n) (hm : roundsLeft cfg s ≤ m) :
    whileRounds cfg cond body n s = whileRounds cfg cond body m s := by
  induction n generalizing m s with
  | zero => exact absurd hn (Nat.not_succ_le_zero _)
  | succ n ih =>
    cases m with
    | zero => exact absurd hm (Nat.not_succ_le_zero _)
    | succ m =>
      refine bind_congr_of_ok fun holds t ht => ?_
      cases holds with
      | false => rfl
      | true =>
        refine bind_congr_of_ok fun _ u hu => bind_congr_of_ok fun goOn v hv => ?_
        cases goOn with
        | false => rfl
        | true =>
          obtain ⟨rfl, hmax⟩ := loopTick_ok cfg hu
          have hst := (hcond.of_ok ht).iterations
          have htv := ((growing_loopRound hbody).of_ok hv).iterations
          have hiterated : t.iterated.iterations = t.iterations + 1 := rfl
          unfold roundsLeft at hn hm
          refine ih ?_ ?_ <;> unfold roundsLeft <;> omega

/-- A loop is its condition, one round and the same loop again. -/
theorem whileLoop_eq {cond : Eval Bool} {body : Eval Unit} (hcond : Growing cond)
    (hbody : Growing body) :
    whileLoop cfg cond body = (do
      if ← cond then
        loopTick cfg
        if ← loopRound body then whileLoop cfg cond body) := by
  funext s
  refine Eq.trans (whileRounds_eq_of_roundsLeft_le hcond hbody (Nat.le_refl _)
    (Nat.le_succ _)) (bind_congr_of_ok fun holds t ht => ?_)
  cases holds with
  | false => rfl
  | true =>
    refine bind_congr_of_ok fun _ u hu => bind_congr_of_ok fun goOn v hv => ?_
    cases goOn with
    | false => rfl
    | true =>
      have hst := (hcond.of_ok ht).iterations
      have htu := (growing_loopTick.of_ok hu).iterations
      have huv := ((growing_loopRound hbody).of_ok hv).iterations
      refine whileRounds_eq_of_roundsLeft_le hcond hbody ?_ (Nat.le_refl _)
      unfold roundsLeft
      omega

/-! ## Runs -/

/-- Every run terminates: from some depth on it has one result, which is not about
nesting, and a run with less depth has that result or is about nesting. Whatever the
depth, no loop runs out of rounds. -/
theorem execute_terminates (cfg : Config) (program : Node) :
    Settles (fun depth => execute cfg depth program) ∧
    ∀ depth cond body,
      let evaluator := Evaluator.ofDepth cfg depth
      evaluator.execWhile cfg cond body = (do
        if ← evaluator.evalCondition cond then
          loopTick cfg
          if ← loopRound (evaluator.execBlock body) then evaluator.execWhile cfg cond body) := by
  constructor
  · have hexec := (settling_ofDepth cfg (stepsLeft cfg {})).exec
    exact (settling_compositional.runProgram hexec program).settles {} (Nat.le_refl _)
  · intro depth cond body
    have hgrowing := growing_ofDepth cfg depth
    have hparts := growing_compositional cfg depth
    exact whileLoop_eq (hgrowing.evalCondition hparts cond) (hgrowing.execBlock hparts body)

end Orus.Run
