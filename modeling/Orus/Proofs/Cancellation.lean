import Orus.Proofs.Growth

/-! # Cancelling a run

A cancelled run does what it would have done uncancelled up to the check that finds it
cancelled, and there it stops for good: nothing catches the stop, and what had been shown
is what the run reports. If the run makes no such check, cancelling it changes nothing.
-/

namespace Orus.Run

variable {α β : Type} {n : Nat} {s t : State}

/-! ## The record of checks -/

/-- How much had been shown at a check; the first check has number zero. -/
def Checks.at? (c : Checks) (n : Nat) : Option Progress :=
  c.shown.reverse[n]?

def Checks.IsComplete (c : Checks) : Prop :=
  c.count = c.shown.length

theorem Checks.IsComplete.add {c : Checks} (h : c.IsComplete) (p : Progress) :
    (c.add p).IsComplete := by
  unfold IsComplete at h ⊢
  simp [Checks.add, h]

theorem Checks.at?_add_count {c : Checks} (h : c.IsComplete) (p : Progress) :
    (c.add p).at? c.count = some p := by
  unfold IsComplete at h
  simp [Checks.at?, Checks.add, h]

theorem Checks.at?_of_suffix {c d : Checks} (h : c.shown <:+ d.shown) {p : Progress}
    (hp : c.at? n = some p) : d.at? n = some p := by
  obtain ⟨later, hlater⟩ := h
  unfold Checks.at? at hp ⊢
  rw [← hlater, List.reverse_append]
  obtain ⟨hn, -⟩ := List.getElem?_eq_some_iff.1 hp
  rw [List.getElem?_append_left hn, hp]

theorem Checks.lt_count_of_at? {c : Checks} (h : c.IsComplete) {p : Progress}
    (hp : c.at? n = some p) : n < c.count := by
  obtain ⟨hn, -⟩ := List.getElem?_eq_some_iff.1 hp
  unfold IsComplete at h
  rwa [List.length_reverse, ← h] at hn

structure State.Extends (s t : State) : Prop where
  grows : s.Grows t
  shown : s.checks.shown <:+ t.checks.shown
  complete : s.checks.IsComplete → t.checks.IsComplete

theorem State.Extends.refl (s : State) : s.Extends s :=
  ⟨.refl s, List.suffix_rfl, id⟩

theorem State.Extends.trans {u : State} (h : s.Extends t) (h' : t.Extends u) : s.Extends u :=
  ⟨h.grows.trans h'.grows, h.shown.trans h'.shown, h'.complete ∘ h.complete⟩

theorem State.Grows.extends (hg : s.Grows t) (hc : t.checks = s.checks) : s.Extends t := by
  refine ⟨hg, hc ▸ List.suffix_rfl, ?_⟩
  rw [hc]
  exact id

theorem State.extends_of_add (hg : s.Grows t) (hc : t.checks = s.checks.add s.progress) :
    s.Extends t := by
  refine ⟨hg, ?_, ?_⟩
  · rw [hc]
    exact List.suffix_cons _ _
  · rw [hc]
    exact fun h => h.add _

/-! ## Two evaluations side by side -/

/-- How an evaluation ends that is cancelled at check `n` and has not made it yet: like
the uncancelled one if that does not make the check either, and else with what had been
shown at the check. -/
inductive Cut (n : Nat) (r : EStateM.Result Stop State α) : EStateM.Result Stop State α → Prop where
  | before (h : (endState r).checks.count ≤ n) : Cut n r r
  | reached {t : State} (hat : (endState r).checks.at? n = some t.progress)
      (houtput : t.output.toList <+: (endState r).output.toList)
      (hdiagnostics : t.diagnostics.toList <+: (endState r).diagnostics.toList) :
      Cut n r (.error (.error ⟨.cancelled, none⟩) t)

structure CutsAt (n : Nat) (s : State) (whole cut : Eval α) : Prop where
  extend : s.Extends (endState (whole s))
  ends : s.checks.IsComplete → s.checks.count ≤ n → Cut n (whole s) (cut s)

/-- Evaluations in a run that is never cancelled, at `false`, and in one that is cancelled
at check `n`, at `true`. -/
def Cuts (n : Nat) (c : Bool → Eval α) : Prop :=
  ∀ s, CutsAt n s (c false) (c true)

/-- An evaluation that makes no check is not cut. -/
theorem cuts_const {c : Eval α} (hg : Growing c) (hc : ∀ s, (endState (c s)).checks = s.checks) :
    Cuts n fun _ => c := by
  intro s
  refine ⟨(hg s).extends (hc s), fun _ hn => .before ?_⟩
  rwa [hc s]

theorem Quiet.cuts {c : Eval α} (h : Quiet c) : Cuts n fun _ => c :=
  cuts_const h.growing fun s => (h.state s).checks

theorem cuts_ofExcept (mark : Option Mark) (r : Except Failure α) :
    Cuts n fun _ => ofExcept mark r := by
  refine cuts_const (growing_ofExcept mark r) fun s => ?_
  rw [endState_ofExcept]

theorem Cut.extend {r : EStateM.Result Stop State α} {r' : EStateM.Result Stop State β} {t : State}
    (hat : (endState r).checks.at? n = some t.progress)
    (houtput : t.output.toList <+: (endState r).output.toList)
    (hdiagnostics : t.diagnostics.toList <+: (endState r).diagnostics.toList)
    (h : (endState r).Extends (endState r')) : Cut n r' (.error (.error ⟨.cancelled, none⟩) t) :=
  .reached (Checks.at?_of_suffix h.shown hat) (houtput.trans h.grows.output)
    (hdiagnostics.trans h.grows.diagnostics)

theorem CutsAt.bind {whole cut : Eval α} {k m : α → Eval β} (h : CutsAt n s whole cut)
    (hk : ∀ a t, whole s = .ok a t → CutsAt n t (k a) (m a)) :
    CutsAt n s (whole >>= k) (cut >>= m) := by
  obtain ⟨hextend, hends⟩ := h
  cases hw : whole s with
  | error e t =>
    have hwhole : (whole >>= k) s = .error e t := bind_of_error hw
    rw [hw] at hextend hends
    constructor
    · rwa [hwhole]
    · intro hs hn
      generalize hcut : cut s = r at hends
      rw [hwhole]
      cases hends hs hn with
      | before h =>
        rw [bind_of_error hcut]
        exact .before h
      | reached hat houtput hdiagnostics =>
        rw [bind_of_error hcut]
        exact .reached hat houtput hdiagnostics
  | ok a t =>
    have hwhole : (whole >>= k) s = k a t := bind_of_ok hw
    obtain ⟨hextend', hends'⟩ := hk a t hw
    rw [hw] at hextend hends
    constructor
    · rw [hwhole]
      exact hextend.trans hextend'
    · intro hs hn
      generalize hcut : cut s = r at hends
      rw [hwhole]
      cases hends hs hn with
      | before h =>
        rw [bind_of_ok hcut]
        exact hends' (hextend.complete hs) h
      | reached hat houtput hdiagnostics =>
        rw [bind_of_error hcut]
        exact Cut.extend hat houtput hdiagnostics hextend'

theorem Cuts.bind {c : Bool → Eval α} {k : Bool → α → Eval β} (hc : Cuts n c)
    (hk : ∀ a, Cuts n fun i => k i a) : Cuts n fun i => c i >>= k i :=
  fun s => (hc s).bind fun a t _ => hk a t

/-! ## Evaluations inside others -/

structure State.Matches (s t : State) : Prop where
  steps : t.steps = s.steps
  iterations : t.iterations = s.iterations
  checks : t.checks = s.checks
  output : t.output = s.output
  diagnostics : t.diagnostics = s.diagnostics

theorem State.Matches.refl (s : State) : s.Matches s :=
  ⟨rfl, rfl, rfl, rfl, rfl⟩

theorem State.Matches.extends (h : s.Matches t) : s.Extends t := by
  refine State.Grows.extends ⟨?_, ?_, ?_, ?_⟩ h.checks
  · exact Nat.le_of_eq h.steps.symm
  · exact Nat.le_of_eq h.iterations.symm
  · exact h.output ▸ List.prefix_rfl
  · exact h.diagnostics ▸ List.prefix_rfl

/-- What surrounds an evaluation matters to a cut as little as the scopes do, as long as
it lets a cancelled run stop. -/
theorem CutsAt.congr {whole cut : Eval α} {whole' cut' : Eval β} {f : State → State}
    (h : CutsAt n t whole cut) (hs : s.Matches t) (hf : ∀ u : State, u.Matches (f u))
    (hend : endState (whole' s) = f (endState (whole t)))
    (hsame : cut t = whole t → cut' s = whole' s)
    (hstop : ∀ u, cut t = .error (.error ⟨.cancelled, none⟩) u →
      cut' s = .error (.error ⟨.cancelled, none⟩) (f u)) :
    CutsAt n s whole' cut' := by
  have hmatch : (endState (whole t)).Matches (endState (whole' s)) := by
    rw [hend]
    exact hf _
  refine ⟨hs.extends.trans (h.extend.trans hmatch.extends), fun hcomplete hn => ?_⟩
  have hends := h.ends (by rwa [hs.checks]) (by rwa [hs.checks])
  generalize hcut : cut t = r at hends
  cases hends with
  | before hle =>
    rw [hsame hcut]
    apply Cut.before
    rwa [hmatch.checks]
  | @reached u hat houtput hdiagnostics =>
    have hu := hf u
    rw [hstop u hcut]
    apply Cut.reached
    · rw [hmatch.checks, hat, State.progress, State.progress, hu.output, hu.diagnostics]
    · rwa [hu.output, hmatch.output]
    · rwa [hu.diagnostics, hmatch.diagnostics]

theorem State.matches_scoped (s : State) : s.Matches s.scoped := ⟨rfl, rfl, rfl, rfl, rfl⟩
theorem State.matches_unscoped (s : State) : s.Matches s.unscoped := ⟨rfl, rfl, rfl, rfl, rfl⟩
theorem State.matches_entered (s : State) : s.Matches s.entered := ⟨rfl, rfl, rfl, rfl, rfl⟩
theorem State.matches_left (s caller : State) : s.Matches (s.left caller) :=
  ⟨rfl, rfl, rfl, rfl, rfl⟩

theorem cuts_inScope {c : Bool → Eval α} (h : Cuts n c) : Cuts n fun i => inScope (c i) := by
  intro s
  refine (h s.scoped).congr s.matches_scoped State.matches_unscoped (endState_inScope _ s) ?_ ?_
  · intro heq
    simp only [inScope_eq, heq]
  · intro u hu
    simp only [inScope_eq, hu]

theorem cuts_inCall {c : Bool → Eval Value} (h : Cuts n c) : Cuts n fun i => inCall (c i) := by
  intro s
  refine (h s.entered).congr s.matches_entered (State.matches_left · s) (endState_inCall _ s) ?_ ?_
  · intro heq
    simp only [inCall_eq, heq]
  · intro u hu
    simp only [inCall_eq, hu]

theorem cuts_catchReturn {c : Bool → Eval Unit} (h : Cuts n c) :
    Cuts n fun i => catchReturn (c i) := by
  intro s
  refine (h s).congr (.refl s) State.Matches.refl (endState_catchReturn _ s) ?_ ?_
  · intro heq
    simp only [catchReturn, heq]
  · intro u hu
    simp only [catchReturn, hu]

theorem cuts_loopRound {c : Bool → Eval Unit} (h : Cuts n c) : Cuts n fun i => loopRound (c i) := by
  intro s
  refine (h s).congr (.refl s) State.Matches.refl (endState_loopRound _ s) ?_ ?_
  · intro heq
    simp only [loopRound, heq]
  · intro u hu
    simp only [loopRound, hu]

/-! ## Two configurations -/

def Config.cancelledAfter (cfg : Config) (checks : Option Nat) : Config :=
  { cfg with cancelAfter := checks }

/-- A configuration that never cancels the run, and one that cancels it at check `n`. -/
def cancelPair (cfg : Config) (n : Nat) : Bool → Config
  | false => cfg.cancelledAfter none
  | true => cfg.cancelledAfter (some n)

variable {cfg : Config}

theorem isCancelled_none (s : State) : isCancelled (cfg.cancelledAfter none) s = false := rfl

theorem isCancelled_some (n : Nat) (s : State) :
    isCancelled (cfg.cancelledAfter (some n)) s = decide (n ≤ s.checks.count) := rfl

/-- A step that begins with a check: cancelled, the run stops in the state before it. -/
theorem cutsAt_of_check {whole cut : Eval α} (hgrows : s.Grows (endState (whole s)))
    (hchecks : (endState (whole s)).checks = s.checks.add s.progress)
    (hcut : cut s = if n ≤ s.checks.count then .error (.error ⟨.cancelled, none⟩) s.checked
      else whole s) : CutsAt n s whole cut := by
  refine ⟨State.extends_of_add hgrows hchecks, fun hs hn => ?_⟩
  rw [hcut]
  split
  next hle =>
    obtain rfl : s.checks.count = n := Nat.le_antisymm hn hle
    refine .reached ?_ hgrows.output hgrows.diagnostics
    rw [hchecks, Checks.at?_add_count hs]
    rfl
  next hlt =>
    apply Cut.before
    rw [hchecks]
    exact Nat.lt_of_not_le hlt

theorem cuts_tick (mark : Option Mark) : Cuts n fun i => tick (cancelPair cfg n i) mark := by
  intro s
  refine cutsAt_of_check (growing_tick mark s) ?_ ?_
  · simp only [cancelPair, tick_eq, isCancelled_none, Bool.false_eq_true, ↓reduceIte]
    split
    · exact (State.quiet_logged _ _ _).checks
    · rfl
  · simp only [cancelPair, tick_eq, isCancelled_none, isCancelled_some, decide_eq_true_eq,
      Bool.false_eq_true, ↓reduceIte]
    rfl

theorem cuts_loopTick : Cuts n fun i => loopTick (cancelPair cfg n i) := by
  intro s
  refine cutsAt_of_check (growing_loopTick s) ?_ ?_
  · simp only [cancelPair, loopTick_eq, isCancelled_none, Bool.false_eq_true, ↓reduceIte]
    split
    · exact (State.quiet_logged _ _ _).checks
    · rfl
  · simp only [cancelPair, loopTick_eq, isCancelled_none, isCancelled_some, decide_eq_true_eq,
      Bool.false_eq_true, ↓reduceIte]
    rfl

theorem cuts_log (line : String) : Cuts n fun _ => log cfg line := by
  refine cuts_const (growing_log line) fun s => ?_
  rw [log_eq]
  exact (s.quiet_logged cfg line).checks

theorem cuts_logFrom (level : Nat) {line : Bool → Eval String} (h : Cuts n line) :
    Cuts n fun i => logFrom (cancelPair cfg n i) level (line i) := by
  have hlevel : ∀ i, logFrom (cancelPair cfg n i) level (line i) =
      if level ≤ cfg.logLevel then line i >>= log cfg else pure () := by
    intro i
    cases i <;> rfl
  simp only [hlevel]
  by_cases hl : level ≤ cfg.logLevel
  · simp only [hl, ↓reduceIte]
    exact h.bind cuts_log
  · simp only [hl, ↓reduceIte]
    exact (quiet_pure ()).cuts

theorem cuts_emit (line : String) : Cuts n fun i => emit (cancelPair cfg n i) line := by
  have hsame : ∀ i, emit (cancelPair cfg n i) line = emit cfg line := by
    intro i
    cases i <;> rfl
  simp only [hsame]
  refine cuts_const (growing_emit line) fun s => ?_
  rw [emit_eq]
  split <;> rfl

theorem cuts_checkCallDepth : Cuts n fun i => checkCallDepth (cancelPair cfg n i) := by
  have hsame : ∀ i, checkCallDepth (cancelPair cfg n i) = checkCallDepth cfg := by
    intro i
    cases i <;> rfl
  simp only [hsame]
  refine cuts_const growing_checkCallDepth fun s => ?_
  rw [checkCallDepth_eq]
  split
  · exact (s.quiet_logged cfg _).checks
  · rfl

theorem cuts_whileRounds (cfg : Config) {cond : Bool → Eval Bool} {body : Bool → Eval Unit}
    (hcond : Cuts n cond) (hbody : Cuts n body) (rounds : Nat) :
    Cuts n fun i => whileRounds (cancelPair cfg n i) (cond i) (body i) rounds := by
  induction rounds with
  | zero => exact cuts_const (fun s => .refl s) fun _ => rfl
  | succ rounds ih =>
    refine hcond.bind fun holds => ?_
    cases holds with
    | false => exact (quiet_pure ()).cuts
    | true =>
      refine cuts_loopTick.bind fun _ => (cuts_loopRound hbody).bind fun goOn => ?_
      cases goOn with
      | false => exact (quiet_pure ()).cuts
      | true => exact ih

theorem cuts_whileLoop {cond : Bool → Eval Bool} {body : Bool → Eval Unit} (hcond : Cuts n cond)
    (hbody : Cuts n body) :
    Cuts n fun i => whileLoop (cancelPair cfg n i) (cond i) (body i) := by
  intro s
  -- The loops start in the same state, so both have the same number of rounds left.
  have h := cuts_whileRounds cfg hcond hbody (roundsLeft cfg s) s
  exact ⟨h.extend, h.ends⟩

/-! ## The evaluator -/

theorem cuts_compositional (cfg : Config) (n depth : Nat) :
    Compositional (cancelPair cfg n) (fun _ => depth) (Cuts n) (Cuts n) where
  pure a := (quiet_pure a).cuts
  bind := Cuts.bind
  throw h := (quiet_throw h).cuts
  lookup name := (quiet_lookup name).cuts
  declare name v mark := (quiet_declare name v mark).cuts
  setVariable name v mark := (quiet_setVariable name v mark).cuts
  warn mark message := (quiet_warn mark message).cuts
  shown _ := cuts_ofExcept _ _
  operator _ _ _ _ := cuts_ofExcept _ _
  builtin mark b args _ := by
    have hsame : ∀ i, (cancelPair cfg n i).timestamp = cfg.timestamp := by
      intro i
      cases i <;> rfl
    simp only [hsame]
    exact cuts_ofExcept _ _
  logFrom level _ hline _ := cuts_logFrom level hline
  tick := cuts_tick
  loopTick := cuts_loopTick
  emit := cuts_emit
  openScope := quiet_openScope.cuts
  inScope := cuts_inScope
  enter h := cuts_checkCallDepth.bind fun _ => h
  inCall := cuts_inCall
  catchReturn := cuts_catchReturn
  loopRound := cuts_loopRound
  whileLoop := cuts_whileLoop

theorem cuts_ofDepth (cfg : Config) (n depth : Nat) :
    EvaluatorHas (Cuts n) (Cuts n) fun i => .ofDepth (cancelPair cfg n i) depth := by
  refine .ofDepth (cuts_compositional cfg n) ?_ depth
  have htooDeep : ∀ {α : Type}, Cuts n fun _ => (tooDeep : Eval α) :=
    cuts_const (fun s => .refl s) fun _ => rfl
  exact ⟨fun _ => htooDeep, fun _ => htooDeep, fun _ => htooDeep, fun _ _ _ => htooDeep⟩

/-- A cancelled run ends like the uncancelled one or is cut. -/
theorem cut_execute (cfg : Config) (n depth : Nat) (program : Node) :
    (endState (execute (cfg.cancelledAfter none) depth program)).checks.IsComplete ∧
    Cut n (execute (cfg.cancelledAfter none) depth program)
      (execute (cfg.cancelledAfter (some n)) depth program) := by
  have h := (cuts_compositional cfg n depth).runProgram (cuts_ofDepth cfg n depth).exec program {}
  exact ⟨h.extend.complete rfl, h.ends rfl (Nat.zero_le n)⟩

/-! ## Runs -/

theorem outcomeOf_cancelledAfter (checks : Option Nat) (mode : Mode) (length : Int)
    (r : EStateM.Result Stop State Unit) :
    outcomeOf (cfg.cancelledAfter checks) mode length r = outcomeOf cfg mode length r := by
  cases r with
  | ok a t => rfl
  | error e t => cases e <;> rfl

/-- The result of a run that stops because it is cancelled. -/
theorem result_outcomeOf_cancelled (length : Int) (t : State) :
    (outcomeOf cfg .normal length (.error (.error ⟨.cancelled, none⟩) t)).result =
      .ok { output := [], error := some ⟨.cancelled, none⟩, diagnostics := t.diagnostics.toList,
            partialOutput := t.output.toList } := rfl

/-- Cancelling a run cuts it at one check. If the run makes no more than `n` checks when it
is never cancelled, cancelling it after `n` checks changes nothing. Otherwise it ends with
the error that says so, and shows what the uncancelled run had shown when it made its next
check after these. -/
theorem run_cancelledAfter (cfg : Config) (program : Node) (n : Nat) :
    let whole := endState (execute (cfg.cancelledAfter none) nestingLimit program)
    (whole.checks.count ≤ n → ∀ mode,
      run (cfg.cancelledAfter (some n)) mode program =
        run (cfg.cancelledAfter none) mode program) ∧
    (n < whole.checks.count → ∃ shown, whole.checks.at? n = some shown ∧
      (run (cfg.cancelledAfter (some n)) (.str "normal") program).result =
        .ok { output := []
              error := some ⟨.cancelled, none⟩
              diagnostics := whole.diagnostics.toList.take shown.warnings
              partialOutput := whole.output.toList.take shown.lines }) := by
  intro whole
  obtain ⟨hcomplete, hcut⟩ := cut_execute cfg n nestingLimit program
  generalize hr : execute (cfg.cancelledAfter (some n)) nestingLimit program = r at hcut
  cases hcut with
  | before hle =>
    constructor
    · intro _ mode
      unfold run
      cases Mode.ofName? mode with
      | none => rfl
      | some m => simp only [hr, outcomeOf_cancelledAfter]
    · intro hlt
      exact absurd hle (Nat.not_le_of_lt hlt)
  | @reached t hat houtput hdiagnostics =>
    constructor
    · intro hle
      exact absurd (Checks.lt_count_of_at? hcomplete hat) (Nat.not_lt_of_le hle)
    · intro _
      have hlines : t.output.toList = whole.output.toList.take t.progress.lines :=
        List.prefix_iff_eq_take.1 houtput
      have hwarnings : t.diagnostics.toList = whole.diagnostics.toList.take t.progress.warnings :=
        List.prefix_iff_eq_take.1 hdiagnostics
      refine ⟨t.progress, hat, ?_⟩
      rw [← hlines, ← hwarnings, ← result_outcomeOf_cancelled (sourceLength program) t, ← hr]
      rfl

/-- A program that prints a line and then another one for ever. -/
def endlessLines : Node :=
  .program [.fnDecl (.str "main") [] (.block [
    .printLine (.string [.raw (.str "one")] none) none,
    .whileLoop (.string [.raw (.str "go")] none) (.block [
      .printLine (.string [.raw (.str "two")] none) none] none) none] none) none] [] 0 none

/-- Limits that let the loop of this program go round three times. -/
def threeRounds : Config := { limits := { maxIterations := 3 } }

def endlessLinesEnd : State :=
  endState (execute (threeRounds.cancelledAfter none) nestingLimit endlessLines)

theorem run_endlessLines_cancelledAfter :
    4 < endlessLinesEnd.checks.count ∧
    (run (threeRounds.cancelledAfter (some 4)) (.str "normal") endlessLines).result =
      .ok { error := some ⟨.cancelled, none⟩, partialOutput := ["one", "two"] } := by
  have hcount : 4 < endlessLinesEnd.checks.count := by decide +kernel
  have hat : endlessLinesEnd.checks.at? 4 = some ⟨2, 0⟩ := by decide +kernel
  have houtput : endlessLinesEnd.output.toList = ["one", "two", "two", "two"] := by decide +kernel
  have hdiagnostics : endlessLinesEnd.diagnostics.toList = [] := by decide +kernel
  have hcut := run_cancelledAfter threeRounds endlessLines 4
  unfold endlessLinesEnd at *
  generalize endState (execute (threeRounds.cancelledAfter none) nestingLimit endlessLines) =
    whole at *
  obtain ⟨shown, hshown, hresult⟩ := hcut.2 hcount
  obtain rfl : ⟨2, 0⟩ = shown := Option.some.inj (hat.symm.trans hshown)
  rw [houtput, hdiagnostics] at hresult
  exact ⟨hcount, hresult⟩

end Orus.Run
