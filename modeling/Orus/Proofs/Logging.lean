import Orus.Proofs.Failures
import Orus.Proofs.Lockstep

/-! # The log does not interfere

A log of a higher level renders values in the middle of declarations, assignments,
conditions and loops. Nothing reads the log, so a run and the same run without a log go in
step, up to the log. Only the nesting of a rendered value tells them apart: it can stop the
run that keeps a log. Texts are made of whole characters, so that each line can be written.
-/

namespace Orus.Run

inductive State.SameButLog (s : State) : State → Prop where
  | intro {log : Array String} : State.SameButLog s { s with log }

theorem State.sameButLog_logged (cfg : Config) (s : State) (line : String) {log : Array String} :
    State.SameButLog (s.logged cfg line) { s with log } := by
  unfold State.logged
  split <;> exact .intro

theorem State.sameButLog_rel (s : State) {log : Array String} (scopes : Option Chain) :
    Option.Rel (fun c d => State.SameButLog { s with scopes := c } { s with log, scopes := d })
      scopes scopes := by
  cases scopes with
  | none => exact .none
  | some c => exact .some .intro

/-- The level of the log of a run, and of one without a log. -/
def levelOrNone (cfg : Config) : Bool → Nat
  | false => cfg.logLevel
  | true => 0

theorem sameButLog_isBisimulation (cfg : Config) :
    IsBisimulation cfg (levelOrNone cfg) (· = .nestingTooDeep) State.SameButLog where
  steps := fun ⟨⟩ => rfl
  iterations := fun ⟨⟩ => rfl
  callDepth := fun ⟨⟩ => rfl
  checks := fun ⟨⟩ => rfl
  lines := fun ⟨⟩ => rfl
  lookup? _ := fun ⟨⟩ => rfl
  declare? {s _} _ _ := fun ⟨⟩ => s.sameButLog_rel _
  assign? {s _} _ _ := fun ⟨⟩ => s.sameButLog_rel _
  checked := fun ⟨⟩ => .intro
  stepped _ := fun ⟨⟩ => .intro
  iterated := fun ⟨⟩ => .intro
  printed _ := fun ⟨⟩ => .intro
  warned _ := fun ⟨⟩ => .intro
  logged {s _} line := fun ⟨⟩ => s.sameButLog_logged _ line
  extraLog := .inr ⟨Nat.zero_le _, rfl, fun {s _} line ⟨⟩ => s.sameButLog_logged _ line⟩
  pushed := fun ⟨⟩ => .intro
  popped := fun ⟨⟩ => .intro
  entered := fun ⟨⟩ => .intro
  left := fun ⟨⟩ ⟨⟩ => .intro

/-- A run and the same run without a log go in step, unless nesting stops the first. -/
theorem inStep_execute_logging (cfg : Config) (n : Nat) (program : Node) :
    causeOf (execute cfg n program) = some .nestingTooDeep ∨
      InStep State.SameButLog (execute cfg n program) (execute (cfg.logging 0) n program) := by
  have hb := sameButLog_isBisimulation cfg
  have hrun := (hb.compositional n).runProgram (hb.ofDepth n).exec program {} {} .intro
  refine hrun.imp_left ?_
  rintro ⟨cause, hcause, rfl⟩
  exact hcause

theorem result_of_inStep (cfg : Config) (mode : Mode) (length : Int)
    {r r' : EStateM.Result Stop State Unit} (h : InStep State.SameButLog r r') :
    (outcomeOf (cfg.logging 0) mode length r').result = (outcomeOf cfg mode length r).result := by
  cases h with
  | ok ht =>
    cases ht
    rfl
  | @error e _ _ ht =>
    cases ht
    cases e <;> rfl

/-- Runs in a known mode that the nesting limit stops. -/
def StopsNested (cfg : Config) (mode : Name) (program : Node) : Prop :=
  (∃ m, Mode.ofName? mode = some m) ∧
    causeOf (execute cfg nestingLimit program) = some .nestingTooDeep

/-- Logging does not interfere: a run that is not stopped by the nesting limit has the same
result without a log and ends with the same counters. One that is stopped by it says so,
unless it is one in debug mode whose variables cannot be shown. -/
theorem run_logging_eq (cfg : Config) (mode : Name) (program : Node) :
    (¬ StopsNested cfg mode program →
      (run (cfg.logging 0) mode program).result = (run cfg mode program).result ∧
      ∀ m, Mode.ofName? mode = some m →
        let ended := endState (execute cfg nestingLimit program)
        let quietly := endState (execute (cfg.logging 0) nestingLimit program)
        quietly.steps = ended.steps ∧ quietly.iterations = ended.iterations) ∧
    (StopsNested cfg mode program → (run cfg mode program).FailsWith .nestingTooDeep ∨
      Mode.ofName? mode = some .debug ∧ ∃ fault, (run cfg mode program).result = .error fault) := by
  unfold run
  cases hm : Mode.ofName? mode with
  | none => exact ⟨fun _ => ⟨rfl, nofun⟩, fun ⟨⟨_, hknown⟩, _⟩ => nomatch hm.symm.trans hknown⟩
  | some m =>
    constructor
    · intro hstops
      have hsteps := (inStep_execute_logging cfg nestingLimit program).resolve_left
        fun hcause => hstops ⟨⟨m, hm⟩, hcause⟩
      have hended := hsteps.endState
      refine ⟨result_of_inStep cfg m _ hsteps, fun _ _ => ?_⟩
      exact ⟨((sameButLog_isBisimulation cfg).steps hended).symm,
        ((sameButLog_isBisimulation cfg).iterations hended).symm⟩
    · rintro ⟨-, hcause⟩
      refine (outcomeOf_of_causeOf cfg m (sourceLength program) hcause).imp_right ?_
      rintro ⟨rfl, hfault⟩
      exact ⟨rfl, hfault⟩

def loggedLoop : Node :=
  .program [.fnDecl (.str "main") [] (.block [
    .letDecl (.str "a") (.array [.string [.raw (.str "x")] none] none) true none,
    .forIn (.str "i") (.identifier (.str "a") none) (.block [
      .printLine (.identifier (.str "i") none) none] none) none] none) none] [] 0 none

theorem run_logging_eq_loggedLoop :
    let cfg : Config := { logLevel := 3 }
    ¬ StopsNested cfg (.str "normal") loggedLoop ∧
    (run cfg (.str "normal") loggedLoop).log = some
      ["declare a: Array = [x]", "for i = x", "run finished: 3 steps, 1 iterations, 1 lines"] ∧
    (run (cfg.logging 0) (.str "normal") loggedLoop).result = .ok { output := ["x"] } := by
  intro cfg
  have hcause : causeOf (execute cfg nestingLimit loggedLoop) ≠ some .nestingTooDeep := by
    decide +kernel
  have hstops : ¬ StopsNested cfg (.str "normal") loggedLoop := fun h => hcause h.2
  refine ⟨hstops, by decide +kernel, ?_⟩
  rw [((run_logging_eq cfg (.str "normal") loggedLoop).1 hstops).1]
  decide +kernel

/-- A program that holds a function in an array while an inner block declares a variable for a
value nested more than a thousand levels deep. -/
def deepBlock : Node :=
  let nested := Nat.repeat (fun node => .array [node] none) 32 (.identifier (.str "x") none)
  let deep := Nat.repeat (fun node => .call (.str "nest") [node] none) 32 (.nilLiteral none)
  .program [
    .fnDecl (.str "nest") [.str "x"] (.block [.returnWith nested none] none) none,
    .fnDecl (.str "main") [] (.block [
      .letDecl (.str "f") (.array [.identifier (.str "len") none] none) true none,
      .block [.letDecl (.str "v") deep true none] none,
      .assignment (.str "f") (.nilLiteral none) none] none) none] [] 0 none

/-- In debug mode the fault of a function in an array can be all that is left of a run that
the nesting limit stopped while it wrote its log, and without a log there is no such fault. -/
theorem not_run_logging_eq :
    ¬ ∀ (cfg : Config) (mode : Name) (program : Node),
      ¬ (run cfg mode program).FailsWith .nestingTooDeep →
      (run (cfg.logging 0) mode program).result = (run cfg mode program).result := by
  intro h
  have hlogged : (run { logLevel := 2 } (.str "debug") deepBlock).result =
      .error (.functionAsData "BuiltinFunction") := by decide +kernel
  have hquiet : (run {} (.str "debug") deepBlock).result.isOk = true := by decide +kernel
  have hfails : ¬ (run { logLevel := 2 } (.str "debug") deepBlock).FailsWith .nestingTooDeep := by
    rintro ⟨r, e, hr, -⟩
    cases hlogged.symm.trans hr
  have heq : (run {} (.str "debug") deepBlock).result = _ :=
    h { logLevel := 2 } (.str "debug") deepBlock hfails
  rw [heq, hlogged] at hquiet
  cases hquiet

end Orus.Run
