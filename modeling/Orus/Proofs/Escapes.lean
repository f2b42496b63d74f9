import Orus.Proofs.Literals
import Orus.Proofs.Safety

/-! # Faults that leave a simulation

Simulating a source text gives a result, whatever the text is, unless an operator or a
builtin ends in a fault or, in debug mode, the variables at the end of the run cannot be
shown.
-/

namespace Orus

/-! ## The dump -/

mutual

def Value.holdsFunction : Value → Bool
  | .array items => anyHoldsFunction items
  | .builtin _ | .function _ => true
  | _ => false

def Value.anyHoldsFunction : List Value → Bool
  | [] => false
  | item :: rest => item.holdsFunction || anyHoldsFunction rest

end

namespace Run

/-- What the dump does about a function. -/
abbrev rejectFunction (f : Value) : Except Fault Json :=
  .error (.functionAsData f.type.name)

mutual

theorem holdsFunction_of_toData {fault : Fault} : (v : Value) →
    v.toData rejectFunction = .error fault →
    v.holdsFunction = true ∧ ∃ typeName, fault = .functionAsData typeName
  | .number _, h | .text _, h | .undefined, h => nomatch h
  | .builtin _, h | .function _, h => by
    cases h
    exact ⟨rfl, _, rfl⟩
  | .array items, h => by
    cases hitems : Value.dataOfItems rejectFunction items with
    | ok data =>
      rw [Value.toData, hitems] at h
      cases h
    | error f =>
      rw [Value.toData, hitems] at h
      cases h
      exact anyHoldsFunction_of_dataOfItems items hitems

theorem anyHoldsFunction_of_dataOfItems {fault : Fault} : (items : List Value) →
    Value.dataOfItems rejectFunction items = .error fault →
    Value.anyHoldsFunction items = true ∧ ∃ typeName, fault = .functionAsData typeName
  | [], h => nomatch h
  | item :: rest, h => by
    rw [Value.dataOfItems] at h
    rw [Value.anyHoldsFunction]
    cases hitem : item.toData rejectFunction with
    | error f =>
      rw [hitem] at h
      cases h
      have ⟨hholds, hfault⟩ := holdsFunction_of_toData item hitem
      exact ⟨by rw [hholds, Bool.true_or], hfault⟩
    | ok first =>
      rw [hitem] at h
      cases hrest : Value.dataOfItems rejectFunction rest with
      | error f =>
        rw [hrest] at h
        cases h
        have ⟨hholds, hfault⟩ := anyHoldsFunction_of_dataOfItems rest hrest
        exact ⟨by rw [hholds, Bool.or_true], hfault⟩
      | ok more =>
        rw [hrest] at h
        cases h

end

/-- The variables of the globals and of `main` at the end of a run. -/
def visibleVariables (scopes : Chain) : List (Name × Value) :=
  scopes.globals.data ++ ownVariables scopes.locals.head?

theorem mem_putBinding {name : Name} {v : Value} {bindings : List (Name × Value)}
    {b : Name × Value} (h : b ∈ putBinding name v bindings) : b.2 = v ∨ b ∈ bindings := by
  induction bindings with
  | nil =>
    cases List.mem_singleton.1 h
    exact .inl rfl
  | cons c rest ih =>
    rw [putBinding] at h
    split at h <;> rcases List.mem_cons.1 h with rfl | hrest
    · exact .inl rfl
    · exact .inr (List.mem_cons_of_mem c hrest)
    · exact .inr List.mem_cons_self
    · exact (ih hrest).imp id (List.mem_cons_of_mem c)

/-- Every value that the dump shows is that of a visible variable. -/
theorem mem_dumpedVariables {scopes : Chain} {b : Name × Value}
    (h : b ∈ dumpedVariables scopes.globals scopes.locals.head?) :
    ∃ name, (name, b.2) ∈ visibleVariables scopes := by
  unfold dumpedVariables at h
  unfold visibleVariables
  generalize hg : scopes.globals.data = done at h ⊢
  clear hg
  generalize ownVariables scopes.locals.head? = own at h ⊢
  induction own generalizing done with
  | nil => exact ⟨b.1, by simpa using h⟩
  | cons c rest ih =>
    obtain ⟨name, hname⟩ := ih _ h
    rcases List.mem_append.1 hname with hput | hrest
    · rcases mem_putBinding hput with heq | hdone
      · exact ⟨c.1, List.mem_append_right _ (by simp_all)⟩
      · exact ⟨name, List.mem_append_left _ hdone⟩
    · exact ⟨name, List.mem_append_right _ (List.mem_cons_of_mem c hrest)⟩

theorem mem_of_mapM_error {α β : Type} {f : α → Except Fault β} {xs : List α} {fault : Fault}
    (h : xs.mapM f = .error fault) : ∃ x ∈ xs, f x = .error fault := by
  induction xs with
  | nil => cases h
  | cons x rest ih =>
    rw [List.mapM_cons] at h
    cases hx : f x with
    | error g =>
      rw [hx] at h
      cases h
      exact ⟨x, List.mem_cons_self, hx⟩
    | ok y =>
      rw [hx] at h
      cases hrest : rest.mapM f with
      | error g =>
        rw [hrest] at h
        cases h
        obtain ⟨z, hz, hfz⟩ := ih hrest
        exact ⟨z, List.mem_cons_of_mem x hz, hfz⟩
      | ok ys =>
        rw [hrest] at h
        cases h

/-- No visible variable is a function. -/
theorem isArray_of_holdsFunction {scopes : Chain} {name : Name} {v : Value}
    (h : (name, v) ∈ visibleVariables scopes) (hv : v.holdsFunction = true) :
    ∃ items, v = .array items := by
  have hdata : ∃ f : Frame, (name, v) ∈ f.data := by
    rcases List.mem_append.1 h with h | h
    · exact ⟨_, h⟩
    · unfold ownVariables at h
      split at h
      · exact ⟨_, h⟩
      · cases h
  obtain ⟨f, hf⟩ := hdata
  have hkept := (List.mem_filter.1 hf).2
  cases v with
  | array items => exact ⟨items, rfl⟩
  | builtin b => cases hkept
  | function decl => cases hkept
  | _ => cases hv

/-- The faults that leave a run of a parsed program in a mode, from the scopes at its end. -/
inductive Escapes (mode : Mode) (scopes : Chain) : Fault → Prop where
  | value {fault : Fault} : IsValueFault fault → Escapes mode scopes fault
  | nested {name : Name} {v : Value} : mode = .debug → (name, v) ∈ visibleVariables scopes →
      nestingLimit ≤ v.height → Escapes mode scopes .tooDeep
  | function {name : Name} {items : List Value} {typeName : String} : mode = .debug →
      (name, .array items) ∈ visibleVariables scopes → Value.anyHoldsFunction items = true →
      Escapes mode scopes (.functionAsData typeName)

/-- Only the first part of a computation can fail when the rest cannot. -/
theorem error_of_map_error {α β : Type} {r : Except Fault α} {f : α → β} {fault : Fault}
    (h : (do return f (← r)) = (.error fault : Except Fault β)) : r = .error fault := by
  cases r with
  | error g =>
    cases h
    rfl
  | ok a => cases h

theorem escapes_of_dumpLines {length : Int} {scopes : Chain} {fault : Fault}
    (h : dumpLines nestingLimit length scopes = .error fault) : Escapes .debug scopes fault := by
  have hdata := error_of_map_error h
  unfold dumpData at hdata
  split at hdata
  next hany =>
    cases hdata
    obtain ⟨⟨name, v⟩, hmem, hheight⟩ := List.any_eq_true.1 hany
    exact .nested rfl hmem (of_decide_eq_true hheight)
  · obtain ⟨⟨name, v⟩, hmem, hv⟩ := mem_of_mapM_error (error_of_map_error hdata)
    obtain ⟨hholds, typeName, rfl⟩ := holdsFunction_of_toData v (error_of_map_error hv)
    obtain ⟨shown, hvisible⟩ := mem_dumpedVariables hmem
    obtain ⟨items, rfl⟩ := isArray_of_holdsFunction hvisible hholds
    exact .function rfl hvisible hholds

/-! ## Outcomes -/

theorem escapes_of_resultOf {mode : Mode} {length : Int} {s : State} {error : Option Error}
    {fault : Fault} (h : resultOf mode length s error = .error fault) :
    Escapes mode s.scopes fault := by
  have hlines : shownLines mode length s error = .error fault := by
    cases hl : shownLines mode length s error with
    | error f =>
      rw [resultOf, hl] at h
      cases h
      rfl
    | ok lines =>
      rw [resultOf, hl] at h
      cases error <;> cases h
  unfold shownLines at hlines
  split at hlines
  next hdebug =>
    obtain ⟨rfl, -⟩ := hdebug
    exact escapes_of_dumpLines (error_of_map_error hlines)
  · cases hlines

theorem error_of_resultOf {mode : Mode} {length : Int} {s : State} {error : Option Error}
    {r : Result} {e : Error} (h : resultOf mode length s error = .ok r) (he : r.error = some e) :
    ∃ e', error = some e' ∧ e = placed s e' := by
  cases hl : shownLines mode length s error with
  | error f =>
    rw [resultOf, hl] at h
    cases h
  | ok lines =>
    rw [resultOf, hl] at h
    cases error with
    | none =>
      cases h
      cases he
    | some e' =>
      cases h
      cases he
      exact ⟨e', rfl, rfl⟩

theorem result_outcomeOf_fault (cfg : Config) (mode : Mode) (length : Int) (fault : Fault)
    (t : State) : (outcomeOf cfg mode length (.error (.fault fault) t)).result = .error fault := rfl

/-- What the outcome of a safely ended execution can be. -/
theorem outcomeOf_of_safeResult (cfg : Config) (mode : Mode) (length : Int)
    {e : EStateM.Result Stop State Unit} (h : SafeResult false false (fun _ => True) e) :
    (∀ fault, (outcomeOf cfg mode length e).result = .error fault →
      Escapes mode (endState e).scopes fault) ∧
    ∀ r error, (outcomeOf cfg mode length e).result = .ok r → r.error = some error →
      error.cause.kind ≠ .badSyntax ∧ error.cause.kind ≠ .missingMain := by
  cases e with
  | ok a t =>
    refine ⟨fun fault hf => escapes_of_resultOf hf, fun r error hr he => ?_⟩
    obtain ⟨e', he', -⟩ := error_of_resultOf hr he
    cases he'
  | error stop t =>
    cases h.1 with
    | error hb hm =>
      refine ⟨fun fault hf => escapes_of_resultOf hf, fun r error hr he => ?_⟩
      obtain ⟨e', he', rfl⟩ := error_of_resultOf hr he
      cases he'
      rw [cause_placed]
      exact ⟨hb, hm⟩
    | fault hf =>
      rw [result_outcomeOf_fault]
      refine ⟨fun fault hfault => ?_, fun r error hr => nomatch hr⟩
      cases hfault
      exact .value hf
    | breakLoop hl => exact Bool.noConfusion hl
    | continueLoop hl => exact Bool.noConfusion hl
    | returned hf => exact Bool.noConfusion hf

/-- Parsing a source text gives a program of the right shape or an error of the text. -/
theorem parse_cases (source : String) :
    (∃ program, Syntax.parse source = .ok program ∧ IsProgram program) ∨
      ∃ e, Syntax.parse source = .error (.error e) := by
  unfold Syntax.parse Syntax.parseWithin
  rcases Syntax.parseTokens_cases nestingLimit (Token.isReadable_of_mem_scan source) with
    ⟨program, hp, hprogram⟩ | ⟨e, hp⟩ | hp <;> rw [hp]
  · exact .inl ⟨program, rfl, hprogram⟩
  · exact .inr ⟨e, rfl⟩
  · exact .inr ⟨_, rfl⟩

theorem simulate_of_parse (cfg : Config) {mode : Name} {m : Mode} (hm : Mode.ofName? mode = some m)
    {source : String} {program : Node} (h : Syntax.parse source = .ok program) :
    simulate cfg mode source =
      outcomeOf cfg m (sourceLength program) (execute cfg nestingLimit program) := by
  unfold simulate run
  rw [h, hm]

end Run

end Orus
