import Orus.Proofs.Bindings
import Orus.Proofs.Lockstep
import Orus.Proofs.Safety
import Orus.Proofs.Scoping

/-! # The scopes that a run leaves

No scope ever declares a name twice, whatever is executed in it. In a run of a program from
source text the globals and the variables of `main` have texts for names, and when the run
is over the scope of `main` is the only local one that is left, if it was opened at all.
-/

namespace Orus

namespace Frame

structure IsTextual (f : Frame) : Prop where
  distinct : f.IsDistinct
  text : ∀ b ∈ f.bindings, ∃ t, b.1 = .str t

theorem IsTextual.mem_iff {f : Frame} (h : f.IsTextual) (t : String) (v : Value) :
    (.str t, v) ∈ f.bindings ↔ f.find? (.str t) = some v := by
  refine ⟨fun hb => h.distinct.find?_eq hb, fun hv => ?_⟩
  obtain ⟨⟨name, w⟩, hb, rfl⟩ := Option.map_eq_some_iff.1 hv
  have hmem := List.mem_of_find?_eq_some hb
  have hsame := List.find?_some hb
  change Name.same name (.str t) = true at hsame
  obtain ⟨u, rfl⟩ := h.text _ hmem
  rw [Name.same_str, decide_eq_true_iff] at hsame
  rwa [← hsame]

end Frame

/-! ## Scopes without repeated names -/

namespace Chain

structure IsDistinct (c : Chain) : Prop where
  locals : ∀ f ∈ c.locals, f.IsDistinct
  globals : c.globals.IsDistinct
  builtins : c.builtins.IsDistinct

theorem isDistinct_initial : Chain.initial.IsDistinct := by
  refine ⟨nofun, .nil, ?_⟩
  unfold Frame.IsDistinct
  decide

variable {c d : Chain}

theorem IsDistinct.declare? (h : c.IsDistinct) {name : Name} {v : Value}
    (hd : c.declare? name v = some d) : d.IsDistinct := by
  rcases c with ⟨_ | ⟨top, rest⟩, globals, builtins⟩
  · obtain ⟨f, hf, rfl⟩ := Option.map_eq_some_iff.1 hd
    exact ⟨nofun, h.globals.declare? hf, h.builtins⟩
  · obtain ⟨f, hf, rfl⟩ := Option.map_eq_some_iff.1 hd
    obtain ⟨htop, hrest⟩ := List.forall_mem_cons.1 h.locals
    exact ⟨List.forall_mem_cons.2 ⟨htop.declare? hf, hrest⟩, h.globals, h.builtins⟩

theorem isDistinct_assignIn? {name : Name} {v : Value} {frames changed : List Frame}
    (h : ∀ f ∈ frames, f.IsDistinct) (hchanged : assignIn? name v frames = some changed) :
    ∀ f ∈ changed, f.IsDistinct := by
  induction frames generalizing changed with
  | nil => cases hchanged
  | cons f rest ih =>
    obtain ⟨hf, hrest⟩ := List.forall_mem_cons.1 h
    unfold assignIn? at hchanged
    split at hchanged
    · cases hchanged
      exact List.forall_mem_cons.2 ⟨hf.assign name v, hrest⟩
    · obtain ⟨more, hmore, rfl⟩ := Option.map_eq_some_iff.1 hchanged
      exact List.forall_mem_cons.2 ⟨hf, ih hrest hmore⟩

theorem IsDistinct.assign? (h : c.IsDistinct) {name : Name} {v : Value}
    (hd : c.assign? name v = some d) : d.IsDistinct := by
  unfold Chain.assign? at hd
  split at hd
  next locals hlocals =>
    cases hd
    exact ⟨isDistinct_assignIn? h.locals hlocals, h.globals, h.builtins⟩
  next =>
    split at hd
    · cases hd
      exact ⟨h.locals, h.globals.assign name v, h.builtins⟩
    · split at hd
      · cases hd
        exact ⟨h.locals, h.globals, h.builtins.assign name v⟩
      · cases hd

end Chain

namespace Run

theorem isDistinct_isScopeBisimulation :
    IsScopeBisimulation fun c d => c = d ∧ c.IsDistinct where
  lookup? := by
    rintro c _ name ⟨rfl, -⟩
    rfl
  declare? := by
    rintro c _ name v ⟨rfl, h⟩
    cases hd : c.declare? name v with
    | none => exact .none
    | some d => exact .some ⟨rfl, h.declare? hd⟩
  assign? := by
    rintro c _ name v ⟨rfl, h⟩
    cases hd : c.assign? name v with
    | none => exact .none
    | some d => exact .some ⟨rfl, h.assign? hd⟩
  pushed := by
    rintro c _ ⟨rfl, h⟩
    exact ⟨rfl, List.forall_mem_cons.2 ⟨Frame.isDistinct_empty, h.locals⟩, h.globals, h.builtins⟩
  popped := by
    rintro c _ ⟨rfl, h⟩
    exact ⟨rfl, fun f hf => h.locals f (List.mem_of_mem_tail hf), h.globals, h.builtins⟩
  entered := by
    rintro c _ ⟨rfl, h⟩
    exact ⟨rfl, List.forall_mem_singleton.2 Frame.isDistinct_empty, h.globals, h.builtins⟩
  left := by
    rintro c _ caller _ ⟨rfl, hcaller⟩ ⟨rfl, h⟩
    exact ⟨rfl, hcaller.locals, h.globals, h.builtins⟩

theorem isDistinct_execute (cfg : Config) (n : Nat) (program : Node) :
    (endState (execute cfg n program)).scopes.IsDistinct := by
  have hrun := isDistinct_isScopeBisimulation.runProgram cfg n program
    (s := {}) (.intro ⟨rfl, Chain.isDistinct_initial⟩)
  exact hrun.endState.scopes.2

/-! ## Names that are texts -/

def AreTexts (names : List Name) : Prop :=
  ∀ n ∈ names, ∃ t, n = .str t

/-- Only the innermost scope changes, by texts at the end of its list. -/
def TextsAppended (before after : List (List Name)) : Prop :=
  ∃ added, AreTexts added ∧ after = before.modifyHead (· ++ added)

theorem isNameOrder_textsAppended : IsNameOrder TextsAppended where
  kept := by
    intro x y h
    cases h
    refine ⟨[], nofun, ?_⟩
    cases x <;> simp only [List.modifyHead_nil, List.modifyHead_cons, List.append_nil]
  trans := by
    rintro x _ _ ⟨added, hadded, rfl⟩ ⟨more, hmore, rfl⟩
    refine ⟨added ++ more, List.forall_mem_append.2 ⟨hadded, hmore⟩, ?_⟩
    cases x <;> simp only [List.modifyHead_nil, List.modifyHead_cons, List.append_assoc]

theorem textsAppended_declare (t : String) (v : Value) (mark : Option Mark) :
    ChangesNames TextsAppended (declare (.str t) v mark) :=
  changes_declare isNameOrder_textsAppended.isScopeOrder
    (fun _ _ hd => ⟨[.str t], List.forall_mem_singleton.2 ⟨t, rfl⟩, Chain.names_declare? hd⟩) mark

theorem textsAppended_declareFunctions {functions : List Node}
    (h : ∀ fn ∈ functions, IsFunction fn) :
    ChangesNames TextsAppended (declareFunctions functions) := by
  induction functions with
  | nil => exact isNameOrder_textsAppended.isScopeOrder.changes_pure ()
  | cons fn rest ih =>
    obtain ⟨hfn, hrest⟩ := List.forall_mem_cons.1 h
    obtain ⟨name, params, body, mark, rfl, -, -⟩ := hfn
    change ChangesNames TextsAppended
      (declare (.str name) (.function (.fnDecl _ params body mark)) mark >>= fun _ =>
        declareFunctions rest)
    exact isNameOrder_textsAppended.isScopeOrder.changes_bind (textsAppended_declare name _ mark)
      fun _ => ih hrest

variable {cfg : Config} {exec : Node → Eval Unit}

theorem textsAppended_exec (hexec : AddsDeclared cfg exec) {inFunction inLoop : Bool} {node : Node}
    (h : IsStatement inFunction inLoop node) : ChangesNames TextsAppended (exec node) := by
  intro s
  cases hname : declaredName? node with
  | none => exact isNameOrder_textsAppended.kept (hexec.other node hname s)
  | some name =>
    have htext : ∃ t, name = .str t := by
      cases h <;> cases hname
      exact ⟨_, rfl⟩
    have hdeclared := hexec.declaration node name hname s
    have hadded : ∀ t : State, t.scopes.names = s.scopes.names.modifyHead (· ++ [name]) →
        TextsAppended s.scopes.names t.scopes.names :=
      fun t ht => ⟨[name], List.forall_mem_singleton.2 htext, ht⟩
    cases hr : exec node s with
    | ok _ t =>
      rw [hr] at hdeclared
      exact hadded t hdeclared
    | error stop t =>
      rw [hr] at hdeclared
      rcases hdeclared with hkept | ⟨-, -, happended⟩
      · exact isNameOrder_textsAppended.kept hkept
      · exact hadded t happended

theorem textsAppended_forM (hexec : AddsDeclared cfg exec) {inFunction inLoop : Bool}
    {statements : List Node} (h : ∀ n ∈ statements, IsStatement inFunction inLoop n) :
    ChangesNames TextsAppended (statements.forM exec) := by
  induction statements with
  | nil => exact isNameOrder_textsAppended.isScopeOrder.changes_pure ()
  | cons n rest ih =>
    obtain ⟨hn, hrest⟩ := List.forall_mem_cons.1 h
    exact isNameOrder_textsAppended.isScopeOrder.changes_bind (textsAppended_exec hexec hn)
      fun _ => ih hrest

/-- The scope of `main` is opened, with texts in it. -/
def TextsOpened (before after : List (List Name)) : Prop :=
  ∃ own, AreTexts own ∧ after = own :: before

theorem textsOpened_runMain {evaluator : Evaluator} (hexec : AddsDeclared cfg evaluator.exec)
    {main : Node} (h : IsFunction main) : ChangesNames TextsOpened (runMain evaluator main) := by
  obtain ⟨name, params, _, mark, rfl, -, ⟨statements, bodyMark, rfl, hstatements⟩⟩ := h
  intro s
  obtain ⟨own, hown, hnames⟩ := textsAppended_forM hexec hstatements s.scoped
  exact ⟨own, hown, hnames⟩

/-- Globals are texts at the end of a list, and `main` opens a scope if it is begun. -/
theorem names_runDeclared {evaluator : Evaluator} (hexec : AddsDeclared cfg evaluator.exec)
    {globals : List Node} (hglobals : ∀ n ∈ globals, IsStatement false false n)
    {main : Option Node} (hmain : ∀ fn, main = some fn → IsFunction fn) (s : State) :
    let after := (endState (runDeclared evaluator globals main s)).scopes.names
    ∃ declared, TextsAppended s.scopes.names declared ∧
      (after = declared ∨ TextsOpened declared after) := by
  intro after
  have hdeclared := textsAppended_forM hexec hglobals s
  refine ⟨_, hdeclared, ?_⟩
  cases hr : globals.forM evaluator.exec s with
  | error e t => exact .inl (congrArg (fun r => (endState r).scopes.names) (bind_of_error hr))
  | ok _ t =>
    simp only [after, runDeclared, bind_of_ok hr, endState_ok]
    cases main with
    | none => exact .inl rfl
    | some fn =>
      have hopened := textsOpened_runMain hexec (hmain fn rfl) t
      obtain ⟨name, params, body, mark, rfl, -, -⟩ := hmain _ rfl
      cases params with
      | nil =>
        refine .inr ?_
        change TextsOpened _ (endState (catchReturn (runMain evaluator _) t)).scopes.names
        rwa [endState_catchReturn]
      | cons => exact .inl rfl

/-- The names at the end of a run of a program from source text, apart from the builtins. -/
theorem names_execute (cfg : Config) (n : Nat) {program : Node} (h : IsProgram program) :
    let after := (endState (execute cfg n program)).scopes.names
    ∃ declared, TextsAppended [[], Chain.initial.builtins.names] declared ∧
      (after = declared ∨ TextsOpened declared after) := by
  obtain ⟨functions, globals, length, mark, rfl, hfunctions, hglobals, -⟩ := h
  intro after
  have hexec := (isDisciplined_ofDepth cfg n).exec
  have hdeclared := textsAppended_declareFunctions hfunctions {}
  cases hr : declareFunctions functions {} with
  | error e t =>
    rw [hr] at hdeclared
    have hafter : after = t.scopes.names :=
      congrArg (fun r => (endState r).scopes.names) (bind_of_error hr)
    exact ⟨_, hdeclared, .inl hafter⟩
  | ok _ t =>
    rw [hr] at hdeclared
    have hmain : ∀ fn, findMain functions = some fn → IsFunction fn := fun fn hfn =>
      hfunctions fn (List.mem_of_find?_eq_some hfn)
    obtain ⟨declared, happended, hafter⟩ := names_runDeclared hexec hglobals hmain t
    refine ⟨declared, isNameOrder_textsAppended.trans hdeclared happended, ?_⟩
    simp only [after, execute, runProgram_eq, bind_of_ok hr]
    exact hafter

theorem isTextual_of_areTexts {f : Frame} (hdistinct : f.IsDistinct) (h : AreTexts f.names) :
    f.IsTextual :=
  ⟨hdistinct, fun b hb => h b.1 (List.mem_map_of_mem hb)⟩

/-- At the end of a run that came to `main`, its scope is the only local one. -/
theorem scopes_of_begun (cfg : Config) (n : Nat) {program : Node} (h : IsProgram program)
    (hbegun : (endState (execute cfg n program)).scopes.locals ≠ []) :
    ∃ main, (endState (execute cfg n program)).scopes.locals = [main] ∧ main.IsTextual ∧
      (endState (execute cfg n program)).scopes.globals.IsTextual := by
  have hdistinct := isDistinct_execute cfg n program
  obtain ⟨_, ⟨added, hadded, rfl⟩, hafter⟩ := names_execute cfg n h
  generalize (endState (execute cfg n program)).scopes = scopes at *
  rcases scopes with ⟨_ | ⟨main, rest⟩, globals, builtins⟩
  · exact absurd rfl hbegun
  rw [Chain.names_eq, List.map_cons, List.cons_append] at hafter
  rcases hafter with hunopened | ⟨own, hown, hopened⟩
  · have hlength := congrArg List.length hunopened
    simp only [List.modifyHead_cons, List.length_cons, List.length_append, List.length_map,
      List.length_nil] at hlength
    omega
  · obtain ⟨hmain, hothers⟩ := List.cons.inj hopened
    have happend : rest.map Frame.names ++ [globals.names, builtins.names] =
        [] ++ [added, Chain.initial.builtins.names] := hothers
    obtain ⟨hrest, hroots⟩ := List.append_inj' happend rfl
    cases List.map_eq_nil_iff.1 hrest
    obtain ⟨hglobals, -⟩ := List.cons.inj hroots
    refine ⟨main, rfl, isTextual_of_areTexts (hdistinct.locals main List.mem_cons_self) ?_,
      isTextual_of_areTexts hdistinct.globals ?_⟩
    · rwa [hmain]
    · rwa [hglobals]

end Run

end Orus
