import Mathlib.Data.List.Find
import Orus.Proofs.Bindings
import Orus.Proofs.Escapes
import Orus.Proofs.Lockstep

/-! # The order of functions

Functions are declared before anything else, so that every function can call every other
one. Their order then shows in nothing but the layout of the global scope, which a run only
reads by name. Runs of a program and of one with the same functions in another order go in
step, with global scopes that hold the same under each name.
-/

namespace Orus

/-! ## Scopes that agree -/

/-- Frames that hold the same under each name, in whatever order. -/
def Frame.Agrees (f g : Frame) : Prop :=
  ∀ name, f.find? name = g.find? name

namespace Frame.Agrees

variable {f g : Frame}

theorem declares_eq (h : f.Agrees g) (name : Name) : f.declares name = g.declares name := by
  rw [declares_eq_isSome, declares_eq_isSome, h name]

theorem declare? (h : f.Agrees g) (name : Name) (v : Value) :
    Option.Rel Frame.Agrees (f.declare? name v) (g.declare? name v) := by
  unfold Frame.declare?
  rw [h.declares_eq]
  split
  · exact .none
  · refine .some fun n => ?_
    rw [find?_append, find?_append, h n]

theorem assign (h : f.Agrees g) (name : Name) (v : Value) :
    (f.assign name v).Agrees (g.assign name v) := by
  intro n
  rw [find?_assign, find?_assign, h n]

end Frame.Agrees

namespace Chain

/-- Scopes that differ in nothing but the order of the globals. -/
structure Reordered (c d : Chain) : Prop where
  locals : c.locals = d.locals
  globals : c.globals.Agrees d.globals
  builtins : c.builtins = d.builtins

variable {c d : Chain}

theorem Reordered.lookup?_eq (h : c.Reordered d) (name : Name) :
    c.lookup? name = d.lookup? name := by
  simp only [Chain.lookup?, frames, List.findSome?_append, List.findSome?_cons, h.locals,
    h.globals name, h.builtins]

theorem Reordered.declare? (h : c.Reordered d) (name : Name) (v : Value) :
    Option.Rel Reordered (c.declare? name v) (d.declare? name v) := by
  unfold Chain.declare?
  rw [← h.locals]
  cases c.locals with
  | nil =>
    have hglobals := h.globals.declare? name v
    dsimp only
    generalize c.globals.declare? name v = f, d.globals.declare? name v = g at hglobals
    cases hglobals with
    | none => exact .none
    | some hfg => exact .some ⟨rfl, hfg, h.builtins⟩
  | cons top rest =>
    dsimp only
    cases top.declare? name v with
    | none => exact .none
    | some f => exact .some ⟨rfl, h.globals, h.builtins⟩

theorem Reordered.assign? (h : c.Reordered d) (name : Name) (v : Value) :
    Option.Rel Reordered (c.assign? name v) (d.assign? name v) := by
  unfold Chain.assign?
  rw [← h.locals, ← h.builtins, ← h.globals.declares_eq]
  split
  · exact .some ⟨rfl, h.globals, rfl⟩
  · split
    · exact .some ⟨rfl, h.globals.assign name v, rfl⟩
    · split
      · exact .some ⟨rfl, h.globals, rfl⟩
      · exact .none

end Chain

end Orus

namespace Orus.Run

/-! ## Runs in reordered scopes -/

theorem reordered_isScopeBisimulation : IsScopeBisimulation Chain.Reordered where
  lookup? name h := h.lookup?_eq name
  declare? name v h := h.declare? name v
  assign? name v h := h.assign? name v
  pushed h := ⟨congrArg (Frame.empty :: ·) h.locals, h.globals, h.builtins⟩
  popped h := ⟨congrArg List.tail h.locals, h.globals, h.builtins⟩
  entered h := ⟨rfl, h.globals, h.builtins⟩
  left hcaller h := ⟨hcaller.locals, h.globals, h.builtins⟩

/-- The order of the globals is not shown in normal mode. -/
theorem outcomeOf_of_inStep (cfg : Config) (length : Int)
    {r r' : EStateM.Result Stop State Unit} (h : InStep (State.InScopes Chain.Reordered) r r') :
    outcomeOf cfg .normal length r' = outcomeOf cfg .normal length r := by
  cases h with
  | ok ht =>
    cases ht
    rfl
  | @error e _ _ ht =>
    cases ht
    cases e <;> rfl

/-! ## Declared functions -/

/-- What declaring functions adds to the globals. -/
def hoisted (functions : List Node) : List (Name × Value) :=
  functions.filterMap fun fn => fn.name?.map fun name => (name, .function fn)

section Functions

variable {functions functions' : List Node} (hfunctions : ∀ fn ∈ functions, IsFunction fn)
  (hnames : functions.Pairwise fun f g => f.name? ≠ g.name?)

include hfunctions hnames in
theorem declareFunctions_eq {s : State} (hlocals : s.scopes.locals = [])
    (hnew : ∀ fn ∈ functions, ∀ name, fn.name? = some name →
      s.scopes.globals.declares name = false) :
    declareFunctions functions s = .ok () { s with scopes :=
      { s.scopes with globals := ⟨s.scopes.globals.bindings ++ hoisted functions⟩ } } := by
  induction functions generalizing s with
  | nil =>
    simp only [hoisted, List.filterMap_nil, List.append_nil]
    rfl
  | cons fn rest ih =>
    obtain ⟨hfn, hrest⟩ := List.forall_mem_cons.1 hfunctions
    obtain ⟨hdistinct, hrestNames⟩ := List.pairwise_cons.1 hnames
    obtain ⟨hfnNew, hrestNew⟩ := List.forall_mem_cons.1 hnew
    obtain ⟨name, params, body, mark, rfl, -, -⟩ := hfn
    have hdeclare :=
      declare_eq (.str name) (.function (.fnDecl (.str name) params body mark)) mark s
    simp only [isUsable_str, ↓reduceIte, Chain.declare?, hlocals, Frame.declare?,
      hfnNew _ rfl, Bool.false_eq_true, Option.map_some] at hdeclare
    change (declare (.str name) _ mark >>= fun _ => declareFunctions rest) s = _
    rw [bind_of_ok hdeclare, ih hrest hrestNames rfl fun g hg n hn => ?_]
    · simp only [hoisted, Node.name?, List.filterMap_cons, Option.map_some, List.append_assoc,
        List.cons_append, List.nil_append, hlocals]
    · have hne : n ≠ .str name := fun heq => hdistinct g hg (heq ▸ hn.symm)
      have hold : s.scopes.globals.declares n = false := hrestNew g hg n hn
      obtain ⟨text, _, _, _, rfl, -, -⟩ := hrest g hg
      cases hn
      have htext : name ≠ text := fun heq => hne (heq ▸ rfl)
      simpa [Frame.declares, Name.same_str, htext] using hold

variable (hperm : functions.Perm functions')
include hnames hperm

include hfunctions in
theorem hoisted_agrees_of_perm : Frame.Agrees ⟨hoisted functions⟩ ⟨hoisted functions'⟩ := by
  intro n
  unfold Frame.find?
  congr 1
  refine List.find?_eq_find?_of_perm (hperm.filterMap _) ?_
  rintro _ ⟨hb, hbn⟩ _ ⟨hc, hcn⟩
  obtain ⟨f, hf, hfb⟩ := List.mem_filterMap.1 hb
  obtain ⟨g, hg, hgc⟩ := List.mem_filterMap.1 hc
  obtain ⟨a, _, _, _, rfl, -, -⟩ := hfunctions f hf
  obtain ⟨b, _, _, _, rfl, -, -⟩ := hfunctions g hg
  cases hfb
  cases hgc
  -- both are found under one name, so they have one name and are one function
  have hsame : Name.same (.str a) (.str b) = true := by
    rw [Name.same_congr hbn, Name.same_comm]
    exact hcn
  rw [Name.same_str, decide_eq_true_iff] at hsame
  subst hsame
  cases eq_of_name_eq hnames hf hg rfl
  rfl

theorem findMain_of_perm : findMain functions' = findMain functions := by
  refine (List.find?_eq_find?_of_perm hperm ?_).symm
  rintro f ⟨hf, hfmain⟩ g ⟨hg, hgmain⟩
  exact eq_of_name_eq hnames hf hg
    ((of_decide_eq_true hfmain).trans (of_decide_eq_true hgmain).symm)

include hfunctions in
theorem inStep_execute_of_perm (cfg : Config) (n : Nat) (globals : List Node) (length : Int)
    (mark : Option Mark) :
    InStep (State.InScopes Chain.Reordered) (execute cfg n (.program functions globals length mark))
      (execute cfg n (.program functions' globals length mark)) := by
  have hfunctions' : ∀ fn ∈ functions', IsFunction fn := fun fn hfn =>
    hfunctions fn (hperm.mem_iff.2 hfn)
  have hnames' : functions'.Pairwise fun f g => f.name? ≠ g.name? :=
    hperm.pairwise hnames fun h => h.symm
  unfold execute
  rw [runProgram_eq, runProgram_eq, findMain_of_perm hnames hperm,
    bind_of_ok (declareFunctions_eq hfunctions hnames rfl fun _ _ _ _ => rfl),
    bind_of_ok (declareFunctions_eq hfunctions' hnames' rfl fun _ _ _ _ => rfl)]
  exact reordered_isScopeBisimulation.runDeclared cfg n globals _
    (.intro ⟨rfl, hoisted_agrees_of_perm hfunctions hnames hperm, rfl⟩)

end Functions

/-- The order of functions is irrelevant: a program from source text whose functions have
names of their own gives the same in normal mode with its functions in any order. -/
theorem run_of_functions_perm (cfg : Config) {source : String} {functions functions' : List Node}
    {globals : List Node} {length : Int} {mark : Option Mark}
    (hparse : Syntax.parse source = .ok (.program functions globals length mark))
    (hnames : functions.Pairwise fun f g => f.name? ≠ g.name?)
    (hperm : functions.Perm functions') :
    run cfg (.str "normal") (.program functions' globals length mark) =
      run cfg (.str "normal") (.program functions globals length mark) := by
  rcases parse_cases source with ⟨program, hprogram, hshape⟩ | ⟨e, hfailed⟩
  · cases hparse.symm.trans hprogram
    obtain ⟨_, _, _, _, heq, hfunctions, -, -⟩ := hshape
    cases heq
    exact outcomeOf_of_inStep cfg length
      (inStep_execute_of_perm hfunctions hnames hperm cfg nestingLimit globals length mark)
  · cases hparse.symm.trans hfailed

/-- A program with a global that is the value of a function that comes after `main`. -/
def laterSource : String :=
  "let g = three();
fn main() \x7b let f = three; print(g); print(f()); \x7d
fn three() \x7b return \"3\"; \x7d"

/-- Whether a tree is a program with functions of different names, `names` from the last to the
first, that prints `lines`. -/
def printsWithNames (names : List Name) (lines : List String) : Node → Bool
  | .program functions globals length mark =>
    (functions.Pairwise fun f g => f.name? ≠ g.name?) ∧
      functions.reverse.map Node.name? = names.map some ∧
      (run {} (.str "normal") (.program functions globals length mark)).result =
        .ok { output := lines }
  | _ => false

theorem run_laterSource_of_functions_perm : ∃ functions globals length mark,
    Syntax.parse laterSource = .ok (.program functions globals length mark) ∧
    (functions.Pairwise fun f g => f.name? ≠ g.name?) ∧
    functions.reverse.map Node.name? = [some (.str "three"), some (.str "main")] ∧
    (run {} (.str "normal") (.program functions.reverse globals length mark)).result =
      .ok { output := ["3", "3"] } := by
  have hchecked : (Syntax.parse laterSource).toOption.any
      (printsWithNames [.str "three", .str "main"] ["3", "3"]) = true := by
    decide +kernel
  rcases parse_cases laterSource with
    ⟨_, hparse, functions, globals, length, mark, rfl, -⟩ | ⟨e, hfailed⟩
  · rw [hparse] at hchecked
    obtain ⟨hnames, hreverse, hresult⟩ := of_decide_eq_true hchecked
    refine ⟨functions, globals, length, mark, hparse, hnames, hreverse, ?_⟩
    rwa [run_of_functions_perm {} hparse hnames functions.reverse_perm.symm]
  · rw [hfailed] at hchecked
    cases hchecked

end Orus.Run
