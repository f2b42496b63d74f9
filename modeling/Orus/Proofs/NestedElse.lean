import Orus.Proofs.Likeness.Outcomes

/-! # Chains of conditions

A condition in the else part of another can as well be written as the only statement of a
block there. The block opens a scope that nothing is declared in, and it takes no step of its
own, so a program with all its chains written that way runs as before.
-/

namespace Orus

namespace Node

/-- An else part as a block around it, if it is a condition. -/
def elseBlock (place : Node → Option Mark) (elsePart nested : Node) : Node :=
  match elsePart with
  | .ifElse .. => .block [nested] (place elsePart)
  | _ => nested

mutual

/-- The tree with each condition in an else part, wherever it stands, as the only statement of
a block. The blocks get the given places. -/
def nestedElse (place : Node → Option Mark) : Node → Node
  | .raw value => .raw value
  | .program functions globals length m =>
    .program (nestedElseAll place functions) (nestedElseAll place globals) length m
  | .fnDecl name params body m => .fnDecl name params (nestedElse place body) m
  | .letDecl name init isMutable m => .letDecl name (nestedElse place init) isMutable m
  | .block statements m => .block (nestedElseAll place statements) m
  | .assignment name expr m => .assignment name (nestedElse place expr) m
  | .printLine expr m => .printLine (nestedElse place expr) m
  | .ifElse cond thenPart elsePart m =>
    .ifElse (nestedElse place cond) (nestedElse place thenPart)
      (elseBlock place elsePart (nestedElse place elsePart)) m
  | .forIn loopVar iterable body m =>
    .forIn loopVar (nestedElse place iterable) (nestedElse place body) m
  | .whileLoop cond body m => .whileLoop (nestedElse place cond) (nestedElse place body) m
  | .breakLoop m => .breakLoop m
  | .continueLoop m => .continueLoop m
  | .returnWith value m => .returnWith (nestedElse place value) m
  | .expression expr m => .expression (nestedElse place expr) m
  | .array elements m => .array (nestedElseAll place elements) m
  | .range first last m => .range (nestedElse place first) (nestedElse place last) m
  | .binary op left right m => .binary op (nestedElse place left) (nestedElse place right) m
  | .unary op operand m => .unary op (nestedElse place operand) m
  | .identifier name m => .identifier name m
  | .number value m => .number value m
  | .string segments m => .string (nestedElseAll place segments) m
  | .nilLiteral m => .nilLiteral m
  | .call name args m => .call name (nestedElseAll place args) m
  | .index target position m => .index (nestedElse place target) (nestedElse place position) m
  | .field target name m => .field (nestedElse place target) name m

def nestedElseAll (place : Node → Option Mark) : List Node → List Node
  | [] => []
  | n :: ns => nestedElse place n :: nestedElseAll place ns

end

/-- A chain of three conditions with nothing in its blocks. -/
example (c : Node) (m : Option Mark) :
    nestedElse mark (.ifElse c (.block [] m) (.ifElse c (.block [] m) (.ifElse c (.block [] m)
        (.raw .null) m) m) m) =
      .ifElse (nestedElse mark c) (.block [] m)
        (.block [.ifElse (nestedElse mark c) (.block [] m)
          (.block [.ifElse (nestedElse mark c) (.block [] m) (.raw .null) m] m) m] m) m := rfl

theorem rel_nestedElseAll (place : Node → Option Mark) (ns : List Node) :
    List.Forall₂ (fun n n' => n' = n.nestedElse place) ns (nestedElseAll place ns) := by
  induction ns with
  | nil => exact .nil
  | cons n ns ih => exact .cons rfl ih

theorem matches_nestedElse (place : Node → Option Mark) (n : Node) :
    Matches (fun n n' => n' = n.nestedElse place) Eq n (n.nestedElse place) := by
  cases n with
  | raw value => exact .raw value
  | program functions globals =>
    exact .program (rel_nestedElseAll place functions) (rel_nestedElseAll place globals) rfl
  | block ns => exact .block (rel_nestedElseAll place ns) rfl
  | array ns => exact .array (rel_nestedElseAll place ns) rfl
  | string ns => exact .string (rel_nestedElseAll place ns) rfl
  | call name ns => exact .call (rel_nestedElseAll place ns) rfl
  | ifElse cond thenPart elsePart m =>
    cases elsePart with
    | ifElse => exact .elseBlock rfl rfl rfl rfl
    | _ => exact .ifElse rfl rfl rfl rfl
  | _ => constructor <;> rfl

end Node

def Likeness.nesting (place : Node → Option Mark) : Likeness where
  trees n n' := n' = n.nestedElse place
  marks := Eq
  marks_refl _ := rfl
  marks_orElse := by
    rintro _ _ _ _ rfl rfl
    rfl
  unfold := by
    rintro n _ rfl
    exact n.matches_nestedElse place

namespace Run

theorem sourceLength_nestedElse (place : Node → Option Mark) (program : Node) :
    sourceLength (program.nestedElse place) = sourceLength program := by
  cases program <;> rfl

/-- A program with each condition in an else part as the only statement of a block there has
the same outcome in every mode, for every configuration, and takes as many steps, iterations
and checks. -/
theorem run_nestedElse (place : Node → Option Mark) (cfg : Config) (program : Node) :
    (∀ mode, run cfg mode (program.nestedElse place) = run cfg mode program) ∧
    ∀ depth,
      let s := endState (execute cfg depth program)
      let t := endState (execute cfg depth (program.nestedElse place))
      t.steps = s.steps ∧ t.iterations = s.iterations ∧ t.checks.count = s.checks.count := by
  have hagree (depth : Nat) : Agree (.nesting place) Eq (execute cfg depth program)
      (execute cfg depth (program.nestedElse place)) := agree_execute cfg depth rfl
  refine ⟨fun mode => ?_, fun depth => ?_⟩
  · unfold run
    split
    · rfl
    · rw [sourceLength_nestedElse, outcomeOf_eq id _ _ _ (hagree nestingLimit)]
  · have hend := (hagree depth).endState
    exact ⟨hend.steps.symm, hend.iterations.symm, congrArg Checks.count hend.checks.symm⟩

end Run

end Orus
