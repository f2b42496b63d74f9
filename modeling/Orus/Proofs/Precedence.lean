import Orus.Proofs.Cursors
import Orus.Proofs.Rendering.Expressions
import Orus.Proofs.Scanning.Lexemes

/-! # Operators and the trees they make

A sequence of operands with binary operators between them stands for one tree. It is
given by a rule that looks at the whole sequence: split at the last of the loosest operators, and
do the same on both sides. The parser reads from left to right, one level of operators inside
another, and makes the same tree.
-/

namespace Orus.Syntax

open Cursor Grammar

/-! ## Sequences -/

/-- The tree of a token that is an operand alone: a number, or a name that is no unary
operator. -/
inductive IsAtom : Token → Node → Prop where
  | number {t : Token} {x : Float} : t.kind = .number → Number.readNumber? t.text = some x →
      IsAtom t (.number x t.mark)
  | name {t : Token} : t.kind = .ident → t.text ∉ ["!", "-"] →
      IsAtom t (.identifier t.name t.mark)

def IsSign (t : Token) : Prop :=
  t.kind = .op ∧ t.text ∈ ["!", "-"]

def binaryOperators : List String :=
  ["||", "&&", "==", "!=", "<", ">", "<=", ">=", "+", "-", "*", "/", "%"]

def tightness : String → Nat
  | "||" => 0
  | "&&" => 1
  | "==" | "!=" => 2
  | "<" | ">" | "<=" | ">=" => 3
  | "+" | "-" => 4
  | _ => 5

/-- Unary operators, the outermost first, before a number or a name. -/
structure Operand where
  signs : List Token
  last : Token
  leaf : Node
  isSign : ∀ t ∈ signs, IsSign t
  isAtom : IsAtom last leaf

structure Step where
  op : Token
  operand : Operand
  isOperator : op.kind = .op ∧ op.text ∈ binaryOperators

def Operand.tokens (x : Operand) : List Token :=
  x.signs ++ [x.last]

def Operand.node (x : Operand) : Node :=
  x.signs.foldr (fun t inside => .unary t.name inside t.mark) x.leaf

def Step.tokens (s : Step) : List Token :=
  s.op :: s.operand.tokens

def sequence (first : Operand) (steps : List Step) : List Token :=
  first.tokens ++ steps.flatMap Step.tokens

/-! ## The rule -/

/-- The steps before the last one of the loosest steps, that step, and the steps after it. -/
def splitLoosest : List Step → Option (List Step × Step × List Step)
  | [] => none
  | s :: steps =>
    match splitLoosest steps with
    | none => some ([], s, [])
    | some (before, pivot, after) =>
      if tightness pivot.op.text ≤ tightness s.op.text then some (s :: before, pivot, after)
      else some ([], s, steps)

theorem splitLoosest_eq_none {steps : List Step} (h : splitLoosest steps = none) : steps = [] := by
  cases steps with
  | nil => rfl
  | cons s steps =>
    unfold splitLoosest at h
    split at h
    · cases h
    · split at h <;> cases h

theorem eq_append_of_splitLoosest {steps before after : List Step} {pivot : Step}
    (h : splitLoosest steps = some (before, pivot, after)) : steps = before ++ pivot :: after := by
  induction steps generalizing before pivot after with
  | nil => cases h
  | cons s steps ih =>
    unfold splitLoosest at h
    split at h
    next hnone =>
      cases h
      rw [splitLoosest_eq_none hnone]
      rfl
    next before' pivot' after' hsome =>
      split at h
      · cases h
        rw [ih hsome]
        rfl
      · cases h
        rfl

/-- The tree of an operand and the steps after it: the operand alone, or the last of the loosest
operators over the trees of what is before and after it. -/
def group (first : Operand) (steps : List Step) : Node :=
  match _ : splitLoosest steps with
  | none => first.node
  | some (before, pivot, after) =>
    .binary pivot.op.name (group first before) (group pivot.operand after) pivot.op.mark
termination_by steps.length
decreasing_by
  all_goals
    have hsplit := congrArg List.length (eq_append_of_splitLoosest ‹_›)
    simp at hsplit
    omega

theorem splitLoosest_append {before after : List Step} {pivot : Step}
    (hbefore : ∀ s ∈ before, tightness pivot.op.text ≤ tightness s.op.text)
    (hafter : ∀ s ∈ after, tightness pivot.op.text < tightness s.op.text) :
    splitLoosest (before ++ pivot :: after) = some (before, pivot, after) := by
  induction before with
  | nil =>
    rw [List.nil_append, splitLoosest]
    split
    next hnone => rw [splitLoosest_eq_none hnone]
    next before' pivot' after' hsome =>
      have hmem : pivot' ∈ after := by simp [eq_append_of_splitLoosest hsome]
      rw [if_neg (Nat.not_le.2 (hafter pivot' hmem))]
  | cons s before ih =>
    rw [List.cons_append, splitLoosest, ih fun s' hs' => hbefore s' (List.mem_cons_of_mem s hs')]
    simp [hbefore s List.mem_cons_self]

theorem group_nil (first : Operand) : group first [] = first.node := by
  rw [group]
  rfl

theorem group_append (first : Operand) {before after : List Step} {pivot : Step}
    (hbefore : ∀ s ∈ before, tightness pivot.op.text ≤ tightness s.op.text)
    (hafter : ∀ s ∈ after, tightness pivot.op.text < tightness s.op.text) :
    group first (before ++ pivot :: after) =
      .binary pivot.op.name (group first before) (group pivot.operand after) pivot.op.mark := by
  have hsplit := splitLoosest_append hbefore hafter
  rw [group]
  split
  next hnone =>
    rw [hsplit] at hnone
    cases hnone
  next hsome =>
    rw [hsplit] at hsome
    cases hsome
    rfl

/-! ## Operands -/

theorem IsAtom.kind_cases {t : Token} {leaf : Node} (h : IsAtom t leaf) :
    t.kind = .number ∨ t.kind = .ident := by
  cases h with
  | number hkind _ => exact .inl hkind
  | name hkind _ => exact .inr hkind

theorem IsAtom.text_not_mem {t : Token} {leaf : Node} (h : IsAtom t leaf) :
    t.text ∉ ["!", "-"] := by
  cases h with
  | name _ htext => exact htext
  | number _ hread =>
    have hbang : Number.readNumber? "!" = none := by decide +kernel
    have hminus : Number.readNumber? "-" = none := by decide +kernel
    simp only [List.mem_cons, List.not_mem_nil, or_false]
    rintro (htext | htext) <;> simp_all

theorem primaryRule_atom (deeper : Grammar) {t : Token} {leaf : Node} (h : IsAtom t leaf)
    {after : List Token} (hafter : Opens after) :
    primaryRule deeper (ofList (t :: after)) = .ok (leaf, ofList after) := by
  have hkind := h.kind_cases
  have hadvance : advance (ofList (t :: after)) = .ok (t, ofList after) :=
    advance_ofList (by rcases hkind with hkind | hkind <;> simp [hkind]) hafter
  cases h with
  | number hkind hread =>
    change (if t.kind = .number then (_ : Parse Node) else _) (ofList (t :: after)) = _
    rw [if_pos hkind, bind_eq_of_ok hadvance]
    change numberLiteral t (ofList after) = _
    simp only [numberLiteral, hread]
    rfl
  | name hkind _ =>
    change (if t.kind = .number then (_ : Parse Node) else if t.kind = .string then _
      else if t.kind = .ident then _ else _) (ofList (t :: after)) = _
    rw [if_neg (by simp [hkind]), if_neg (by simp [hkind]), if_pos hkind, bind_eq_of_ok hadvance]
    rfl

theorem suffixes_of_unseen (deeper : Grammar) (budget : Nat) (node : Node) {c : Cursor}
    (h : c.sees ["[", ".", "("] = false) : suffixes deeper budget node c = .ok (node, c) := by
  have hunseen {texts : List String} (hsub : texts ⊆ ["[", ".", "("]) : ¬ c.sees texts = true := by
    simp [sees_eq_false_of_subset h hsub]
  cases budget with
  | zero => rfl
  | succ n =>
    have hpoint : c.sees ["."] = false := sees_eq_false_of_subset h (by simp)
    change (sees ["["] >>= fun isSeen => if isSeen = true then _ else _) c = _
    rw [ite_sees, if_neg (hunseen (by simp)), bind_eq_of_ok (accept_of_unseen hpoint)]
    change (sees ["("] >>= fun isSeen => if isSeen = true then _ else _) c = _
    rw [ite_sees, if_neg (hunseen (by simp))]
    rfl

theorem operators_operand (x : Operand) {after : List Token} (hopens : Opens after)
    (hafter : (ofList after).sees ["[", ".", "("] = false) (depth : Nat) :
    (ofDepth depth).operators [] (ofList (x.tokens ++ after)) =
      if x.signs.length < depth then .ok (x.node, ofList after) else .error (.fault .tooDeep) := by
  obtain ⟨signs, last, leaf, hsigns, hatom⟩ := x
  simp only [Operand.tokens, Operand.node, List.append_assoc, List.singleton_append]
  induction signs generalizing depth with
  | nil =>
    cases depth with
    | zero => rfl
    | succ depth =>
      have hkind : last.kind ≠ .string ∧ last.kind ≠ .eof := by
        rcases hatom.kind_cases with hkind | hkind <;> simp [hkind]
      change (sees ["!", "-"] >>= fun isSeen => if isSeen = true then _ else _) _ = _
      rw [List.nil_append, ite_sees, if_neg (by simpa [sees_ofList hkind] using hatom.text_not_mem),
        bind_eq_of_ok (primaryRule_atom _ hatom hopens)]
      exact suffixes_of_unseen _ _ _ hafter
  | cons t signs ih =>
    cases depth with
    | zero => rfl
    | succ depth =>
      obtain ⟨hkind, htext⟩ := hsigns t List.mem_cons_self
      have hsigns' : ∀ u ∈ signs, IsSign u := fun u hu => hsigns u (List.mem_cons_of_mem t hu)
      have hnext : Opens (signs ++ last :: after) := by
        cases signs with
        | nil => exact opens_cons (by rcases hatom.kind_cases with hlast | hlast <;> simp [hlast]) _
        | cons u signs => exact opens_cons (by simp [(hsigns' u List.mem_cons_self).1]) _
      have hadvance : advance (ofList (t :: (signs ++ last :: after))) =
          .ok (t, ofList (signs ++ last :: after)) := advance_ofList (by simp [hkind]) hnext
      change (sees ["!", "-"] >>= fun isSeen => if isSeen = true then _ else _) _ = _
      rw [List.cons_append, ite_sees, if_pos (by simpa [sees_ofList, hkind] using htext),
        bind_eq_of_ok hadvance]
      rw [bind_eq_of_ite (ih depth hsigns')]
      simp only [List.length_cons, Nat.add_lt_add_iff_right]
      rfl

/-! ## Levels -/

abbrev Fits (depth : Nat) (first : Operand) (steps : List Step) : Prop :=
  first.signs.length < depth ∧ ∀ s ∈ steps, s.operand.signs.length < depth

/-- A parser gives the trees of the sequences of some operators, before anything that does not
continue them, if the depth is enough for their operands. -/
def ReadsSequences (levels : List (List String)) (depth : Nat) (p : Parse Node) : Prop :=
  ∀ (first : Operand) (steps : List Step) (after : List Token),
    (∀ s ∈ steps, s.op.text ∈ levels.flatten) → Opens after →
    (ofList after).sees (levels.flatten ++ ["[", ".", "("]) = false →
    p (ofList (sequence first steps ++ after)) =
      if Fits depth first steps then .ok (group first steps, ofList after)
      else .error (.fault .tooDeep)

/-- Levels of operators from the loosest to the tightest. -/
def IsRanked : List (List String) → Prop
  | [] => True
  | level :: tighter =>
    (∀ a ∈ level, (∀ b ∈ level, tightness a = tightness b) ∧
      ∀ b ∈ tighter.flatten, tightness a < tightness b) ∧ IsRanked tighter

theorem isRanked_priorities : IsRanked priorities :=
  ⟨by decide, by decide, by decide, by decide, by decide, by decide, trivial⟩

theorem opens_sequence (first : Operand) (steps : List Step) (after : List Token) :
    Opens (sequence first steps ++ after) := by
  obtain ⟨signs, last, leaf, hsigns, hatom⟩ := first
  cases signs with
  | nil => exact opens_cons (by rcases hatom.kind_cases with hlast | hlast <;> simp [hlast]) _
  | cons t signs => exact opens_cons (by simp [(hsigns t List.mem_cons_self).1]) _

theorem opens_steps (steps : List Step) {after : List Token} (h : Opens after) :
    Opens (steps.flatMap Step.tokens ++ after) := by
  cases steps with
  | nil => exact h
  | cons s steps => exact opens_cons (by simp [s.isOperator.1]) _

section Chain

variable {level : List String} {tighter : List (List String)} {operand : Parse Node} {depth : Nat}
  {after : List Token} (hranked : IsRanked (level :: tighter))
  (hoperand : ReadsSequences tighter depth operand) (hopens : Opens after)
  (hafter : (ofList after).sees ((level :: tighter).flatten ++ ["[", ".", "("]) = false)

/-- Steps are cut where the operators of the tighter levels end. -/
theorem exists_block {steps : List Step}
    (h : ∀ s ∈ steps, s.op.text ∈ (level :: tighter).flatten) : ∃ block rest,
    steps = block ++ rest ∧ (∀ s ∈ block, s.op.text ∈ tighter.flatten) ∧
      ∀ s ∈ rest.head?, s.op.text ∈ level := by
  obtain ⟨block, rest, rfl, hblock, hrest⟩ :=
    Token.exists_stop (fun s : Step => decide (s.op.text ∈ tighter.flatten)) steps
  refine ⟨block, rest, rfl, fun s hs => of_decide_eq_true (hblock s hs), fun s hs => ?_⟩
  have hmem := h s (List.mem_append_right block (List.mem_of_mem_head? hs))
  rw [List.flatten_cons, List.mem_append] at hmem
  exact hmem.resolve_right (of_decide_eq_false (hrest s hs))

include hranked in
theorem group_level (first : Operand) {done block : List Step} {s : Step} (hs : s.op.text ∈ level)
    (hdone : ∀ d ∈ done, d.op.text ∈ (level :: tighter).flatten)
    (hblock : ∀ b ∈ block, b.op.text ∈ tighter.flatten) :
    group first (done ++ s :: block) =
      .binary s.op.name (group first done) (group s.operand block) s.op.mark := by
  obtain ⟨hsame, htighter⟩ := hranked.1 s.op.text hs
  apply group_append
  · intro d hd
    have hmem := hdone d hd
    rw [List.flatten_cons, List.mem_append] at hmem
    rcases hmem with hmem | hmem
    · exact Nat.le_of_eq (hsame _ hmem)
    · exact Nat.le_of_lt (htighter _ hmem)
  · intro b hb
    exact htighter _ (hblock b hb)

include hranked hafter in
/-- No tighter operator follows an operand of a level. -/
theorem unseen_steps {rest : List Step} (hrest : ∀ s ∈ rest.head?, s.op.text ∈ level) :
    (ofList (rest.flatMap Step.tokens ++ after)).sees (tighter.flatten ++ ["[", ".", "("]) =
      false := by
  cases rest with
  | nil => exact sees_eq_false_of_subset hafter (by simp)
  | cons s rest =>
    obtain ⟨hkind, hop⟩ := s.isOperator
    have hplain : ∀ op ∈ binaryOperators, op ∉ ["[", ".", "("] := by decide
    have htexts : s.op.text ∉ tighter.flatten ++ ["[", ".", "("] := by
      rw [List.mem_append, not_or]
      refine ⟨fun hmem => ?_, hplain _ hop⟩
      exact absurd ((hranked.1 _ (hrest s rfl)).2 _ hmem) (Nat.lt_irrefl _)
    rw [List.flatMap_cons, Step.tokens, List.cons_append, List.cons_append,
      sees_ofList (by simp [hkind])]
    simpa using htexts

include hranked hoperand hopens hafter in
/-- The loop of a level goes on with the tree of the steps it has read. -/
theorem chain_eq_group (first : Operand) (budget : Nat) (done steps : List Step)
    (hbudget : steps.length ≤ budget)
    (hdone : ∀ s ∈ done, s.op.text ∈ (level :: tighter).flatten)
    (hsteps : ∀ s ∈ steps, s.op.text ∈ (level :: tighter).flatten)
    (hhead : ∀ s ∈ steps.head?, s.op.text ∈ level) :
    chain level operand budget (group first done) (ofList (steps.flatMap Step.tokens ++ after)) =
      if ∀ s ∈ steps, s.operand.signs.length < depth then
        .ok (group first (done ++ steps), ofList after)
      else .error (.fault .tooDeep) := by
  induction budget generalizing done steps with
  | zero =>
    obtain rfl := List.length_eq_zero_iff.1 (Nat.le_zero.1 hbudget)
    simp [chain]
    rfl
  | succ n ih =>
    change (sees level >>= fun isSeen => if isSeen = true then _ else _) _ = _
    rw [ite_sees]
    cases steps with
    | nil =>
      have hlevel : (ofList after).sees level = false := sees_eq_false_of_subset hafter (by simp)
      simp [hlevel]
      rfl
    | cons s more =>
      obtain ⟨block, rest, rfl, hblock, hrest⟩ := exists_block fun s' hs' =>
        hsteps s' (List.mem_cons_of_mem s hs')
      have hs : s.op.text ∈ level := hhead s rfl
      have hkind := s.isOperator.1
      have htokens : (s :: (block ++ rest)).flatMap Step.tokens ++ after =
          s.op :: (sequence s.operand block ++ (rest.flatMap Step.tokens ++ after)) := by
        simp [Step.tokens, sequence]
      have hadvance := advance_ofList (t := s.op) (by simp [hkind])
        (opens_sequence s.operand block (rest.flatMap Step.tokens ++ after))
      have hright := hoperand s.operand block _ hblock (opens_steps rest hopens)
        (unseen_steps hranked hafter hrest)
      have hdone' : ∀ d ∈ done ++ s :: block, d.op.text ∈ (level :: tighter).flatten := by
        simp only [List.flatten_cons, List.mem_append, List.mem_cons] at hdone ⊢
        rintro d (hd | rfl | hd)
        · exact hdone d hd
        · exact .inl hs
        · exact .inr (hblock d hd)
      have hmore := ih (done ++ s :: block) rest (by simp at hbudget; omega) hdone'
        (fun r hr => hsteps r (by simp [hr])) hrest
      rw [htokens, if_pos (by simpa [sees_ofList, hkind] using hs), bind_eq_of_ok hadvance,
        bind_eq_of_ite hright, ← group_level hranked first hs hdone hblock, hmore, ← ite_and]
      have hfits : (Fits depth s.operand block ∧ ∀ r ∈ rest, r.operand.signs.length < depth) ↔
          ∀ r ∈ s :: (block ++ rest), r.operand.signs.length < depth := by
        rw [List.forall_mem_cons, List.forall_mem_append, and_assoc]
      simp only [hfits, List.append_assoc, List.cons_append]

end Chain

theorem readsSequences_operators {levels : List (List String)} (hranked : IsRanked levels)
    (depth : Nat) :
    ReadsSequences levels (depth - levels.length) ((ofDepth depth).operators levels) := by
  induction levels generalizing depth with
  | nil =>
    intro first steps after hsteps hopens hafter
    have hnil : steps = [] :=
      List.eq_nil_iff_forall_not_mem.2 fun s hs => by simpa using hsteps s hs
    subst hnil
    have hread := operators_operand first hopens (by simpa using hafter) depth
    simpa [sequence, group_nil, Fits] using hread
  | cons level tighter ih =>
    intro first steps after hsteps hopens hafter
    cases depth with
    | zero =>
      simp [Fits]
      rfl
    | succ depth =>
      obtain ⟨block, rest, rfl, hblock, hrest⟩ := exists_block hsteps
      have hoperand := ih hranked.2 depth
      have hfirst := hoperand first block _ hblock (opens_steps rest hopens)
        (unseen_steps hranked hafter hrest)
      have hbudget : rest.length ≤ (ofList (rest.flatMap Step.tokens ++ after)).budget := by
        have hlength : rest.length ≤ (rest.flatMap Step.tokens).length :=
          length_le_flatMap fun s _ => List.cons_ne_nil _ _
        have hrest : (ofList (rest.flatMap Step.tokens ++ after)).budget + 1 =
            (rest.flatMap Step.tokens ++ after).length + 2 := by
          obtain ⟨t, ts, heq, -⟩ := opens_steps rest hopens
          rw [heq]
          rfl
        rw [List.length_append] at hrest
        omega
      have hlevel := chain_eq_group hranked hoperand hopens hafter first _ block rest hbudget
        (fun s hs => hsteps s (List.mem_append_left rest hs))
        (fun s hs => hsteps s (List.mem_append_right block hs)) hrest
      have htokens : sequence first (block ++ rest) ++ after =
          sequence first block ++ (rest.flatMap Step.tokens ++ after) := by simp [sequence]
      have hfits : (Fits (depth - tighter.length) first block ∧
          ∀ s ∈ rest, s.operand.signs.length < depth - tighter.length) ↔
          Fits (depth - tighter.length) first (block ++ rest) := by
        rw [Fits, Fits, List.forall_mem_append, and_assoc]
      change ((ofDepth depth).operators tighter >>= _) _ = _
      rw [htokens, bind_eq_of_ite hfirst, List.length_cons, Nat.add_sub_add_right]
      change (if _ then chain level _ _ _ _ else _) = _
      rw [hlevel, ← ite_and]
      simp only [hfits]

/-! ## Expressions -/

def semicolon (p : Position) : Token :=
  ⟨.punct, ";", p, none⟩

/-- Every number and every name of a source text is an operand. -/
theorem exists_isAtom {source : String} {t : Token} (ht : t ∈ Token.scan source)
    (hkind : t.kind = .number ∨ t.kind = .ident) : ∃ leaf, IsAtom t leaf := by
  rcases hkind with hkind | hkind
  · have hread := Token.isReadable_of_mem_scan source t ht hkind
    obtain ⟨x, hx⟩ := Option.ne_none_iff_exists'.1 hread
    exact ⟨_, .number hkind hx⟩
  · obtain ⟨text, after, htext, hlexeme⟩ :=
      (Token.isCut_scan source).exists_lexeme ht (by simp [hkind])
    obtain ⟨c, cs, rfl, hstart, -⟩ := (hkind ▸ hlexeme).word_of_ident
    -- a name starts with a character that starts words, and no operator does
    have hnone : ∀ op ∈ ["!", "-"], op.toList.head?.any Text.isWordStart = false := by decide
    refine ⟨_, .name hkind fun hmem => ?_⟩
    simpa [htext, hstart] using hnone t.text hmem

/-- A sequence before a semicolon is read as the tree that the rule gives it, and no token more
is taken, if the depth is enough for the unary operators of each operand. -/
theorem expression_eq_group :
    (∀ source, ∀ t ∈ Token.scan source, t.kind = .number ∨ t.kind = .ident →
      ∃ leaf, IsAtom t leaf) ∧
    ∀ (first : Operand) (steps : List Step) (p : Position) (rest : List Token) (depth : Nat),
      (Cursor.start (sequence first steps ++ semicolon p :: rest) >>=
          (Grammar.ofDepth depth).expression) =
        if ∀ x ∈ first :: steps.map Step.operand, x.signs.length + 8 ≤ depth then
          .ok (group first steps, ⟨semicolon p, rest⟩)
        else .error (.fault .tooDeep) := by
  constructor
  · exact fun source t ht hkind => exists_isAtom ht hkind
  · intro first steps p rest depth
    have hsteps : ∀ s ∈ steps, s.op.text ∈ priorities.flatten := fun s _ => s.isOperator.2
    have hopens : Opens (semicolon p :: rest) := opens_cons (by simp [semicolon]) rest
    rw [start_eq_ofList (opens_sequence first steps _)]
    change (Grammar.ofDepth depth).expression (ofList _) = _
    cases depth with
    | zero =>
      rw [if_neg fun h => absurd (h first List.mem_cons_self) (by simp)]
      rfl
    | succ depth =>
      have hread := readsSequences_operators isRanked_priorities depth first steps
        (semicolon p :: rest) hsteps hopens rfl
      have hfits : Fits (depth - priorities.length) first steps ↔
          ∀ x ∈ first :: steps.map Step.operand, x.signs.length + 8 ≤ depth + 1 := by
        have hroom (x : Operand) :
            x.signs.length < depth - priorities.length ↔ x.signs.length + 8 ≤ depth + 1 := by
          rw [show priorities.length = 6 from rfl]
          omega
        simp only [Fits, hroom, List.forall_mem_cons, List.forall_mem_map]
      change ((ofDepth depth).operators priorities >>= _) _ = _
      rw [bind_eq_of_ite hread]
      exact if_congr hfits rfl rfl

/-- A text whose tokens are such a sequence: of its two loosest operators the last one is the
root of the tree. -/
example :
    let name (text : String) (column : Nat) : Token :=
      ⟨.ident, text, ⟨1, column, column - 1⟩, none⟩
    let op (text : String) (column : Nat) : Token := ⟨.op, text, ⟨1, column, column - 1⟩, none⟩
    let leaf (t : Token) : Node := .identifier t.name t.mark
    let tree (t : Token) (left right : Node) : Node := .binary t.name left right t.mark
    let a := name "a" 1
    let minus := op "-" 3
    let b := name "b" 5
    let times := op "*" 7
    let sign := op "-" 9
    let c := name "c" 10
    let last := op "-" 12
    let d := name "d" 14
    let first : Operand := ⟨[], a, leaf a, nofun, .name rfl (by decide)⟩
    let steps : List Step := [
      ⟨minus, ⟨[], b, leaf b, nofun, .name rfl (by decide)⟩, by decide⟩,
      ⟨times, ⟨[sign], c, leaf c, by simp [IsSign, sign, op], .name rfl (by decide)⟩, by decide⟩,
      ⟨last, ⟨[], d, leaf d, nofun, .name rfl (by decide)⟩, by decide⟩]
    Token.scan "a - b * -c - d" = sequence first steps ++ [.eofAt ⟨1, 15, 14⟩] ∧
    group first steps = tree last
      (tree minus (leaf a) (tree times (leaf b) (.unary sign.name (leaf c) sign.mark)))
      (leaf d) := by
  refine ⟨by decide +kernel, ?_⟩
  cbv

end Orus.Syntax
