import Orus.Proofs.Lockstep

/-! # Ranges that are never built

A loop over a range makes up its numbers as it goes, while a range anywhere else becomes an
array, with one iteration counted for each of its elements. Both loops give the same items to
the same rounds. The one over the array starts with the iterations of the whole range on its
counter and keeps this lead, so only the iteration budget can tell the two apart.
-/

namespace Orus.Run

/-! ## The numbers of a range -/

def integersFrom : (count : Nat) → (first : Int) → List Int
  | 0, _ => []
  | n + 1, first => first :: integersFrom n (first + 1)

theorem length_integersFrom (count : Nat) (first : Int) :
    (integersFrom count first).length = count := by
  induction count generalizing first with
  | zero => rfl
  | succ n ih => exact congrArg (· + 1) (ih (first + 1))

theorem mem_integersFrom {count : Nat} {first i : Int} :
    i ∈ integersFrom count first ↔ first ≤ i ∧ i < first + count := by
  induction count generalizing first with
  | zero =>
    simp only [integersFrom, List.not_mem_nil, false_iff]
    omega
  | succ n ih =>
    rw [integersFrom, List.mem_cons, ih]
    omega

theorem pairwise_integersFrom (count : Nat) (first : Int) :
    (integersFrom count first).Pairwise (· < ·) := by
  induction count generalizing first with
  | zero => exact .nil
  | succ n ih =>
    refine .cons (fun i hi => ?_) (ih (first + 1))
    have hrange := mem_integersFrom.1 hi
    omega

def integerValue (i : Int) : Value :=
  .number (Number.ofInt i)

theorem forRange_eq_forItems (round : Value → Eval Bool) (count : Nat) (first : Int) :
    forRange round count first = forItems round ((integersFrom count first).map integerValue) := by
  induction count generalizing first with
  | zero => rfl
  | succ n ih => simp only [forRange, integersFrom, List.map_cons, forItems, ih, integerValue]

/-! ## States with a lead -/

/-- States that differ in nothing but the iterations, of which the first has more, and in the
checks that were made. -/
inductive State.Ahead (lead : Nat) : State → State → Prop where
  | intro (s : State) (checks : Checks) :
    State.Ahead lead { s with iterations := s.iterations + lead, checks } s

namespace State.Ahead

variable {lead : Nat} {s s' : State}

theorem iterations (h : s.Ahead lead s') : s.iterations = s'.iterations + lead := by
  cases h
  rfl

theorem output (h : s.Ahead lead s') : s.output = s'.output := by
  cases h
  rfl

theorem iterated (h : s.Ahead lead s') : s.iterated.Ahead lead s'.iterated := by
  cases h with
  | intro _ checks =>
    have hcomm : s'.iterations + lead + 1 = s'.iterations + 1 + lead := Nat.add_right_comm _ _ _
    simp only [State.iterated, hcomm]
    exact .intro s'.iterated _

theorem logged (h : s.Ahead lead s') (cfg : Config) (line : String) :
    (s.logged cfg line).Ahead lead (s'.logged cfg line) := by
  cases h with
  | intro _ checks =>
    unfold State.logged
    split
    · exact .intro { s' with log := s'.log.push line } checks
    · exact .intro s' checks

theorem rel_scopes (h : s.Ahead lead s') (scopes : Option Chain) :
    Option.Rel (fun c d => State.Ahead lead { s with scopes := c } { s' with scopes := d })
      scopes scopes := by
  cases scopes with
  | none => exact .none
  | some c =>
    cases h with
    | intro _ checks => exact .some (.intro { s' with scopes := c } checks)

/-- An iteration that only the first run counts adds to its lead. -/
theorem of_iterated (h : s.Ahead lead s'.iterated) : s.Ahead (lead + 1) s' := by
  cases h with
  | intro _ checks =>
    have hlead : s'.iterations + 1 + lead = s'.iterations + (lead + 1) := by omega
    simp only [State.iterated, hlead]
    exact .intro s' checks

end State.Ahead

theorem isSimulation_ahead (cfg : Config) (hcancel : cfg.cancelAfter = none) (lead : Nat) :
    IsSimulation cfg (fun _ => cfg.logLevel) (· = .iterationBudget) (State.Ahead lead) where
  steps := fun ⟨_, _⟩ => rfl
  iterations_le h := h.iterations ▸ Nat.le_add_right _ _
  callDepth := fun ⟨_, _⟩ => rfl
  isCancelled_eq _ := by simp only [isCancelled, hcancel, Option.any_none]
  lines := fun ⟨_, _⟩ => rfl
  lookup? _ := fun ⟨_, _⟩ => rfl
  declare? _ _ := fun ⟨s, checks⟩ => (State.Ahead.intro s checks).rel_scopes _
  assign? _ _ := fun ⟨s, checks⟩ => (State.Ahead.intro s checks).rel_scopes _
  checked := fun ⟨s, _⟩ => .intro s.checked _
  stepped mark := fun ⟨s, _⟩ => .intro (s.stepped mark) _
  iterated := .iterated
  printed line := fun ⟨s, _⟩ => .intro { s with output := s.output.push line } _
  warned note := fun ⟨s, _⟩ => .intro { s with diagnostics := s.diagnostics.push note } _
  logged line h := h.logged _ line
  extraLog := .inl rfl
  extraIterations := .inr rfl
  pushed := fun ⟨s, _⟩ => .intro s.scoped _
  popped := fun ⟨s, _⟩ => .intro s.unscoped _
  entered := fun ⟨s, _⟩ => .intro s.entered _
  left := fun ⟨s, _⟩ ⟨t, _⟩ => .intro (t.left s) _

/-! ## The range as an array -/

/-- Without cancellation a range is built, element by element, or the iteration budget is
exceeded on the way. -/
theorem rangeItems_eq (cfg : Config) (hcancel : cfg.cancelAfter = none) (count : Nat) (first : Int)
    (done : List Value) (s : State) :
    causeOf (Evaluator.rangeItems cfg count first done s) = some .iterationBudget ∨
      ∃ t, t.Ahead count s ∧ Evaluator.rangeItems cfg count first done s =
        .ok (done.reverse ++ (integersFrom count first).map integerValue) t := by
  induction count generalizing first done s with
  | zero =>
    refine .inr ⟨s, .intro s s.checks, ?_⟩
    rw [integersFrom, List.map_nil, List.append_nil]
    rfl
  | succ n ih =>
    have hgoesOn : isCancelled cfg s = false := by
      simp only [isCancelled, hcancel, Option.any_none]
    have htick := loopTick_eq cfg s
    rw [hgoesOn, if_neg Bool.false_ne_true] at htick
    split at htick
    · refine .inl (causeOf_bind ?_)
      rw [htick]
      rfl
    · rw [Evaluator.rangeItems, bind_of_ok htick]
      refine (ih (first + 1) (integerValue first :: done) s.iterated).imp_right ?_
      rintro ⟨t, ht, hitems⟩
      refine ⟨t, ht.of_iterated, hitems.trans ?_⟩
      rw [List.reverse_cons, List.append_assoc]
      rfl

/-! ## The two loops -/

section Loops

variable (cfg : Config) (deeper : Evaluator) (name : Name) (first last body : Node)
  (rangeMark mark : Option Mark)

/-- What comes before the first round of a loop over a range: the step of the loop, and the
bounds of the range. -/
def loopBounds : Eval (Int × Int) := do
  tick cfg mark
  let start ← Evaluator.rangeBound deeper rangeMark first
  let stop ← Evaluator.rangeBound deeper rangeMark last
  return (start, stop)

/-- A loop over a range that becomes an array first: the step of the loop, and then the loop
over the array that the range evaluates to. The range is evaluated at the level of the loop,
which is where a loop over a range evaluates the bounds. -/
def execForBuilt : Eval Unit := do
  tick cfg mark
  Evaluator.execForItems cfg { deeper with eval := Evaluator.evalRule cfg deeper } name
    (.range first last rangeMark) body mark

theorem execRule_forIn_range :
    Evaluator.execRule cfg deeper (.forIn name (.range first last rangeMark) body mark) =
      loopBounds cfg deeper first last rangeMark mark >>= fun bounds =>
        forRange (Evaluator.forRound cfg deeper name body mark)
          (bounds.2 - bounds.1 + 1).toNat bounds.1 := by
  change (tick cfg mark >>= fun _ => Evaluator.rangeOf deeper first last rangeMark >>= _) = _
  simp only [loopBounds, Evaluator.rangeOf, bind_assoc, pure_bind]

theorem execForBuilt_eq :
    execForBuilt cfg deeper name first last body rangeMark mark =
      loopBounds cfg deeper first last rangeMark mark >>= fun bounds =>
        Evaluator.rangeItems cfg (bounds.2 - bounds.1 + 1).toNat bounds.1 [] >>=
          forItems (Evaluator.forRound cfg deeper name body mark) := by
  change (tick cfg mark >>= fun _ => Evaluator.evalRule cfg deeper (.range first last rangeMark) >>=
    _) = _
  simp only [loopBounds, Evaluator.evalRule, Evaluator.rangeOf, bind_assoc, pure_bind]
  rfl

end Loops

/-- The items that get a round when a loop goes over some, from a state on. -/
def visited (round : Value → Eval Bool) : List Value → State → List Value
  | [], _ => []
  | item :: rest, s =>
    item :: match round item s with
      | .ok true t => visited round rest t
      | _ => []

/-- Loops in step give a round to the same items. -/
theorem visited_eq {R : State → State → Prop} {excused : Cause → Prop}
    {round : Value → Eval Bool} (hround : ∀ v, Lockstep R excused fun _ => round v)
    {items : List Value} {s s' : State} (hs : R s s')
    (hcause : ∀ cause, causeOf (forItems round items s) = some cause → ¬ excused cause) :
    visited round items s = visited round items s' := by
  induction items generalizing s s' with
  | nil => rfl
  | cons item rest ih =>
    rcases hround item s s' hs with ⟨cause, hstopped, hexcused⟩ | hstep
    · exact absurd hexcused (hcause cause (causeOf_bind hstopped))
    · rw [visited, visited]
      dsimp only at hstep
      generalize hr : round item s = r, round item s' = r' at hstep
      cases hstep with
      | error ht => rfl
      | @ok goOn t t' ht =>
        cases goOn with
        | false => rfl
        | true =>
          rw [forItems, bind_of_ok hr] at hcause
          exact congrArg _ (ih ht hcause)

/-- A round of a loop keeps the lead of one run over another. -/
theorem lockstep_forRound (cfg : Config) (hcancel : cfg.cancelAfter = none) (n lead : Nat)
    (name : Name) (body : Node) (mark : Option Mark) (item : Value) :
    Lockstep (State.Ahead lead) (· = .iterationBudget) fun _ =>
      Evaluator.forRound cfg (.ofDepth cfg n) name body mark item := by
  have h := isSimulation_ahead cfg hcancel lead
  exact (h.compositional n).blockwise.forRound (fun _ => depth_ofDepth cfg n) (h.ofDepth n).exec
    name body mark item

/-- Without cancellation a loop over a range and the loop over the array that the range
evaluates to fail alike before their first round, or they give a round to the same of the
numbers from the first bound to the last one and end alike, in states that differ in the
checks and in the iterations only: the array costs one for each number of the range. This
holds unless the iteration budget stops the loop over the array. -/
theorem forIn_range_agrees_with_array (cfg : Config) (n : Nat) (name : Name)
    (first last body : Node) (rangeMark mark : Option Mark) (s : State)
    (hcancel : cfg.cancelAfter = none)
    (hbudget : causeOf (execForBuilt cfg (.ofDepth cfg n) name first last body rangeMark mark s) ≠
      some .iterationBudget) :
    let deeper := Evaluator.ofDepth cfg n
    let round := Evaluator.forRound cfg deeper name body mark
    let bounds := loopBounds cfg deeper first last rangeMark mark s
    let lazily := (Evaluator.ofDepth cfg (n + 1)).exec
      (.forIn name (.range first last rangeMark) body mark) s
    let built := execForBuilt cfg deeper name first last body rangeMark mark s
    (∃ e t, bounds = .error e t ∧ lazily = .error e t ∧ built = .error e t) ∨
    ∃ start stop t u, ∃ numbers : List Int, bounds = .ok (start, stop) t ∧
      ((numbers.length : Int) = max 0 (stop - start + 1) ∧ numbers.Pairwise (· < ·) ∧
        ∀ i, i ∈ numbers ↔ start ≤ i ∧ i ≤ stop) ∧
      (lazily = forItems round (numbers.map integerValue) t ∧
        built = forItems round (numbers.map integerValue) u ∧
        visited round (numbers.map integerValue) u = visited round (numbers.map integerValue) t) ∧
      InStep (State.Ahead numbers.length) built lazily := by
  intro deeper round bounds lazily built
  have hlazily : lazily = (loopBounds cfg deeper first last rangeMark mark >>= _) s :=
    congrFun (execRule_forIn_range cfg deeper name first last body rangeMark mark) s
  have hbuilt : built = (loopBounds cfg deeper first last rangeMark mark >>= _) s :=
    congrFun (execForBuilt_eq cfg deeper name first last body rangeMark mark) s
  cases hbounds : loopBounds cfg deeper first last rangeMark mark s with
  | error e t =>
    rw [bind_of_error hbounds] at hlazily hbuilt
    exact .inl ⟨e, t, hbounds, hlazily, hbuilt⟩
  | ok pair t =>
    obtain ⟨start, stop⟩ := pair
    rw [bind_of_ok hbounds] at hlazily hbuilt
    rw [forRange_eq_forItems] at hlazily
    rcases rangeItems_eq cfg hcancel (stop - start + 1).toNat start [] t with
      hcause | ⟨u, hu, hitems⟩
    · exact absurd ((congrArg causeOf hbuilt).trans (causeOf_bind hcause)) hbudget
    rw [bind_of_ok hitems, List.reverse_nil, List.nil_append] at hbuilt
    change causeOf built ≠ _ at hbudget
    rw [hbuilt] at hbudget
    have hround := lockstep_forRound cfg hcancel n (stop - start + 1).toNat name body mark
    have hloops := (isSimulation_ahead cfg hcancel _).compositional n |>.forItems hround
      ((integersFrom (stop - start + 1).toNat start).map integerValue) u t hu
    refine .inr ⟨start, stop, t, u, integersFrom (stop - start + 1).toNat start, hbounds,
      ⟨?_, pairwise_integersFrom _ _, fun i => ?_⟩, ⟨hlazily, hbuilt, ?_⟩, ?_⟩
    · rw [length_integersFrom]
      omega
    · rw [mem_integersFrom]
      omega
    · refine visited_eq hround hu fun cause hcause => ?_
      rintro rfl
      exact hbudget hcause
    · rw [length_integersFrom, hlazily, hbuilt]
      refine hloops.resolve_left ?_
      rintro ⟨_, hcause, rfl⟩
      exact hbudget hcause

/-- A body that prints the loop variable and ends the loop at two. -/
def untilTwo : Node :=
  let i := .identifier (.str "i") none
  .block [.printLine i none,
    .ifElse (.binary (.str "==") i (.number (Number.ofInt 2) none) none)
      (.block [.breakLoop none] none) (.raw .null) none] none

theorem forIn_range_agrees_with_array_untilTwo :
    let first := Node.number (Number.ofInt 1) none
    let last := Node.number (Number.ofInt 3) none
    let built := execForBuilt {} (.ofDepth {} 4) (.str "i") first last untilTwo none none {}
    let lazily := (Evaluator.ofDepth {} 5).exec
      (.forIn (.str "i") (.range first last none) untilTwo none) {}
    causeOf built ≠ some .iterationBudget ∧
    (endState built).output = #["1", "2"] ∧ (endState built).iterations = 5 ∧
    (endState lazily).output = #["1", "2"] ∧ (endState lazily).iterations = 2 := by
  intro first last built lazily
  have hbudget : causeOf built ≠ some .iterationBudget := by decide +kernel
  have houtput : (endState built).output = #["1", "2"] := by decide +kernel
  have hiterations : (endState built).iterations = 5 := by decide +kernel
  refine ⟨hbudget, houtput, hiterations, ?_⟩
  have hrun : (loopBounds {} (.ofDepth {} 4) first last none none).run' {} = some (1, 3) := by
    decide +kernel
  change (match loopBounds {} (.ofDepth {} 4) first last none none {} with
    | .ok bounds _ => some bounds
    | .error .. => none) = _ at hrun
  rcases forIn_range_agrees_with_array {} 4 (.str "i") first last untilTwo none none {} rfl hbudget
    with ⟨e, t, hbounds, -⟩ | ⟨start, stop, t, u, numbers, hbounds, ⟨hlength, -⟩, -, hstep⟩
  · rw [hbounds] at hrun
    cases hrun
  · rw [hbounds] at hrun
    cases hrun
    have hend : (endState built).Ahead numbers.length (endState lazily) := hstep.endState
    have hahead := hend.iterations
    exact ⟨hend.output ▸ houtput, by omega⟩

end Orus.Run
