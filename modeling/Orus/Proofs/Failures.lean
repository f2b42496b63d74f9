import Orus.Proofs.Effects

/-! # How computations on values fail

Operators and builtins fail because of the types of their operands, a zero divisor or
too much nesting. Apart from a wrong number of arguments, there are two faults they
can end in: the remainder of an infinite dividend, and a text that has the shape of a
Number but is not read as one.
-/

namespace Orus.Run

/-- The failures of operators and of builtins with the right number of arguments.
Nesting is too deep only if the values are. -/
inductive ValueFailure (isDeep : Prop) : Failure → Prop where
  | mismatch {cause : Cause} : cause.kind = .typeMismatch →
      ValueFailure isDeep (.error ⟨cause, none⟩)
  | division {cause : Cause} : cause.kind = .divisionByZero →
      ValueFailure isDeep (.error ⟨cause, none⟩)
  | tooDeep : isDeep → ValueFailure isDeep (.error ⟨.nestingTooDeep, none⟩)
  | infiniteDividend : ValueFailure isDeep (.fault .infiniteDividend)
  | numberText {text : String} : Number.isNumberText text = true →
      Number.readNumber? text = none → ValueFailure isDeep (.fault (.numberText text))

variable {α : Type} {isDeep : Prop}

instance decidableEqExcept {ε : Type} [DecidableEq ε] [DecidableEq α] : DecidableEq (Except ε α)
  | .ok a, .ok b => decidable_of_iff (a = b) ⟨congrArg _, Except.ok.inj⟩
  | .error e, .error f => decidable_of_iff (e = f) ⟨congrArg _, Except.error.inj⟩
  | .ok _, .error _ => isFalse nofun
  | .error _, .ok _ => isFalse nofun

/-- Computations that fail only in these ways. -/
def FailsByValue (isDeep : Prop) (r : Except Failure α) : Prop :=
  ∀ f, r = .error f → ValueFailure isDeep f

theorem FailsByValue.mono {isDeeper : Prop} {r : Except Failure α} (hr : FailsByValue isDeep r)
    (h : isDeep → isDeeper) : FailsByValue isDeeper r := by
  intro f hf
  cases hr f hf with
  | mismatch hc => exact .mismatch hc
  | division hc => exact .division hc
  | tooDeep hd => exact .tooDeep (h hd)
  | infiniteDividend => exact .infiniteDividend
  | numberText hs hn => exact .numberText hs hn

theorem failsByValue_ok (a : α) : FailsByValue isDeep (.ok a) :=
  fun _ h => nomatch h

theorem failsByValue_reject {cause : Cause} (h : ValueFailure isDeep (.error ⟨cause, none⟩)) :
    FailsByValue isDeep (Builtin.reject cause : Except Failure α) := by
  rintro f hf
  cases hf
  exact h

theorem failsByValue_bind {β : Type} {r : Except Failure α} {k : α → Except Failure β}
    (hr : FailsByValue isDeep r) (hk : ∀ a, r = .ok a → FailsByValue isDeep (k a)) :
    FailsByValue isDeep (r >>= k) := by
  cases r with
  | ok a => exact hk a rfl
  | error f =>
    rintro g hg
    cases hg
    exact hr f rfl

theorem shown_cases (depth : Nat) (v : Value) : (∃ text, Builtin.shown depth v = .ok text) ∨
    Builtin.shown depth v = .error (.error ⟨.nestingTooDeep, none⟩) := by
  unfold Builtin.shown
  cases v.displayWithin depth with
  | some text => exact .inl ⟨text, rfl⟩
  | none => exact .inr rfl

theorem failsByValue_shown {depth : Nat} {v : Value} (h : depth ≤ v.height → isDeep) :
    FailsByValue isDeep (Builtin.shown depth v) := by
  unfold Builtin.shown Value.displayWithin
  split
  · exact failsByValue_ok _
  next hnone =>
    refine failsByValue_reject (.tooDeep (h ?_))
    split at hnone
    · cases hnone
    · omega

/-! ## Equality within a depth -/

theorem height_le_heightOfItems {v : Value} {items : List Value} (h : v ∈ items) :
    v.height ≤ Value.heightOfItems items := by
  induction h with
  | head rest => exact Nat.le_max_left _ _
  | tail _ _ ih => exact Nat.le_trans ih (Nat.le_max_right _ _)

theorem equalItems_eq_false {as bs : List Value} (h : as.length ≠ bs.length) :
    Value.equalItems as bs = false := by
  induction as generalizing bs with
  | nil =>
    cases bs with
    | nil => exact absurd rfl h
    | cons => rfl
  | cons a as ih =>
    cases bs with
    | nil => rfl
    | cons b bs =>
      rw [Value.equalItems, ih fun hlen => h (congrArg (· + 1) hlen), Bool.and_false]

theorem allPairs_eq_some {test : Value → Value → Option Bool} {as bs : List Value} {verdict : Bool}
    (hlen : as.length = bs.length)
    (htest : ∀ a b verdict, test a b = some verdict → verdict = a.equal b)
    (h : Value.allPairs test as bs = some verdict) : verdict = Value.equalItems as bs := by
  induction as generalizing bs with
  | nil =>
    cases bs with
    | nil => exact (Option.some.inj h).symm
    | cons => cases hlen
  | cons a as ih =>
    cases bs with
    | nil => cases hlen
    | cons b bs =>
      rw [Value.allPairs] at h
      rw [Value.equalItems]
      cases hab : test a b with
      | none => simp only [hab, reduceCtorEq] at h
      | some found =>
        rw [hab] at h
        rw [← htest a b found hab]
        cases found with
        | false => exact (Option.some.inj h).symm
        | true => exact ih (Nat.succ.inj hlen) h

theorem equalWithin_eq_some {depth : Nat} {a b : Value} {verdict : Bool}
    (h : a.equalWithin depth b = some verdict) : verdict = a.equal b := by
  induction depth generalizing a b verdict with
  | zero => cases h
  | succ d ih =>
    unfold Value.equalWithin at h
    split at h
    · cases h
    next d' as bs hd =>
      cases hd
      split at h
      next hlen => exact allPairs_eq_some hlen (fun _ _ _ => ih) h
      next hlen => exact (Option.some.inj h).symm.trans (equalItems_eq_false hlen).symm
    · exact (Option.some.inj h).symm

theorem allPairs_ne_none {test : Value → Value → Option Bool} {as : List Value}
    (htest : ∀ a ∈ as, ∀ b, test a b ≠ none) (bs : List Value) :
    Value.allPairs test as bs ≠ none := by
  induction as generalizing bs with
  | nil => exact nofun
  | cons a as ih =>
    cases bs with
    | nil => exact nofun
    | cons b bs =>
      rw [Value.allPairs]
      split
      · exact ih (fun a ha => htest a (List.mem_cons_of_mem _ ha)) bs
      · exact htest a List.mem_cons_self b

theorem equalWithin_ne_none {depth : Nat} {a b : Value} (h : a.height < depth) :
    a.equalWithin depth b ≠ none := by
  induction depth generalizing a b with
  | zero => exact absurd h (Nat.not_lt_zero _)
  | succ d ih =>
    unfold Value.equalWithin
    split
    · cases ‹d + 1 = 0›
    next d' as bs hd =>
      cases hd
      split
      · refine allPairs_ne_none (fun a ha b => ih ?_) bs
        have := height_le_heightOfItems ha
        rw [Value.height] at h
        omega
      · exact Option.some_ne_none _
    · exact Option.some_ne_none _

/-! ## Operators -/

theorem failsByValue_quotient (x y : Float) : FailsByValue isDeep (quotient x y) := by
  unfold quotient
  split
  · exact failsByValue_reject (.division rfl)
  · exact failsByValue_ok _

theorem failsByValue_modulo (x y : Float) : FailsByValue isDeep (modulo x y) := by
  unfold modulo
  split
  · exact failsByValue_reject (.division rfl)
  · split
    · exact failsByValue_ok _
    · rintro f hf
      cases hf
      exact .infiniteDividend

theorem failsByValue_plus (a b : Value) : FailsByValue isDeep (plus a b) := by
  unfold plus
  split
  case h_5 => exact failsByValue_reject (.mismatch rfl)
  all_goals exact failsByValue_ok _

theorem failsByValue_arithmetic (op : String) {f : Float → Float → Except Failure Float}
    (hf : ∀ x y, FailsByValue isDeep (f x y)) (a b : Value) :
    FailsByValue isDeep (arithmetic op f a b) := by
  unfold arithmetic
  split
  · rename_i x y
    exact failsByValue_bind (hf x y) fun r _ => failsByValue_ok (Value.number r)
  · exact failsByValue_reject (.mismatch rfl)

theorem failsByValue_equality (depth : Nat) (wanted : Bool) (a b : Value) :
    FailsByValue (depth ≤ a.height) (equality depth wanted a b) := by
  unfold equality
  split
  · exact failsByValue_ok _
  next hnone =>
    refine failsByValue_reject (.tooDeep ?_)
    exact Nat.le_of_not_lt fun hlt => equalWithin_ne_none hlt hnone

theorem failsByValue_comparison (numbers : Float → Float → Bool) (texts : String → String → Bool)
    (a b : Value) : FailsByValue isDeep (comparison numbers texts a b) := by
  unfold comparison
  split
  case h_3 => exact failsByValue_reject (.mismatch rfl)
  all_goals exact failsByValue_ok _

theorem failsByValue_applyOperator (depth : Nat) (op : Name) (a b : Value) :
    FailsByValue (depth ≤ a.height) (applyOperator depth op a b) := by
  unfold applyOperator
  split
  · exact failsByValue_plus a b
  · exact failsByValue_arithmetic _ (fun _ _ => failsByValue_ok _) a b
  · exact failsByValue_arithmetic _ (fun _ _ => failsByValue_ok _) a b
  · exact failsByValue_arithmetic _ failsByValue_quotient a b
  · exact failsByValue_arithmetic _ failsByValue_modulo a b
  · exact failsByValue_equality depth true a b
  · exact failsByValue_equality depth false a b
  · exact failsByValue_comparison _ _ a b
  · exact failsByValue_comparison _ _ a b
  · exact failsByValue_comparison _ _ a b
  · exact failsByValue_comparison _ _ a b
  · exact failsByValue_reject (.mismatch rfl)

/-! ## Builtins -/

theorem failsByValue_allNumbers (b : Builtin) (args : List Value) :
    FailsByValue isDeep (Builtin.allNumbers b args) := by
  induction args with
  | nil => exact failsByValue_ok _
  | cons v rest ih =>
    cases v with
    | number x => exact failsByValue_bind ih fun xs _ => failsByValue_ok (x :: xs)
    | _ => exact failsByValue_reject (.mismatch rfl)

theorem failsByValue_numbers (b : Builtin) (args : List Value) :
    FailsByValue isDeep (Builtin.numbers b args) := by
  unfold Builtin.numbers
  split <;> exact failsByValue_allNumbers b _

theorem failsByValue_toFloat {depth : Nat} {v : Value} (h : depth ≤ v.height → isDeep) :
    FailsByValue isDeep (Builtin.toFloat depth v) := by
  cases v with
  | number x => exact failsByValue_ok x
  | text s =>
    change FailsByValue isDeep (if Number.isNumberText s = true then _ else _)
    split
    next hs =>
      cases hr : Number.readNumber? s with
      | some x => exact failsByValue_ok x
      | none =>
        rintro f hf
        cases hf
        exact .numberText hs hr
    next => exact failsByValue_reject (.mismatch rfl)
  | _ =>
    exact failsByValue_bind (failsByValue_shown h) fun _ _ => failsByValue_reject (.mismatch rfl)

theorem failsByValue_toWhole (x : Float) : FailsByValue isDeep (Builtin.toWhole x) := by
  unfold Builtin.toWhole
  split
  · exact failsByValue_ok _
  · exact failsByValue_reject (.mismatch rfl)

theorem mem_of_first_eq_ok {args : List Value} {v : Value} (h : Builtin.first args = .ok v) :
    v ∈ args := by
  cases args with
  | nil => cases h
  | cons w rest =>
    cases h
    exact List.mem_cons_self

theorem failsByValue_apply {b : Builtin} (context : Builtin.Context) {args : List Value}
    (hargs : ∀ n, b.arity = some n → args.length = n) :
    FailsByValue (∃ v ∈ args, context.depth ≤ v.height) (b.apply context args) := by
  have hfirst : b.arity = some 1 →
      FailsByValue (∃ v ∈ args, context.depth ≤ v.height) (Builtin.first args) := by
    intro h
    obtain ⟨v, rfl⟩ := List.length_eq_one_iff.1 (hargs 1 h)
    exact failsByValue_ok v
  have hdeep : ∀ v, Builtin.first args = .ok v → context.depth ≤ v.height →
      ∃ v ∈ args, context.depth ≤ v.height :=
    fun v hv h => ⟨v, mem_of_first_eq_ok hv, h⟩
  cases b with
  | len =>
    refine failsByValue_bind (hfirst rfl) fun v _ => ?_
    cases v with
    | text s => exact failsByValue_ok _
    | array items => exact failsByValue_ok _
    | _ => exact failsByValue_reject (.mismatch rfl)
  | sum => exact failsByValue_bind (failsByValue_numbers _ _) fun _ _ => failsByValue_ok _
  | min =>
    refine failsByValue_bind (failsByValue_numbers _ _) fun xs _ => ?_
    cases Builtin.best (· < ·) xs with
    | none => exact failsByValue_reject (.mismatch rfl)
    | some x => exact failsByValue_ok _
  | max =>
    refine failsByValue_bind (failsByValue_numbers _ _) fun xs _ => ?_
    cases Builtin.best (· > ·) xs with
    | none => exact failsByValue_reject (.mismatch rfl)
    | some x => exact failsByValue_ok _
  | typeOf => exact failsByValue_bind (hfirst rfl) fun v _ => failsByValue_ok _
  | str =>
    refine failsByValue_bind (hfirst rfl) fun v hv => ?_
    exact failsByValue_bind (failsByValue_shown (hdeep v hv)) fun _ _ => failsByValue_ok _
  | int =>
    refine failsByValue_bind (hfirst rfl) fun v hv => ?_
    refine failsByValue_bind (failsByValue_toFloat (hdeep v hv)) fun x _ => ?_
    exact failsByValue_bind (failsByValue_toWhole x) fun _ _ => failsByValue_ok _
  | float =>
    refine failsByValue_bind (hfirst rfl) fun v hv => ?_
    exact failsByValue_bind (failsByValue_toFloat (hdeep v hv)) fun _ _ => failsByValue_ok _
  | push =>
    match args, hargs 2 rfl with
    | [.array items, item], _ => exact failsByValue_ok _
    | [.number _, _], _ | [.text _, _], _ | [.undefined, _], _ | [.builtin _, _], _
    | [.function _, _], _ => exact failsByValue_reject (.mismatch rfl)
  | timestamp => exact failsByValue_ok _

/-! ## Failures as stops -/

/-- A stop that comes from a failed computation has its fault or the cause of its error. -/
theorem stopOf_ofExcept {mark : Option Mark} {r : Except Failure α} {s : State} {stop : Stop}
    (h : stopOf (ofExcept mark r s) = some stop) :
    (∃ f, r = .error (.fault f) ∧ stop = .fault f) ∨
      ∃ e e', r = .error (.error e) ∧ stop = .error e' ∧ e'.cause = e.cause := by
  cases r with
  | ok a => cases h
  | error failure =>
    cases failure with
    | fault f =>
      cases h
      exact .inl ⟨f, rfl, rfl⟩
    | error e =>
      refine .inr ⟨e, ?_⟩
      change stopOf ((if e.cause = .nestingTooDeep then (_ : Eval α) else _) s) = _ at h
      split at h <;> cases h <;> exact ⟨_, rfl, rfl, rfl⟩

theorem FailsByValue.causeOf_ofExcept {r : Except Failure α} (hr : FailsByValue isDeep r)
    (h : ¬ isDeep) (mark : Option Mark) (s : State) :
    causeOf (ofExcept mark r s) ≠ some .nestingTooDeep := by
  intro hc
  obtain ⟨stop, hstop, hcause⟩ := Option.bind_eq_some_iff.1 hc
  rcases stopOf_ofExcept hstop with ⟨f, -, rfl⟩ | ⟨e, e', he, rfl, hee⟩
  · cases hcause
  · have hdeep : e.cause = .nestingTooDeep := hee.symm.trans (Option.some.inj hcause)
    cases hr _ he with
    | mismatch hk => simp only at hdeep; subst hdeep; cases hk
    | division hk => simp only at hdeep; subst hdeep; cases hk
    | tooDeep hd => exact h hd

end Orus.Run
