import Orus.Proofs.Likeness.Trees
import Orus.Run.Operators
import Orus.Run.State

/-! # Values up to a likeness

Values hold trees, since a function is its declaration. Alike values have the same type,
the same text and the same truth value, and every operation gives alike values for alike
operands or fails for the same reason.
-/

namespace Orus

variable {α α' : Type}

/-- Values that differ only in the functions in them, which are alike. -/
inductive Value.Alike (L : Likeness) : Value → Value → Prop where
  | number (x : Float) : Alike L (.number x) (.number x)
  | text (s : String) : Alike L (.text s) (.text s)
  | array {vs vs' : List Value} : List.Forall₂ (Alike L) vs vs' → Alike L (.array vs) (.array vs')
  | undefined : Alike L .undefined .undefined
  | builtin (b : Builtin) : Alike L (.builtin b) (.builtin b)
  | function {decl decl' : Node} : L.trees decl decl' → Alike L (.function decl) (.function decl')

variable {L : Likeness}

namespace Value.Alike

variable {v v' w w' : Value}

theorem type_eq (h : v.Alike L v') : v.type = v'.type := by
  cases h <;> rfl

theorem isTruthy_eq (h : v.Alike L v') : v.isTruthy = v'.isTruthy := by
  cases h with
  | array h => rw [isTruthy, isTruthy, isEmpty_eq_of_forall₂ h]
  | _ => rfl

theorem toInt?_eq (h : v.Alike L v') : v.toInt? = v'.toInt? := by
  cases h <;> rfl

theorem functionName_eq {decl decl' : Node} (h : L.trees decl decl') :
    functionName decl = functionName decl' := by
  rw [functionName, functionName, L.name?_eq h]

mutual

theorem height_eq {v v' : Value} (h : v.Alike L v') : v.height = v'.height := by
  cases h with
  | array h => rw [height, height, heightOfItems_eq h]
  | _ => rfl

theorem heightOfItems_eq {vs vs' : List Value} (h : List.Forall₂ (Alike L) vs vs') :
    heightOfItems vs = heightOfItems vs' := by
  cases h with
  | nil => rfl
  | cons h hs => rw [heightOfItems, heightOfItems, height_eq h, heightOfItems_eq hs]

end

mutual

theorem display_eq {v v' : Value} (h : v.Alike L v') : v.display = v'.display := by
  cases h with
  | array h => rw [display, display, displayItems_eq h]
  | function h => rw [display, display, functionName_eq h]
  | _ => rfl

theorem displayItems_eq {vs vs' : List Value} (h : List.Forall₂ (Alike L) vs vs') :
    displayItems vs = displayItems vs' := by
  cases h with
  | nil => rfl
  | cons h hs => rw [displayItems, displayItems, display_eq h, displayItems_eq hs]

end

mutual

theorem equal_eq {v v' w w' : Value} (h : v.Alike L v') (h' : w.Alike L w') :
    v.equal w = v'.equal w' := by
  cases h with
  | array h =>
    cases h' with
    | array h' => rw [equal, equal, equalItems_eq h h']
    | _ => rfl
  | _ => cases h' <;> rfl

theorem equalItems_eq {vs vs' ws ws' : List Value} (h : List.Forall₂ (Alike L) vs vs')
    (h' : List.Forall₂ (Alike L) ws ws') : equalItems vs ws = equalItems vs' ws' := by
  cases h with
  | nil => cases h' <;> rfl
  | cons h hs =>
    cases h' with
    | nil => rfl
    | cons h' hs' => rw [equalItems, equalItems, equal_eq h h', equalItems_eq hs hs']

end

mutual

theorem toData_eq {function : Value → Except Fault Json}
    (hfunction : ∀ v v', v.Alike L v' → function v = function v') {v v' : Value}
    (h : v.Alike L v') : v.toData function = v'.toData function := by
  have hself := hfunction v v' h
  cases h with
  | array h => rw [toData, toData, dataOfItems_eq hfunction h]
  | builtin | function => exact hself
  | _ => rfl

theorem dataOfItems_eq {function : Value → Except Fault Json}
    (hfunction : ∀ v v', v.Alike L v' → function v = function v') {vs vs' : List Value}
    (h : List.Forall₂ (Alike L) vs vs') : dataOfItems function vs = dataOfItems function vs' := by
  cases h with
  | nil => rfl
  | cons h hs =>
    rw [dataOfItems, dataOfItems, toData_eq hfunction h, dataOfItems_eq hfunction hs]

end

theorem allPairs_eq {test : Value → Value → Option Bool}
    (htest : ∀ v v' w w', Alike L v v' → Alike L w w' → test v w = test v' w')
    {vs vs' ws ws' : List Value} (h : List.Forall₂ (Alike L) vs vs')
    (h' : List.Forall₂ (Alike L) ws ws') : allPairs test vs ws = allPairs test vs' ws' := by
  induction h generalizing ws ws' with
  | nil => cases h' <;> rfl
  | cons hv _ ih =>
    cases h' with
    | nil => rfl
    | cons hw hs' => rw [allPairs, allPairs, htest _ _ _ _ hv hw, ih hs']

theorem equalWithin_eq (depth : Nat) (h : v.Alike L v') (h' : w.Alike L w') :
    v.equalWithin depth w = v'.equalWithin depth w' := by
  induction depth generalizing v v' w w' with
  | zero => rfl
  | succ d ih =>
    cases h with
    | array h =>
      cases h' with
      | array h' =>
        rw [equalWithin, equalWithin, h.length_eq, h'.length_eq,
          allPairs_eq (fun _ _ _ _ hv hw => ih hv hw) h h']
      | _ => rfl
    | _ => cases h' <;> rfl

theorem displayWithin_eq (depth : Nat) (h : v.Alike L v') :
    v.displayWithin depth = v'.displayWithin depth := by
  rw [displayWithin, displayWithin, height_eq h, display_eq h]

end Value.Alike

/-! ## Computations -/

inductive AgreeComputed (R : α → α' → Prop) : Except Failure α → Except Failure α' → Prop where
  | ok {a : α} {a' : α'} : R a a' → AgreeComputed R (.ok a) (.ok a')
  | error (f : Failure) : AgreeComputed R (.error f) (.error f)

theorem AgreeComputed.bind {β β' : Type} {R : α → α' → Prop} {S : β → β' → Prop}
    {r : Except Failure α} {r' : Except Failure α'} {k : α → Except Failure β}
    {k' : α' → Except Failure β'} (h : AgreeComputed R r r')
    (hk : ∀ a a', R a a' → AgreeComputed S (k a) (k' a')) :
    AgreeComputed S (r >>= k) (r' >>= k') := by
  cases h with
  | ok ha => exact hk _ _ ha
  | error f => exact .error f

theorem agreeComputed_bind_same {β β' : Type} {S : β → β' → Prop} (r : Except Failure α)
    {k : α → Except Failure β} {k' : α → Except Failure β'}
    (hk : ∀ a, AgreeComputed S (k a) (k' a)) : AgreeComputed S (r >>= k) (r >>= k') := by
  cases r with
  | ok a => exact hk a
  | error f => exact .error f

namespace Builtin

variable {v v' : Value} {vs vs' : List Value}

theorem shown_eq (depth : Nat) (h : v.Alike L v') : shown depth v = shown depth v' := by
  rw [shown, shown, h.displayWithin_eq]

theorem agreeComputed_first (h : List.Forall₂ (Value.Alike L) vs vs') :
    AgreeComputed (Value.Alike L) (first vs) (first vs') := by
  cases h with
  | nil => exact .error _
  | cons h _ => exact .ok h

theorem allNumbers_eq (b : Builtin) (h : List.Forall₂ (Value.Alike L) vs vs') :
    allNumbers b vs = allNumbers b vs' := by
  induction h with
  | nil => rfl
  | cons h _ ih =>
    cases h with
    | number x => rw [allNumbers, allNumbers, ih]
    | _ => rfl

theorem numbers_eq (b : Builtin) (h : List.Forall₂ (Value.Alike L) vs vs') :
    numbers b vs = numbers b vs' := by
  have hall := allNumbers_eq b h
  cases h with
  | nil => rfl
  | cons hv hs =>
    cases hs with
    | nil =>
      cases hv with
      | array hv => exact allNumbers_eq b hv
      | _ => exact hall
    | cons hw hs =>
      simp only [numbers]
      exact hall

theorem toFloat_eq (depth : Nat) (h : v.Alike L v') : toFloat depth v = toFloat depth v' := by
  have hshown := shown_eq depth h
  cases h with
  | number x => rfl
  | text s => rfl
  | _ => simp only [toFloat, hshown, Value.type]

theorem agreeComputed_apply (b : Builtin) (context : Context)
    (h : List.Forall₂ (Value.Alike L) vs vs') :
    AgreeComputed (Value.Alike L) (b.apply context vs) (b.apply context vs') := by
  have hfirst := agreeComputed_first h
  cases b with
  | len =>
    apply hfirst.bind
    intro v v' hv
    cases hv with
    | text s => exact .ok (.number _)
    | array hs =>
      simp only [hs.length_eq]
      exact .ok (.number _)
    | _ => exact .error _
  | sum =>
    simp only [apply, numbers_eq _ h]
    exact agreeComputed_bind_same _ fun x => .ok (.number _)
  | min =>
    simp only [apply, numbers_eq _ h]
    apply agreeComputed_bind_same
    intro xs
    split
    · exact .ok (.number _)
    · exact .error _
  | max =>
    simp only [apply, numbers_eq _ h]
    apply agreeComputed_bind_same
    intro xs
    split
    · exact .ok (.number _)
    · exact .error _
  | typeOf =>
    apply hfirst.bind
    intro v v' hv
    rw [hv.type_eq]
    exact .ok (.text _)
  | str =>
    apply hfirst.bind
    intro v v' hv
    rw [shown_eq _ hv]
    exact agreeComputed_bind_same _ fun s => .ok (.text s)
  | float =>
    apply hfirst.bind
    intro v v' hv
    rw [toFloat_eq _ hv]
    exact agreeComputed_bind_same _ fun x => .ok (.number x)
  | int =>
    apply hfirst.bind
    intro v v' hv
    rw [toFloat_eq _ hv]
    apply agreeComputed_bind_same
    intro x
    exact agreeComputed_bind_same _ fun y => .ok (.number y)
  | push =>
    obtain _ | ⟨hv, _ | ⟨hw, _ | _⟩⟩ := h
    · exact .error _
    · cases hv <;> exact .error _
    · cases hv with
      | array hs => exact .ok (.array (List.rel_append hs (.cons hw .nil)))
      | _ => exact .error _
    · cases hv <;> exact .error _
  | timestamp => exact .ok (.number _)

end Builtin

namespace Run

variable {a a' b b' : Value}

theorem agreeComputed_plus (ha : a.Alike L a') (hb : b.Alike L b') :
    AgreeComputed (Value.Alike L) (plus a b) (plus a' b') := by
  cases ha <;> cases hb <;> constructor <;> constructor

theorem agreeComputed_arithmetic (op : String) (f : Float → Float → Except Failure Float)
    (ha : a.Alike L a') (hb : b.Alike L b') :
    AgreeComputed (Value.Alike L) (arithmetic op f a b) (arithmetic op f a' b') := by
  cases ha with
  | number x =>
    cases hb with
    | number y =>
      simp only [arithmetic]
      cases f x y with
      | ok z => exact .ok (.number z)
      | error failure => exact .error failure
    | _ => exact .error _
  | _ => cases hb <;> exact .error _

theorem agreeComputed_equality (depth : Nat) (wanted : Bool) (ha : a.Alike L a')
    (hb : b.Alike L b') :
    AgreeComputed (Value.Alike L) (equality depth wanted a b) (equality depth wanted a' b') := by
  simp only [equality, ha.equalWithin_eq depth hb]
  split
  · exact .ok (.number _)
  · exact .error _

theorem agreeComputed_comparison (numbers : Float → Float → Bool) (texts : String → String → Bool)
    (ha : a.Alike L a') (hb : b.Alike L b') :
    AgreeComputed (Value.Alike L) (comparison numbers texts a b)
      (comparison numbers texts a' b') := by
  cases ha <;> cases hb <;> constructor <;> constructor

theorem agreeComputed_applyOperator (depth : Nat) (op : Name) (ha : a.Alike L a')
    (hb : b.Alike L b') :
    AgreeComputed (Value.Alike L) (applyOperator depth op a b) (applyOperator depth op a' b') := by
  unfold applyOperator
  split
  · exact agreeComputed_plus ha hb
  · exact agreeComputed_arithmetic _ _ ha hb
  · exact agreeComputed_arithmetic _ _ ha hb
  · exact agreeComputed_arithmetic _ _ ha hb
  · exact agreeComputed_arithmetic _ _ ha hb
  · exact agreeComputed_equality _ _ ha hb
  · exact agreeComputed_equality _ _ ha hb
  · exact agreeComputed_comparison _ _ ha hb
  · exact agreeComputed_comparison _ _ ha hb
  · exact agreeComputed_comparison _ _ ha hb
  · exact agreeComputed_comparison _ _ ha hb
  · exact .error _

end Run

end Orus
