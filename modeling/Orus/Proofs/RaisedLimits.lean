import Orus.Proofs.Growth
import Orus.Proofs.Limits

/-! # Raising the limits of a run

A run with higher limits does the same until the lower limits stop the other one. What
has been printed and warned about by then stays, so a run that is not stopped for want of
resources has the same outcome under all higher limits.
-/

namespace Orus.Run

variable {α β : Type} {s : State}

/-! ## Two evaluations side by side -/

/-- What the first state shows is the beginning of what the second shows. -/
structure State.ShownIn (s t : State) : Prop where
  output : s.output.toList <+: t.output.toList
  diagnostics : s.diagnostics.toList <+: t.diagnostics.toList

theorem State.ShownIn.refl (s : State) : s.ShownIn s :=
  ⟨List.prefix_rfl, List.prefix_rfl⟩

theorem State.ShownIn.trans {s t u : State} (h : s.ShownIn t) (h' : t.ShownIn u) : s.ShownIn u :=
  ⟨h.output.trans h'.output, h.diagnostics.trans h'.diagnostics⟩

theorem State.Grows.shownIn {s t : State} (h : s.Grows t) : s.ShownIn t :=
  ⟨h.output, h.diagnostics⟩

/-- From a state, evaluations under lower and under higher limits end alike, or the first
ends for want of resources and the second shows at least as much. -/
def KeepsAt (s : State) (lower higher : Eval α) : Prop :=
  higher s = lower s ∨
    IsExhausted (lower s) ∧ (endState (lower s)).ShownIn (endState (higher s))

structure Keeps (c : Bool → Eval α) : Prop where
  growing : Growing (c true)
  keepsAt (s : State) : KeepsAt s (c false) (c true)

theorem KeepsAt.bind {lower higher : Eval α} {k m : α → Eval β} (h : KeepsAt s lower higher)
    (hk : ∀ a t, lower s = .ok a t → higher s = .ok a t → KeepsAt t (k a) (m a))
    (hm : ∀ a, Growing (m a)) :
    KeepsAt s (lower >>= k) (higher >>= m) := by
  unfold KeepsAt
  rcases h with heq | ⟨hex, hshown⟩
  · cases hl : lower s with
    | ok a t =>
      rw [hl] at heq
      rw [bind_of_ok hl, bind_of_ok heq]
      exact hk a t hl heq
    | error e t =>
      rw [hl] at heq
      exact .inl (by rw [bind_of_error hl, bind_of_error heq])
  · cases hl : lower s with
    | ok a t => simp [hl, IsExhausted] at hex
    | error e t =>
      rw [hl] at hex hshown
      rw [bind_of_error hl]
      refine .inr ⟨hex, hshown.trans ?_⟩
      cases hh : higher s with
      | ok a u =>
        rw [bind_of_ok hh]
        exact (hm a u).shownIn
      | error e' u =>
        rw [bind_of_error hh]
        exact .refl u

theorem Keeps.bind {c : Bool → Eval α} {k : Bool → α → Eval β} (hc : Keeps c)
    (hk : ∀ a, Keeps fun i => k i a) : Keeps fun i => c i >>= k i where
  growing := hc.growing.bind fun a => (hk a).growing
  keepsAt s := (hc.keepsAt s).bind (fun a t _ _ => (hk a).keepsAt t) fun a => (hk a).growing

/-- Evaluations are kept by what changes neither their cause nor what they show. -/
theorem KeepsAt.congr {lower higher : Eval α} {lower' higher' : Eval β} {t : State}
    (h : KeepsAt t lower higher) (heq : higher t = lower t → higher' s = lower' s)
    (hcause : causeOf (lower' s) = causeOf (lower t))
    (hlower : (endState (lower' s)).ShownIn (endState (lower t)))
    (hhigher : (endState (higher t)).ShownIn (endState (higher' s))) :
    KeepsAt s lower' higher' := by
  rcases h with h | ⟨hex, hshown⟩
  · exact .inl (heq h)
  · refine .inr ⟨?_, hlower.trans (hshown.trans hhigher)⟩
    rwa [IsExhausted, hcause]

variable {cfg : Config} {limits : Limits}

/-- All lines that a result shows, whether or not the run came to its end. -/
def Result.lines (r : Result) : List String :=
  r.output ++ r.partialOutput

def Outcome.IsExhausted (o : Outcome) : Prop :=
  ∃ r e, o.result = .ok r ∧ r.error = some e ∧ e.cause.kind = .resourceExhausted

/-- A program with a function in an array until its last statement. -/
def holdsFunction : Node :=
  .program [.fnDecl (.str "main") [] (.block [
    .letDecl (.str "a") (.array [.identifier (.str "len") none] none) true none,
    .assignment (.str "a") (.nilLiteral none) none] none) none] [] 0 none

end Orus.Run
