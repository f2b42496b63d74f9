import Orus.Proofs.Likeness.Running

/-! # Outcomes of alike runs

What a run shows in debug mode are data, and alike variables are the same as data: functions
are left out or cannot be shown. Where alike marks are the same marks, runs that agree have
the same outcome in either mode, with the same log.
-/

namespace Orus.Run

variable {L : Likeness}

/-! ## The dump -/

theorem any_eq_of_forall₂ {α β : Type} {R : α → β → Prop} {p : α → Bool} {q : β → Bool}
    (hpq : ∀ a b, R a b → p a = q b) {as : List α} {bs : List β} (h : List.Forall₂ R as bs) :
    as.any p = bs.any q := by
  induction h with
  | nil => rfl
  | cons hab _ ih => rw [List.any_cons, List.any_cons, hpq _ _ hab, ih]

theorem mapM_eq_of_forall₂ {α β γ ε : Type} {R : α → β → Prop} {f : α → Except ε γ}
    {g : β → Except ε γ} (hfg : ∀ a b, R a b → f a = g b) {as : List α} {bs : List β}
    (h : List.Forall₂ R as bs) : as.mapM f = bs.mapM g := by
  induction h with
  | nil => rfl
  | cons hab _ ih => rw [List.mapM_cons, List.mapM_cons, hfg _ _ hab, ih]

theorem rel_putBinding (name : Name) {v v' : Value} (hv : v.Alike L v')
    {bs bs' : List (Name × Value)} (h : List.Forall₂ (BindingAlike L) bs bs') :
    List.Forall₂ (BindingAlike L) (putBinding name v bs) (putBinding name v' bs') := by
  induction h with
  | nil => exact .cons ⟨rfl, hv⟩ .nil
  | @cons b b' _ _ hb hrest ih =>
    obtain ⟨n, w⟩ := b
    obtain ⟨_, w'⟩ := b'
    obtain ⟨rfl, hw⟩ := hb
    simp only [putBinding]
    split
    · exact .cons ⟨rfl, hv⟩ hrest
    · exact .cons ⟨rfl, hw⟩ ih

theorem rel_ownVariables {main main' : Option Frame} (h : Option.Rel (Frame.Alike L) main main') :
    List.Forall₂ (BindingAlike L) (ownVariables main) (ownVariables main') := by
  cases h with
  | none => exact .nil
  | some hf => exact hf.data

theorem rel_dumpedVariables {globals globals' : Frame} {main main' : Option Frame}
    (hglobals : globals.Alike L globals') (hmain : Option.Rel (Frame.Alike L) main main') :
    List.Forall₂ (BindingAlike L) (dumpedVariables globals main)
      (dumpedVariables globals' main') := by
  have hown := rel_ownVariables hmain
  have hdone := hglobals.data
  unfold dumpedVariables
  generalize globals.data = done, globals'.data = done' at hdone
  generalize ownVariables main = own, ownVariables main' = own' at hown
  induction hown generalizing done done' with
  | nil => exact hdone
  | cons hb _ ih =>
    simp only [List.foldl_cons, hb.name]
    exact ih _ _ (rel_putBinding _ hb.value hdone)

theorem dumpData_eq (depth : Nat) {globals globals' : Frame} {main main' : Option Frame}
    (hglobals : globals.Alike L globals') (hmain : Option.Rel (Frame.Alike L) main main') :
    dumpData depth globals main = dumpData depth globals' main' := by
  have hall := List.rel_append hglobals.data (rel_ownVariables hmain)
  unfold dumpData
  rw [any_eq_of_forall₂ ?_ hall, mapM_eq_of_forall₂ ?_ (rel_dumpedVariables hglobals hmain)]
  · rintro ⟨name, v⟩ ⟨_, v'⟩ ⟨rfl, hv⟩
    have hfunction (w w' : Value) (hw : w.Alike L w') :
        (.error (.functionAsData w.type.name) : Except Fault Json) =
          .error (.functionAsData w'.type.name) := by rw [hw.type_eq]
    simp only [hv.toData_eq hfunction]
  · rintro ⟨name, v⟩ ⟨_, v'⟩ ⟨-, hv⟩
    simp only [hv.height_eq]

theorem dumpLines_eq (depth : Nat) (length : Int) {c c' : Chain} (h : c.Alike L c') :
    dumpLines depth length c = dumpLines depth length c' := by
  have hmain : Option.Rel (Frame.Alike L) c.locals.head? c'.locals.head? := by
    have hlocals := h.locals
    generalize c.locals = fs, c'.locals = fs' at hlocals
    cases hlocals with
    | nil => exact .none
    | cons hf _ => exact .some hf
  unfold dumpLines
  rw [dumpData_eq depth h.globals hmain]

/-! ## Where alike marks are the same -/

section SameMarks

variable (hL : ∀ {m m' : Option Mark}, L.marks m m' → m = m')
include hL

theorem ErrorAlike.eq {e e' : Error} (h : ErrorAlike L e e') : e = e' := by
  obtain ⟨cause, mark⟩ := e
  obtain ⟨cause', mark'⟩ := e'
  obtain ⟨rfl, hmark⟩ := h
  cases hL hmark
  rfl

theorem State.Alike.diagnostics_eq {s s' : State} (hs : s.Alike L s') :
    s.diagnostics = s'.diagnostics := by
  have hwarnings : List.Forall₂ Eq s.diagnostics.toList s'.diagnostics.toList := by
    apply hs.diagnostics.imp
    rintro _ _ ⟨message, hm⟩
    cases hL hm
    rfl
  rw [List.forall₂_eq_eq_eq] at hwarnings
  exact Array.toList_inj.1 hwarnings

theorem resultOf_eq (mode : Mode) (length : Int) {s s' : State} (hs : s.Alike L s')
    (error : Option Error) : resultOf mode length s error = resultOf mode length s' error := by
  unfold resultOf shownLines placed
  rw [hs.output, dumpLines_eq _ _ hs.scopes, hs.diagnostics_eq hL, hL hs.mark]

theorem outcomeOf_eq (cfg : Config) (mode : Mode) (length : Int)
    {r r' : EStateM.Result Stop State Unit} (h : Agree L Eq r r') :
    outcomeOf cfg mode length r = outcomeOf cfg mode length r' := by
  have hlog {s s' : State} (hs : s.Alike L s') (error : Option Error) :
      outcomeOf.logOf cfg s error = outcomeOf.logOf cfg s' error := by
    unfold outcomeOf.logOf closingLines
    rw [hs.log, hs.steps, hs.iterations, hs.output]
  have hfinish {s s' : State} (hs : s.Alike L s') (error : Option Error) :
      outcomeOf.finish cfg mode length s error = outcomeOf.finish cfg mode length s' error := by
    unfold outcomeOf.finish
    rw [resultOf_eq hL mode length hs error, hlog hs error]
  cases h with
  | ok _ hs => exact hfinish hs none
  | error he hs =>
    cases he with
    | error he =>
      cases he.eq hL
      exact hfinish hs _
    | _ => simp only [outcomeOf, strayFault, hlog hs none]

end SameMarks

end Orus.Run
