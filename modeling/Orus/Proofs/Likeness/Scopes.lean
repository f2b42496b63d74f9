import Orus.Proofs.Likeness.Values
import Orus.Scope.Chain

/-! # Scopes up to a likeness

Scopes that bind the same names to alike values give alike values for every name and stay
alike when a name is declared or given another value.
-/

namespace Orus

theorem rel_option_map {α α' β β' : Type} {R : α → α' → Prop} {S : β → β' → Prop} {a : Option α}
    {a' : Option α'} {f : α → β} {f' : α' → β'} (h : Option.Rel R a a')
    (hf : ∀ x x', R x x' → S (f x) (f' x')) : Option.Rel S (a.map f) (a'.map f') := by
  cases h with
  | none => exact .none
  | some hx => exact .some (hf _ _ hx)

variable {L : Likeness}

structure BindingAlike (L : Likeness) (b b' : Name × Value) : Prop where
  name : b.1 = b'.1
  value : b.2.Alike L b'.2

namespace Frame

def Alike (L : Likeness) (f f' : Frame) : Prop :=
  List.Forall₂ (BindingAlike L) f.bindings f'.bindings

variable {f f' : Frame} {v v' : Value}

theorem Alike.find? (h : f.Alike L f') (name : Name) :
    Option.Rel (Value.Alike L) (f.find? name) (f'.find? name) := by
  obtain ⟨bindings⟩ := f
  obtain ⟨bindings'⟩ := f'
  change List.Forall₂ (BindingAlike L) bindings bindings' at h
  induction h with
  | nil => exact .none
  | @cons b b' bs bs' hb _ ih =>
    simp only [Frame.find?, List.find?_cons, hb.name] at ih ⊢
    split
    · exact .some hb.value
    · exact ih

theorem Alike.declares_eq (h : f.Alike L f') (name : Name) :
    f.declares name = f'.declares name := by
  obtain ⟨bindings⟩ := f
  obtain ⟨bindings'⟩ := f'
  change List.Forall₂ (BindingAlike L) bindings bindings' at h
  induction h with
  | nil => rfl
  | cons hb _ ih =>
    simp only [declares, List.any_cons, hb.name] at ih ⊢
    rw [ih]

theorem Alike.declare? (h : f.Alike L f') (name : Name) (hv : v.Alike L v') :
    Option.Rel (Alike L) (f.declare? name v) (f'.declare? name v') := by
  unfold Frame.declare?
  rw [h.declares_eq]
  split
  · exact .none
  · exact .some (List.rel_append h (.cons ⟨rfl, hv⟩ .nil))

theorem Alike.assign (h : f.Alike L f') (name : Name) (hv : v.Alike L v') :
    (f.assign name v).Alike L (f'.assign name v') := by
  obtain ⟨bindings⟩ := f
  obtain ⟨bindings'⟩ := f'
  change List.Forall₂ (BindingAlike L) bindings bindings' at h
  apply List.rel_map (R := BindingAlike L) _ h
  intro b b' hb
  simp only [hb.name]
  split
  · exact ⟨rfl, hv⟩
  · exact ⟨rfl, hb.value⟩

theorem Alike.data (h : f.Alike L f') : List.Forall₂ (BindingAlike L) f.data f'.data := by
  refine List.rel_filter (R := BindingAlike L) ?_ h
  rintro ⟨name, v⟩ ⟨_, v'⟩ ⟨rfl, hv⟩
  cases hv <;> rfl

end Frame

namespace Chain

structure Alike (L : Likeness) (c c' : Chain) : Prop where
  locals : List.Forall₂ (Frame.Alike L) c.locals c'.locals
  globals : c.globals.Alike L c'.globals
  builtins : c.builtins.Alike L c'.builtins

variable {c c' : Chain} {v v' : Value}

theorem rel_findSome? {name : Name} {fs fs' : List Frame}
    (h : List.Forall₂ (Frame.Alike L) fs fs') :
    Option.Rel (Value.Alike L) (fs.findSome? fun f => f.find? name)
      (fs'.findSome? fun f => f.find? name) := by
  induction h with
  | nil => exact .none
  | @cons f f' fs fs' hf _ ih =>
    have hfind := hf.find? name
    simp only [List.findSome?_cons]
    generalize f.find? name = r at hfind ⊢
    generalize f'.find? name = r' at hfind ⊢
    cases hfind with
    | none => exact ih
    | some hv => exact .some hv

theorem Alike.lookup? (h : c.Alike L c') (name : Name) :
    Option.Rel (Value.Alike L) (c.lookup? name) (c'.lookup? name) :=
  rel_findSome? (List.rel_append h.locals (.cons h.globals (.cons h.builtins .nil)))

theorem Alike.push (h : c.Alike L c') : (c.push {}).Alike L (c'.push {}) :=
  ⟨.cons .nil h.locals, h.globals, h.builtins⟩

theorem Alike.pop (h : c.Alike L c') : c.pop.Alike L c'.pop := by
  obtain ⟨locals, globals, builtins⟩ := c
  obtain ⟨locals', globals', builtins'⟩ := c'
  obtain ⟨hlocals, hglobals, hbuiltins⟩ := h
  cases hlocals with
  | nil => exact ⟨.nil, hglobals, hbuiltins⟩
  | cons _ hrest => exact ⟨hrest, hglobals, hbuiltins⟩

theorem Alike.declare? (h : c.Alike L c') (name : Name) (hv : v.Alike L v') :
    Option.Rel (Alike L) (c.declare? name v) (c'.declare? name v') := by
  obtain ⟨locals, globals, builtins⟩ := c
  obtain ⟨locals', globals', builtins'⟩ := c'
  obtain ⟨hlocals, hglobals, hbuiltins⟩ := h
  have hglobals' : globals.Alike L globals' := hglobals
  cases hlocals with
  | nil => exact rel_option_map (hglobals'.declare? name hv) fun _ _ h => ⟨.nil, h, hbuiltins⟩
  | cons hf hrest =>
    exact rel_option_map (hf.declare? name hv) fun _ _ h => ⟨.cons h hrest, hglobals, hbuiltins⟩

theorem rel_assignIn? (name : Name) (hv : v.Alike L v') {fs fs' : List Frame}
    (h : List.Forall₂ (Frame.Alike L) fs fs') :
    Option.Rel (List.Forall₂ (Frame.Alike L)) (assignIn? name v fs) (assignIn? name v' fs') := by
  induction h with
  | nil => exact .none
  | cons hf hrest ih =>
    simp only [assignIn?, hf.declares_eq]
    split
    · exact .some (.cons (hf.assign name hv) hrest)
    · exact rel_option_map ih fun _ _ h => .cons hf h

theorem Alike.assign? (h : c.Alike L c') (name : Name) (hv : v.Alike L v') :
    Option.Rel (Alike L) (c.assign? name v) (c'.assign? name v') := by
  have hlocals := rel_assignIn? name hv h.locals
  unfold Chain.assign?
  rw [h.globals.declares_eq, h.builtins.declares_eq]
  generalize assignIn? name v c.locals = r at hlocals ⊢
  generalize assignIn? name v' c'.locals = r' at hlocals ⊢
  cases hlocals with
  | some hlocals => exact .some ⟨hlocals, h.globals, h.builtins⟩
  | none =>
    dsimp only
    split
    · exact .some ⟨h.locals, h.globals.assign name hv, h.builtins⟩
    split
    · exact .some ⟨h.locals, h.globals, h.builtins.assign name hv⟩
    · exact .none

theorem alike_initial : initial.Alike L initial := by
  have hbuiltins (bs : List Builtin) : List.Forall₂ (BindingAlike L)
      (bs.map fun b => (.str b.name, .builtin b)) (bs.map fun b => (.str b.name, .builtin b)) := by
    apply List.forall₂_same.2
    intro b hb
    obtain ⟨builtin, _, rfl⟩ := List.mem_map.1 hb
    exact ⟨rfl, .builtin builtin⟩
  exact ⟨.nil, .nil, hbuiltins Builtin.all⟩

end Chain

end Orus
