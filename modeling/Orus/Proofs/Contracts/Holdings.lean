import Orus.Proofs.Effects

/-! # The functions in reach

A function is a value, so it can be stored in arrays and variables, passed on and returned.
A property of every function in reach is kept by reading and writing variables, and by
operators and builtins, none of which makes a new function.
-/

namespace Orus

variable {F : Node → Prop}

/-! ## Values and scopes -/

/-- A value all of whose functions have a property. -/
inductive Value.Holds (F : Node → Prop) : Value → Prop where
  | number (x : Float) : Holds F (.number x)
  | text (s : String) : Holds F (.text s)
  | array {items : List Value} : (∀ v ∈ items, v.Holds F) → Holds F (.array items)
  | undefined : Holds F .undefined
  | builtin (b : Builtin) : Holds F (.builtin b)
  | function {decl : Node} : F decl → Holds F (.function decl)

theorem Value.Holds.of_mem {items : List Value} (h : (Value.array items).Holds F) :
    ∀ v ∈ items, v.Holds F := by
  cases h with
  | array h => exact h

def Frame.Holds (F : Node → Prop) (f : Frame) : Prop :=
  ∀ b ∈ f.bindings, b.2.Holds F

theorem Frame.Holds.find? {f : Frame} (h : f.Holds F) {name : Name} {v : Value}
    (hv : f.find? name = some v) : v.Holds F := by
  obtain ⟨b, hb, rfl⟩ := Option.map_eq_some_iff.1 hv
  exact h b (List.mem_of_find?_eq_some hb)

theorem Frame.Holds.declare? {f g : Frame} (h : f.Holds F) {name : Name} {v : Value}
    (hv : v.Holds F) (hg : f.declare? name v = some g) : g.Holds F := by
  unfold Frame.declare? at hg
  split at hg
  · cases hg
  · cases hg
    exact List.forall_mem_append.2 ⟨h, List.forall_mem_singleton.2 hv⟩

theorem Frame.Holds.assign {f : Frame} (h : f.Holds F) (name : Name) {v : Value}
    (hv : v.Holds F) : (f.assign name v).Holds F := by
  intro b hb
  obtain ⟨⟨n, w⟩, hmem, rfl⟩ := List.mem_map.1 hb
  dsimp only
  split
  · exact hv
  · exact h _ hmem

structure Chain.Holds (F : Node → Prop) (c : Chain) : Prop where
  locals : ∀ f ∈ c.locals, f.Holds F
  globals : c.globals.Holds F
  builtins : c.builtins.Holds F

theorem Chain.Holds.lookup? {c : Chain} (h : c.Holds F) {name : Name} {v : Value}
    (hv : c.lookup? name = some v) : v.Holds F := by
  obtain ⟨f, hf, hfv⟩ := List.exists_of_findSome?_eq_some hv
  refine Frame.Holds.find? ?_ hfv
  rcases List.mem_append.1 hf with hf | hf
  · exact h.locals f hf
  · simp only [List.mem_cons, List.not_mem_nil, or_false] at hf
    rcases hf with rfl | rfl
    · exact h.globals
    · exact h.builtins

theorem Chain.Holds.declare? {c d : Chain} (h : c.Holds F) {name : Name} {v : Value}
    (hv : v.Holds F) (hd : c.declare? name v = some d) : d.Holds F := by
  unfold Chain.declare? at hd
  split at hd
  · obtain ⟨f, hf, rfl⟩ := Option.map_eq_some_iff.1 hd
    exact ⟨h.locals, h.globals.declare? hv hf, h.builtins⟩
  next top rest hlocals =>
    obtain ⟨f, hf, rfl⟩ := Option.map_eq_some_iff.1 hd
    have hall := h.locals
    rw [hlocals] at hall
    obtain ⟨htop, hrest⟩ := List.forall_mem_cons.1 hall
    exact ⟨List.forall_mem_cons.2 ⟨htop.declare? hv hf, hrest⟩, h.globals, h.builtins⟩

theorem Chain.holds_assignIn? {frames found : List Frame} (h : ∀ f ∈ frames, f.Holds F)
    {name : Name} {v : Value} (hv : v.Holds F) (hd : Chain.assignIn? name v frames = some found) :
    ∀ f ∈ found, f.Holds F := by
  induction frames generalizing found with
  | nil => cases hd
  | cons f rest ih =>
    obtain ⟨hf, hrest⟩ := List.forall_mem_cons.1 h
    unfold Chain.assignIn? at hd
    split at hd
    · cases hd
      exact List.forall_mem_cons.2 ⟨hf.assign name hv, hrest⟩
    · obtain ⟨more, hmore, rfl⟩ := Option.map_eq_some_iff.1 hd
      exact List.forall_mem_cons.2 ⟨hf, ih hrest hmore⟩

theorem Chain.Holds.assign? {c d : Chain} (h : c.Holds F) {name : Name} {v : Value}
    (hv : v.Holds F) (hd : c.assign? name v = some d) : d.Holds F := by
  unfold Chain.assign? at hd
  split at hd
  next hlocals =>
    cases hd
    exact ⟨Chain.holds_assignIn? h.locals hv hlocals, h.globals, h.builtins⟩
  · split at hd
    · cases hd
      exact ⟨h.locals, h.globals.assign name hv, h.builtins⟩
    · split at hd
      · cases hd
        exact ⟨h.locals, h.globals, h.builtins.assign name hv⟩
      · cases hd

theorem Chain.holds_initial : Chain.initial.Holds F := by
  refine ⟨List.forall_mem_nil _, List.forall_mem_nil _, ?_⟩
  intro b hb
  obtain ⟨builtin, -, rfl⟩ := List.mem_map.1 hb
  exact .builtin builtin

/-! ## Results of operators and builtins -/

namespace Run

variable {α β : Type}

theorem holds_plus {a b v : Value} (h : plus a b = .ok v) : v.Holds F := by
  unfold plus at h
  split at h <;> cases h
  · exact .number _
  · exact .text _
  · exact .text _
  · exact .text _

theorem holds_arithmetic {op : String} {f : Float → Float → Except Failure Float} {a b v : Value}
    (h : arithmetic op f a b = .ok v) : v.Holds F := by
  unfold arithmetic at h
  split at h
  next x y =>
    cases hf : f x y with
    | ok r =>
      rw [hf] at h
      cases h
      exact .number r
    | error e =>
      rw [hf] at h
      cases h
  · cases h

theorem holds_equality {depth : Nat} {wanted : Bool} {a b v : Value}
    (h : equality depth wanted a b = .ok v) : v.Holds F := by
  unfold equality at h
  split at h <;> cases h
  exact .number _

theorem holds_comparison {numbers : Float → Float → Bool} {texts : String → String → Bool}
    {a b v : Value} (h : comparison numbers texts a b = .ok v) : v.Holds F := by
  unfold comparison at h
  split at h <;> cases h
  · exact .number _
  · exact .number _

theorem holds_applyOperator {depth : Nat} {op : Name} {a b v : Value}
    (h : applyOperator depth op a b = .ok v) : v.Holds F := by
  unfold applyOperator at h
  split at h
  · exact holds_plus h
  · exact holds_arithmetic h
  · exact holds_arithmetic h
  · exact holds_arithmetic h
  · exact holds_arithmetic h
  · exact holds_equality h
  · exact holds_equality h
  · exact holds_comparison h
  · exact holds_comparison h
  · exact holds_comparison h
  · exact holds_comparison h
  · cases h

theorem of_bind_eq_ok {P : β → Prop} {r : Except Failure α} {k : α → Except Failure β} {b : β}
    (hk : ∀ a, k a = .ok b → P b) (h : r >>= k = .ok b) : P b := by
  cases r with
  | ok a => exact hk a h
  | error e => cases h

theorem holds_apply {b : Builtin} {context : Builtin.Context} {args : List Value} {v : Value}
    (hargs : ∀ v ∈ args, v.Holds F) (h : b.apply context args = .ok v) : v.Holds F := by
  cases b with
  | len =>
    refine of_bind_eq_ok (fun a ha => ?_) h
    cases a <;> cases ha <;> exact .number _
  | sum =>
    refine of_bind_eq_ok (fun xs hxs => ?_) h
    cases hxs
    exact .number _
  | min =>
    refine of_bind_eq_ok (fun xs hxs => ?_) h
    cases hbest : Builtin.best (· < ·) xs <;> rw [hbest] at hxs <;> cases hxs
    exact .number _
  | max =>
    refine of_bind_eq_ok (fun xs hxs => ?_) h
    cases hbest : Builtin.best (· > ·) xs <;> rw [hbest] at hxs <;> cases hxs
    exact .number _
  | typeOf =>
    refine of_bind_eq_ok (fun a ha => ?_) h
    cases ha
    exact .text _
  | str =>
    refine of_bind_eq_ok (fun a ha => of_bind_eq_ok (fun text htext => ?_) ha) h
    cases htext
    exact .text _
  | int =>
    refine of_bind_eq_ok (fun a ha => of_bind_eq_ok (fun x hx => ?_) ha) h
    refine of_bind_eq_ok (fun y hy => ?_) hx
    cases hy
    exact .number _
  | float =>
    refine of_bind_eq_ok (fun a ha => of_bind_eq_ok (fun x hx => ?_) ha) h
    cases hx
    exact .number _
  | push =>
    unfold Builtin.apply at h
    dsimp only at h
    split at h <;> cases h
    next items item =>
      have hall := List.forall_mem_cons.1 hargs
      have hitem := (List.forall_mem_cons.1 hall.2).1
      exact .array (List.forall_mem_append.2 ⟨hall.1.of_mem, List.forall_mem_singleton.2 hitem⟩)
  | timestamp =>
    cases h
    exact .number _

theorem holds_fieldOf? {v item : Value} {name : Name} (h : fieldOf? v name = some item) :
    item.Holds F := by
  unfold fieldOf? at h
  split at h
  · split at h <;> cases h <;> exact .number _
  · cases h

theorem mem_of_itemAt? {items : List α} {i : Int} {a : α} (h : itemAt? items i = some a) :
    a ∈ items := by
  unfold itemAt? at h
  generalize (if i < 0 then i + items.length else i) = k at h
  dsimp only at h
  split at h
  · cases h
  · exact List.mem_of_getElem? h

end Run

end Orus
