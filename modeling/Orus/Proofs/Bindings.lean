import Orus.Scope.Chain

/-! # What frames hold

Reading a frame after a declaration or an assignment. A frame is read by name, and names
are compared by their keys, so one name may be written in several ways.
-/

namespace Orus

theorem Name.same_iff {a b : Name} : Name.same a b = true ↔ Name.key a = Name.key b :=
  decide_eq_true_iff

theorem Name.same_congr {a b : Name} (h : Name.same a b = true) (c : Name) :
    Name.same a c = Name.same b c := by
  unfold Name.same
  rw [Name.same_iff.1 h]

theorem Name.same_comm (a b : Name) : Name.same a b = Name.same b a := by
  unfold Name.same
  rw [decide_eq_decide]
  exact eq_comm

def Value.isFunction : Value → Bool
  | .builtin _ | .function _ => true
  | _ => false

namespace Frame

@[simp] theorem find?_nil (n : Name) : find? ⟨[]⟩ n = none := rfl

theorem find?_cons (name : Name) (v : Value) (rest : List (Name × Value)) (n : Name) :
    find? ⟨(name, v) :: rest⟩ n = if Name.same name n then some v else find? ⟨rest⟩ n := by
  simp only [find?, List.find?_cons]
  cases Name.same name n <;> rfl

theorem find?_append (bindings more : List (Name × Value)) (n : Name) :
    find? ⟨bindings ++ more⟩ n = (find? ⟨bindings⟩ n).or (find? ⟨more⟩ n) := by
  unfold find?
  rw [List.find?_append, Option.map_or]

theorem declares_eq_isSome (f : Frame) (name : Name) : f.declares name = (f.find? name).isSome := by
  unfold declares find?
  rw [Option.isSome_map, List.isSome_find?]

theorem find?_assign (f : Frame) (name : Name) (v : Value) (n : Name) :
    (f.assign name v).find? n =
      if Name.same name n then (f.find? n).map fun _ => v else f.find? n := by
  rcases f with ⟨bindings⟩
  induction bindings with
  | nil =>
    simp only [assign, List.map_nil, find?_nil, Option.map_none, ite_self]
  | cons binding rest ih =>
    obtain ⟨declared, w⟩ := binding
    have hcons : assign ⟨(declared, w) :: rest⟩ name v =
        ⟨(declared, if Name.same declared name then v else w) ::
          (assign ⟨rest⟩ name v).bindings⟩ := by
      simp only [assign, List.map_cons]
      split <;> rfl
    rw [hcons, find?_cons, find?_cons]
    by_cases hfound : Name.same declared n = true
    · rw [if_pos hfound, if_pos hfound, Name.same_congr hfound, Name.same_comm n name]
      split <;> rfl
    · rw [if_neg hfound, if_neg hfound]
      exact ih

theorem find?_eq_none_iff {f : Frame} {n : Name} : f.find? n = none ↔ f.declares n = false := by
  rw [declares_eq_isSome, Option.isSome_eq_false_iff, Option.isNone_iff_eq_none]

theorem find?_congr {n m : Name} (h : Name.same n m = true) (f : Frame) :
    f.find? n = f.find? m := by
  have hpick : (fun b : Name × Value => Name.same b.1 n) = fun b => Name.same b.1 m := by
    funext b
    rw [Name.same_comm, Name.same_congr h, Name.same_comm]
  exact congrArg (fun pick => (f.bindings.find? pick).map Prod.snd) hpick

theorem declares_congr {n m : Name} (h : Name.same n m = true) (f : Frame) :
    f.declares n = f.declares m := by
  rw [declares_eq_isSome, declares_eq_isSome, find?_congr h]

theorem declares_assign (f : Frame) (n : Name) (v : Value) (m : Name) :
    (f.assign n v).declares m = f.declares m := by
  rw [declares_eq_isSome, declares_eq_isSome, find?_assign]
  split
  · exact Option.isSome_map
  · rfl

theorem find?_concat (f : Frame) (n : Name) (v : Value) (m : Name) :
    find? ⟨f.bindings ++ [(n, v)]⟩ m =
      (f.find? m).or (if Name.same n m = true then some v else none) := by
  rw [find?_append, find?_cons, find?_nil]

/-! ## Frames without repeated names -/

/-- Frames that declare each name once. -/
def IsDistinct (f : Frame) : Prop :=
  f.bindings.Pairwise fun a b => Name.same a.1 b.1 = false

theorem isDistinct_empty : IsDistinct {} :=
  .nil

theorem find?_eq_none {rest : List (Name × Value)} {name n : Name}
    (h : ∀ b ∈ rest, Name.same name b.1 = false) (hn : Name.same name n = true) :
    find? ⟨rest⟩ n = none := by
  refine Option.map_eq_none_iff.2 (List.find?_eq_none.2 fun b hb hsame => ?_)
  have hfalse := h b hb
  rw [Name.same_congr hn, Name.same_comm] at hfalse
  exact Bool.false_ne_true (hfalse.symm.trans hsame)

theorem IsDistinct.declare? {f g : Frame} (h : f.IsDistinct) {name : Name} {v : Value}
    (hg : f.declare? name v = some g) : g.IsDistinct := by
  unfold Frame.declare? at hg
  split at hg
  · cases hg
  next hnew =>
    cases hg
    refine List.pairwise_append.2 ⟨h, List.pairwise_singleton _ _, fun a ha b hb => ?_⟩
    cases List.mem_singleton.1 hb
    exact Bool.eq_false_iff.2 fun hsame => hnew (List.any_eq_true.2 ⟨a, ha, hsame⟩)

theorem IsDistinct.assign {f : Frame} (h : f.IsDistinct) (name : Name) (v : Value) :
    (f.assign name v).IsDistinct := by
  refine List.pairwise_map.2 (h.imp fun {a b} hab => ?_)
  have hname : ∀ c : Name × Value,
      (if Name.same c.1 name then (c.1, v) else (c.1, c.2)).1 = c.1 := by
    intro c
    split <;> rfl
  dsimp only
  rw [hname, hname]
  exact hab

/-- A binding that is not repeated is the one that is found. -/
theorem IsDistinct.find?_eq {f : Frame} (h : f.IsDistinct) {b : Name × Value}
    (hb : b ∈ f.bindings) : f.find? b.1 = some b.2 := by
  rcases f with ⟨bindings⟩
  induction bindings with
  | nil => cases hb
  | cons c rest ih =>
    obtain ⟨hc, hrest⟩ := List.pairwise_cons.1 h
    rw [find?_cons]
    rcases List.mem_cons.1 hb with rfl | hmem
    · rw [if_pos (Name.same_iff.2 rfl)]
    · rw [hc b hmem, if_neg Bool.false_ne_true]
      exact ih hrest hmem

theorem data_eq (f : Frame) : f.data = f.bindings.filter fun b => !b.2.isFunction := by
  unfold data
  refine List.filter_congr fun ⟨_, v⟩ _ => ?_
  cases v <;> rfl

/-- Leaving functions out leaves the values of all other names. -/
theorem IsDistinct.find?_data {f : Frame} (h : f.IsDistinct) (n : Name) :
    find? ⟨f.data⟩ n = (f.find? n).filter fun v => !v.isFunction := by
  rw [data_eq]
  rcases f with ⟨bindings⟩
  induction bindings with
  | nil => rfl
  | cons c rest ih =>
    obtain ⟨hc, hrest⟩ := List.pairwise_cons.1 h
    cases hfunction : c.2.isFunction with
    | false =>
      rw [List.filter_cons_of_pos (by rw [hfunction, Bool.not_false]), find?_cons, find?_cons]
      split
      · rw [Option.filter_some_pos (by rw [hfunction, Bool.not_false])]
      · exact ih hrest
    | true =>
      rw [List.filter_cons_of_neg (by rw [hfunction]; exact Bool.false_ne_true), find?_cons,
        ih hrest]
      split
      next hsame =>
        rw [find?_eq_none hc hsame, Option.filter_some_neg (by rw [hfunction, Bool.not_true])]
        rfl
      · rfl

end Frame

end Orus
