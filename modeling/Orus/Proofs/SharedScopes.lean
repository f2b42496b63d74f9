import Orus.Proofs.Isolation
import Orus.Proofs.ScopeChanges
import Orus.Proofs.ScopeTrees

/-! # Chains as views of a tree

A run keeps the frames in reach as a chain and sets the scopes of a caller aside while a call
runs. A tree of scopes needs neither: its first two scopes hold the builtins and the globals, a
block opens a scope below the current one, a call opens one below the globals, and leaving them
changes nothing in the tree. The chain of a run is at each point what is seen from the current
scope of the tree in which the same was done. In particular the scopes that a call gives back
to its caller are the ones that the tree has there.
-/

namespace Orus

variable {t t' t'' : ScopeTree} {s i : Nat} {n : Name} {v : Value} {c d : Chain}

namespace ScopeTree

/-! ## Ways to the root -/

theorem path_of_parent? (ht : t.IsOrdered) {p : Nat} (hparent : t.parent? s = some p) :
    t.path s = s :: t.path p := by
  have hs : s < t.scopes.size := by
    refine Nat.lt_of_not_le fun hs => ?_
    rw [parent?, Array.getElem?_eq_none hs] at hparent
    cases hparent
  rw [path_eq ht hs, hparent, Option.elim_some]

theorem path_of_size_le (hs : t.scopes.size ≤ s) : t.path s = [] :=
  pathFrom_of_size_le hs _

theorem lt_size_of_mem_path (h : i ∈ t.path s) : s < t.scopes.size := by
  refine Nat.lt_of_not_le fun hs => ?_
  rw [path_of_size_le hs] at h
  cases h

theorem le_of_mem_path (ht : t.IsOrdered) (h : i ∈ t.path s) : i ≤ s := by
  induction s using Nat.strongRecOn with
  | ind s ih =>
    rw [path_eq ht (lt_size_of_mem_path h)] at h
    obtain rfl | h := List.mem_cons.1 h
    · exact Nat.le_refl i
    · cases hparent : t.parent? s with
      | none =>
        rw [hparent] at h
        cases h
      | some p =>
        rw [hparent] at h
        have hlt := ht hparent
        exact Nat.le_trans (ih p hlt h) (Nat.le_of_lt hlt)

/-- No scope is met twice on the way to the root. -/
theorem nodup_path (ht : t.IsOrdered) (s : Nat) : (t.path s).Nodup := by
  induction s using Nat.strongRecOn with
  | ind s ih =>
    obtain hs | hs := Nat.lt_or_ge s t.scopes.size
    · rw [path_eq ht hs]
      cases hparent : t.parent? s with
      | none => exact List.nodup_cons.2 ⟨nofun, List.nodup_nil⟩
      | some p =>
        have hlt := ht hparent
        refine List.nodup_cons.2 ⟨fun hmem => ?_, ih p hlt⟩
        exact Nat.not_lt.2 (le_of_mem_path ht hmem) hlt
    · rw [path_of_size_le hs]
      exact List.nodup_nil

/-! ## Later trees -/

/-- A later tree: no scope has moved, and of the frames only those of some scopes have
changed. -/
structure Extends (t t' : ScopeTree) (changed : List Nat) : Prop where
  ordered : t'.IsOrdered
  size : t.scopes.size ≤ t'.scopes.size
  parent? : ∀ i < t.scopes.size, t'.parent? i = t.parent? i
  frame : ∀ i < t.scopes.size, i ∉ changed → t'.frame i = t.frame i

variable {changed : List Nat}

theorem extends_refl (ht : t.IsOrdered) : t.Extends t changed :=
  ⟨ht, Nat.le_refl _, fun _ _ => rfl, fun _ _ _ => rfl⟩

theorem Extends.trans (h : t.Extends t' changed) (h' : t'.Extends t'' changed) :
    t.Extends t'' changed where
  ordered := h'.ordered
  size := Nat.le_trans h.size h'.size
  parent? i hi := (h'.parent? i (Nat.lt_of_lt_of_le hi h.size)).trans (h.parent? i hi)
  frame i hi hnot := (h'.frame i (Nat.lt_of_lt_of_le hi h.size) hnot).trans (h.frame i hi hnot)

theorem Extends.path_eq (h : t.Extends t' changed) (ht : t.IsOrdered) (hs : s < t.scopes.size) :
    t'.path s = t.path s := by
  induction s using Nat.strongRecOn with
  | ind s ih =>
    rw [ScopeTree.path_eq ht hs, ScopeTree.path_eq h.ordered (Nat.lt_of_lt_of_le hs h.size),
      h.parent? s hs]
    cases hparent : t.parent? s with
    | none => rfl
    | some p =>
      have hlt := ht hparent
      rw [Option.elim_some, Option.elim_some, ih p hlt (Nat.lt_trans hlt hs)]

theorem extends_setFrame (ht : t.IsOrdered) {a : Nat} (ha : a ∈ changed)
    (hsize : a < t.scopes.size) (f : Frame) : t.Extends (t.setFrame a f) changed where
  ordered := ht.of_parent? (parent?_setFrame t a f)
  size := Nat.le_of_eq (Array.size_modify ..).symm
  parent? i _ := parent?_setFrame t a f i
  frame i _ hnot := by
    rw [frame_setFrame hsize, if_neg]
    rintro rfl
    exact hnot ha

theorem frame_child (t : ScopeTree) (s i : Nat) : (t.child s).frame i = t.frame i := by
  unfold frame child
  simp only [Array.getElem?_push]
  by_cases h : i = t.scopes.size
  · rw [if_pos h, h, Array.getElem?_eq_none (Nat.le_refl _)]
  · rw [if_neg h]

theorem extends_child (ht : t.IsOrdered) (hs : s < t.scopes.size) :
    t.Extends (t.child s) changed where
  ordered := ht.child hs
  size := by
    rw [child, Array.size_push]
    exact Nat.le_succ _
  parent? i hi := by
    rw [parent?_child, if_neg (Nat.ne_of_lt hi)]
  frame i _ _ := frame_child t s i

theorem path_child (ht : t.IsOrdered) (hs : s < t.scopes.size) :
    (t.child s).path t.scopes.size = t.scopes.size :: t.path s := by
  have hextends : t.Extends (t.child s) [] := extends_child ht hs
  rw [path_of_parent? hextends.ordered ((parent?_child t s _).trans (if_pos rfl)),
    hextends.path_eq ht hs]

/-! ## Views -/

/-- The frames of some scopes, from the inside out, with the globals and the builtins around
them. -/
def chain (t : ScopeTree) (own : List Nat) : Chain :=
  ⟨own.map t.frame, t.frame 1, t.frame 0⟩

/-- A chain is what is seen from a scope of a tree whose first two scopes are those of the
builtins and the globals. -/
structure Shows (t : ScopeTree) (s : Nat) (c : Chain) : Prop where
  ordered : t.IsOrdered
  roots : t.path 1 = [1, 0]
  view : ∃ own, t.path s = own ++ [1, 0] ∧ c = t.chain own

def start : ScopeTree :=
  ⟨#[⟨none, Chain.initial.builtins⟩, ⟨some 0, {}⟩]⟩

theorem shows_start : start.Shows 1 .initial where
  ordered := by
    rintro (_ | _ | s) p h <;> cases h
    exact Nat.zero_lt_one
  roots := rfl
  view := ⟨[], rfl, rfl⟩

theorem frames_chain (t : ScopeTree) (own : List Nat) :
    (t.chain own).frames = (own ++ [1, 0]).map t.frame := by
  rw [List.map_append]
  rfl

theorem findSome?_find? (t : ScopeTree) (n : Name) (is : List Nat) :
    is.findSome? (fun i => (t.frame i).find? n) =
      (is.find? fun i => (t.frame i).declares n).bind fun i => (t.frame i).find? n := by
  induction is with
  | nil => rfl
  | cons i is ih =>
    rw [List.findSome?_cons, List.find?_cons, Frame.declares_eq_isSome]
    cases hfind : (t.frame i).find? n with
    | none => exact ih
    | some w => exact hfind.symm

theorem map_frame_setFrame {a : Nat} {own : List Nat} (hsize : a < t.scopes.size)
    (ha : a ∉ own) (f : Frame) : own.map (t.setFrame a f).frame = own.map t.frame := by
  refine List.map_congr_left fun i hi => ?_
  rw [frame_setFrame hsize, if_neg]
  rintro rfl
  exact ha hi

namespace Shows

variable (h : t.Shows s c)
include h

theorem lt_size : s < t.scopes.size := by
  obtain ⟨own, hpath, -⟩ := h.view
  exact lt_size_of_mem_path (i := 0) (by simp [hpath])

theorem one_lt_size : 1 < t.scopes.size :=
  lt_size_of_mem_path (i := 0) (by simp [h.roots])

theorem lookup?_eq (n : Name) : c.lookup? n = t.lookup? s n := by
  obtain ⟨own, hpath, rfl⟩ := h.view
  unfold Chain.lookup? lookup? owner?
  rw [frames_chain, hpath, List.findSome?_map]
  exact findSome?_find? t n _

theorem of_extends {changed : List Nat} (hextends : t.Extends t' changed) {own : List Nat}
    (hown : t.path s = own ++ [1, 0]) (hd : d = t'.chain own) : t'.Shows s d where
  ordered := hextends.ordered
  roots := (hextends.path_eq h.ordered h.one_lt_size).trans h.roots
  view := ⟨own, (hextends.path_eq h.ordered h.lt_size).trans hown, hd⟩

end Shows

theorem declare?_chain (n : Name) (v : Value) {own : List Nat} (hnodup : (own ++ [1, 0]).Nodup)
    (hsize : ∀ i ∈ own ++ [1, 0], i < t.scopes.size) (hhead : (own ++ [1, 0]).head? = some s) :
    (t.chain own).declare? n v =
      ((t.frame s).declare? n v).map fun f => (t.setFrame s f).chain own := by
  have hframe (f : Frame) (i : Nat) :
      (t.setFrame s f).frame i = if s = i then f else t.frame i :=
    frame_setFrame (hsize s (List.mem_of_head? hhead)) f i
  cases own with
  | nil =>
    cases hhead
    change ((t.frame 1).declare? n v).map _ = _
    cases (t.frame 1).declare? n v with
    | none => rfl
    | some f => simp [chain, hframe]
  | cons top rest =>
    obtain rfl : top = s := Option.some.inj hhead
    have hrest : top ∉ rest ∧ top ≠ 1 ∧ top ≠ 0 := by simpa using (List.nodup_cons.1 hnodup).1
    change ((t.frame top).declare? n v).map _ = _
    cases (t.frame top).declare? n v with
    | none => rfl
    | some f =>
      simp [chain, hframe, map_frame_setFrame (hsize top List.mem_cons_self) hrest.1, hrest.2]

theorem assignIn?_map_frame (n : Name) (v : Value) {own : List Nat} (hown : own.Nodup)
    (hsize : ∀ i ∈ own, i < t.scopes.size) :
    Chain.assignIn? n v (own.map t.frame) =
      (own.find? fun i => (t.frame i).declares n).map fun a =>
        own.map (t.assigned a n v).frame := by
  induction own with
  | nil => rfl
  | cons i rest ih =>
    obtain ⟨hi, hrest⟩ := List.nodup_cons.1 hown
    obtain ⟨hisize, hrestsize⟩ := List.forall_mem_cons.1 hsize
    rw [List.map_cons, Chain.assignIn?, List.find?_cons]
    cases (t.frame i).declares n with
    | true =>
      rw [if_pos rfl, Option.map_some, List.map_cons, frame_assigned hisize, if_pos rfl]
      exact congrArg some (congrArg _ (map_frame_setFrame hisize hi _).symm)
    | false =>
      rw [if_neg Bool.false_ne_true, ih hrest hrestsize]
      cases hfind : rest.find? fun i => (t.frame i).declares n with
      | none => rfl
      | some a =>
        have ha := List.mem_of_find?_eq_some hfind
        simp only [Option.map_some, List.map_cons, frame_assigned (hrestsize a ha)]
        rw [if_neg]
        rintro rfl
        exact hi ha

theorem assign?_chain (n : Name) (v : Value) {own : List Nat} (hnodup : (own ++ [1, 0]).Nodup)
    (hsize : ∀ i ∈ own ++ [1, 0], i < t.scopes.size) :
    (t.chain own).assign? n v =
      ((own ++ [1, 0]).find? fun i => (t.frame i).declares n).map fun a =>
        (t.assigned a n v).chain own := by
  obtain ⟨hown, -, hroots⟩ := List.nodup_append.1 hnodup
  have hkept {a : Nat} (ha : a ∈ [1, 0]) : own.map (t.assigned a n v).frame = own.map t.frame :=
    map_frame_setFrame (hsize a (List.mem_append_right own ha)) (fun h => hroots a h a ha rfl) _
  have hframe {a : Nat} (ha : a ∈ own ++ [1, 0]) (i : Nat) :
      (t.assigned a n v).frame i = if a = i then (t.frame a).assign n v else t.frame i :=
    frame_assigned (hsize a ha) n v i
  have hlocals : (t.chain own).locals = own.map t.frame := rfl
  unfold Chain.assign?
  rw [hlocals, assignIn?_map_frame n v hown fun i hi => hsize i (List.mem_append_left _ hi),
    List.find?_append]
  cases hfind : own.find? fun i => (t.frame i).declares n with
  | some a =>
    have ha := List.mem_of_find?_eq_some hfind
    have hone : a ≠ 1 := hroots a ha 1 (by simp)
    have hzero : a ≠ 0 := hroots a ha 0 (by simp)
    simp [chain, hframe (List.mem_append_left _ ha), hone, hzero]
  | none =>
    change (if (t.frame 1).declares n = true then _ else
      if (t.frame 0).declares n = true then _ else _) = _
    cases hglobal : (t.frame 1).declares n with
    | true => simp [chain, hkept, hframe, hglobal]
    | false =>
      cases hbuiltin : (t.frame 0).declares n with
      | true => simp [chain, hkept, hframe, hglobal, hbuiltin]
      | false => simp [hglobal, hbuiltin]

namespace Shows

variable (h : t.Shows s c)
include h

theorem lt_size_of_mem {i : Nat} (hi : i ∈ t.path s) : i < t.scopes.size :=
  Nat.lt_of_le_of_lt (le_of_mem_path h.ordered hi) h.lt_size

theorem declare? (n : Name) (v : Value) :
    Option.Rel (fun t' d => t'.Shows s d ∧ t.Extends t' (t.path s))
      (t.declare s n v).toOption (c.declare? n v) := by
  have hpathsize (i : Nat) (hi : i ∈ t.path s) : i < t.scopes.size := h.lt_size_of_mem hi
  have hself := path_eq h.ordered h.lt_size
  have hs : s ∈ t.path s := hself ▸ List.mem_cons_self
  obtain ⟨own, hpath, rfl⟩ := h.view
  have hhead : (own ++ [1, 0]).head? = some s := by rw [← hpath, hself, List.head?_cons]
  rw [declare?_chain n v (hpath ▸ nodup_path h.ordered s) (hpath ▸ hpathsize) hhead]
  unfold ScopeTree.declare
  cases (t.frame s).declare? n v with
  | none => exact .none
  | some f =>
    have hset : t.Extends (t.setFrame s f) (t.path s) :=
      extends_setFrame h.ordered hs (hpathsize s hs) f
    exact .some ⟨h.of_extends hset hpath rfl, hset⟩

theorem assign? (n : Name) (v : Value) :
    Option.Rel (fun t' d => t'.Shows s d ∧ t.Extends t' (t.path s))
      (t.set s n v).toOption (c.assign? n v) := by
  have hpathsize (i : Nat) (hi : i ∈ t.path s) : i < t.scopes.size := h.lt_size_of_mem hi
  obtain ⟨own, hpath, rfl⟩ := h.view
  have hassign : (t.chain own).assign? n v =
      (t.owner? s n).map fun a => (t.assigned a n v).chain own := by
    unfold owner?
    rw [hpath]
    exact assign?_chain n v (hpath ▸ nodup_path h.ordered s) (hpath ▸ hpathsize)
  rw [hassign]
  unfold ScopeTree.set
  cases howner : t.owner? s n with
  | none => exact .none
  | some a =>
    have ha : a ∈ t.path s := List.mem_of_find?_eq_some howner
    have hset : t.Extends (t.assigned a n v) (t.path s) :=
      extends_setFrame h.ordered ha (hpathsize a ha) _
    exact .some ⟨h.of_extends hset hpath rfl, hset⟩

end Shows

/-! ## Opening and leaving scopes -/

theorem size_child (t : ScopeTree) (s : Nat) : (t.child s).scopes.size = t.scopes.size + 1 :=
  Array.size_push _

theorem frame_size (t : ScopeTree) : t.frame t.scopes.size = {} := by
  rw [frame, Array.getElem?_eq_none (Nat.le_refl _)]

theorem lt_size_child (hi : i ≤ t.scopes.size) (s : Nat) : i < (t.child s).scopes.size := by
  rw [size_child]
  exact Nat.lt_succ_of_le hi

theorem Extends.of_child (h : (t.child s).Extends t' (t.scopes.size :: changed)) :
    t.Extends t' changed where
  ordered := h.ordered
  size := Nat.le_trans (Nat.le_of_lt (lt_size_child (Nat.le_refl _) s)) h.size
  parent? i hi := by
    rw [h.parent? i (lt_size_child (Nat.le_of_lt hi) s), parent?_child, if_neg (Nat.ne_of_lt hi)]
  frame i hi hnot := by
    rw [h.frame i (lt_size_child (Nat.le_of_lt hi) s), frame_child]
    rw [List.mem_cons, not_or]
    exact ⟨Nat.ne_of_lt hi, hnot⟩

theorem Extends.mono {more : List Nat} (h : t.Extends t' changed) (hmore : changed ⊆ more) :
    t.Extends t' more :=
  { h with frame := fun i hi hnot => h.frame i hi fun hi => hnot (hmore hi) }

theorem chain_child (t : ScopeTree) (s : Nat) (own : List Nat) :
    (t.child s).chain own = t.chain own := by
  have hframes : (t.child s).frame = t.frame := funext (frame_child t s)
  rw [chain, hframes, chain]

namespace Shows

variable (h : t.Shows s c)
include h

theorem child {p : Nat} (hp : p < t.scopes.size) {own : List Nat}
    (hown : t.path p = own ++ [1, 0]) :
    (t.child p).Shows t.scopes.size (t.chain (t.scopes.size :: own)) where
  ordered := h.ordered.child hp
  roots := by
    have hextends : t.Extends (t.child p) [] := extends_child h.ordered hp
    exact (hextends.path_eq h.ordered h.one_lt_size).trans h.roots
  view := ⟨t.scopes.size :: own, by rw [path_child h.ordered hp, hown]; rfl,
    (chain_child t p _).symm⟩

theorem pushed : (t.child s).Shows t.scopes.size (c.push {}) := by
  have hsize := h.lt_size
  obtain ⟨own, hpath, rfl⟩ := h.view
  have hchild := h.child hsize hpath
  rwa [chain, List.map_cons, frame_size] at hchild

theorem entered : (t.child 1).Shows t.scopes.size { c with locals := [{}] } := by
  have hone := h.one_lt_size
  obtain ⟨own, hpath, rfl⟩ := h.view
  have hroots : t.path 1 = [] ++ [1, 0] := h.roots
  have hchild := h.child hone hroots
  rwa [chain, List.map_cons, frame_size] at hchild

/-- After a block the chain without its innermost scope is what is seen from the scope around
the block. -/
theorem closed (hinner : t'.Shows t.scopes.size d)
    (hextends : (t.child s).Extends t' (t.scopes.size :: t.path s)) :
    t'.Shows s d.pop ∧ t.Extends t' (t.path s) := by
  have hsize := h.lt_size
  obtain ⟨own, hpath, -⟩ := h.view
  obtain ⟨inner, hinnerpath, rfl⟩ := hinner.view
  rw [hextends.path_eq (h.ordered.child hsize) (lt_size_child (Nat.le_refl _) s),
    path_child h.ordered hsize, hpath] at hinnerpath
  obtain rfl : t.scopes.size :: own = inner := List.append_cancel_right hinnerpath
  exact ⟨h.of_extends hextends.of_child hpath rfl, hextends.of_child⟩

/-- After a call the chain with the caller's scopes is what is seen from the scope of the
caller: nothing has changed in these scopes. -/
theorem returned (hinner : t'.Shows t.scopes.size d)
    (hextends : (t.child 1).Extends t' (t.scopes.size :: [1, 0])) :
    t'.Shows s { d with locals := c.locals } ∧ t.Extends t' [1, 0] := by
  have hlater := hextends.of_child
  have hnodup := nodup_path h.ordered s
  have hsize (i : Nat) (hi : i ∈ t.path s) : i < t.scopes.size := h.lt_size_of_mem hi
  obtain ⟨own, hpath, rfl⟩ := h.view
  obtain ⟨inner, -, rfl⟩ := hinner.view
  rw [hpath] at hnodup hsize
  have hown : own.map t.frame = own.map t'.frame := by
    refine List.map_congr_left fun i hi =>
      (hlater.frame i (hsize i (List.mem_append_left _ hi)) fun hroot => ?_).symm
    exact (List.nodup_append.1 hnodup).2.2 i hi i hroot rfl
  exact ⟨h.of_extends hlater hpath (congrArg (Chain.mk · _ _) hown), hlater⟩

end Shows

end ScopeTree

/-! ## Work on scopes -/

/-- What an evaluation does to scopes, without the values that it computes. -/
inductive ScopeWork where
  | nothing
  | declare (name : Name) (value : Value)
  | assign (name : Name) (value : Value)
  | andThen (first second : ScopeWork)
  | block (inside : ScopeWork)
  | call (inside : ScopeWork)

namespace ScopeWork

/-- Done to a chain, which sets the caller's scopes aside during a call. What fails is left
out. -/
def onChain : ScopeWork → Chain → Chain
  | nothing, c => c
  | declare name value, c => (c.declare? name value).getD c
  | assign name value, c => (c.assign? name value).getD c
  | andThen first second, c => second.onChain (first.onChain c)
  | block inside, c => (inside.onChain (c.push {})).pop
  | call inside, c => { inside.onChain { c with locals := [{}] } with locals := c.locals }

/-- Done in a scope of a tree, in which blocks and calls leave their scopes behind. -/
def onTree : ScopeWork → Nat → ScopeTree → ScopeTree
  | nothing, _, t => t
  | declare name value, s, t => t.after (.declare s name value)
  | assign name value, s, t => t.after (.set s name value)
  | andThen first second, s, t => second.onTree s (first.onTree s t)
  | block inside, s, t => inside.onTree t.scopes.size (t.child s)
  | call inside, _, t => inside.onTree t.scopes.size (t.child 1)

end ScopeWork

namespace ScopeTree.Shows

theorem after (h : t.Shows s c) {r : Except Error ScopeTree} {found : Option Chain}
    (hstep : Option.Rel (fun t' d => t'.Shows s d ∧ t.Extends t' (t.path s)) r.toOption found)
    {step : Step} (htake : t.take step = r) :
    (t.after step).Shows s (found.getD c) ∧ t.Extends (t.after step) (t.path s) := by
  subst htake
  unfold ScopeTree.after
  cases htake : t.take step with
  | ok t' =>
    rw [htake] at hstep
    cases hstep with
    | some hshown => exact hshown
  | error e =>
    rw [htake] at hstep
    cases hstep with
    | none => exact ⟨h, extends_refl h.ordered⟩

/-- A chain stays what is seen from its scope of a tree while the same is done to both, and
only scopes on the way from there to the root have changed. -/
theorem work (w : ScopeWork) (h : t.Shows s c) :
    (w.onTree s t).Shows s (w.onChain c) ∧ t.Extends (w.onTree s t) (t.path s) := by
  induction w generalizing t s c with
  | nothing => exact ⟨h, extends_refl h.ordered⟩
  | declare name value => exact h.after (h.declare? name value) rfl
  | assign name value => exact h.after (h.assign? name value) rfl
  | andThen first second ihfirst ihsecond =>
    obtain ⟨hfirst, hextends⟩ := ihfirst h
    obtain ⟨hsecond, hmore⟩ := ihsecond hfirst
    rw [hextends.path_eq h.ordered h.lt_size] at hmore
    exact ⟨hsecond, hextends.trans hmore⟩
  | block inside ih =>
    obtain ⟨hinner, hextends⟩ := ih h.pushed
    rw [path_child h.ordered h.lt_size] at hextends
    exact h.closed hinner hextends
  | call inside ih =>
    obtain ⟨hinner, hextends⟩ := ih h.entered
    rw [path_child h.ordered h.one_lt_size, h.roots] at hextends
    obtain ⟨hreturned, hlater⟩ := h.returned hinner hextends
    obtain ⟨own, hpath, -⟩ := h.view
    exact ⟨hreturned, hlater.mono (hpath ▸ List.subset_append_right own [1, 0])⟩

/-- A call changes no scope of a tree but the globals and the builtins. -/
theorem frame_call (w : ScopeWork) (h : t.Shows s c) (hi : i < t.scopes.size) (hroot : 1 < i) :
    ((w.call).onTree s t).frame i = t.frame i := by
  obtain ⟨hinner, hextends⟩ := h.entered.work w
  rw [path_child h.ordered h.one_lt_size, h.roots] at hextends
  refine hextends.of_child.frame i hi fun hmem => ?_
  simp only [List.mem_cons, List.not_mem_nil, or_false] at hmem
  omega

end ScopeTree.Shows

namespace Run

variable {α β : Type}

/-! ## Evaluations as work -/

def Worked (c d : Chain) : Prop :=
  ∃ w : ScopeWork, d = w.onChain c

theorem isScopeOrder_worked : IsScopeOrder Worked where
  refl _ := ⟨.nothing, rfl⟩
  trans := by
    rintro c _ _ ⟨w, rfl⟩ ⟨w', rfl⟩
    exact ⟨.andThen w w', rfl⟩

theorem isScoping_worked : IsScoping Worked Worked where
  outer := isScopeOrder_worked
  inner := isScopeOrder_worked
  le := id
  assign name v c d h := ⟨.assign name v, by rw [ScopeWork.onChain, h, Option.getD_some]⟩
  declare name v c d h := ⟨.declare name v, by rw [ScopeWork.onChain, h, Option.getD_some]⟩
  closed := by
    rintro c _ ⟨w, rfl⟩
    exact ⟨.block w, rfl⟩
  returned := by
    rintro c _ ⟨w, rfl⟩
    exact ⟨.call w, rfl⟩

theorem worked_ofDepth (cfg : Config) (n : Nat) :
    EvaluatorHas (fun c => Changes Worked (c ())) (fun c => Changes Worked (c ()))
      fun _ : Unit => .ofDepth cfg n := by
  refine .ofBlocks (isScoping_worked.blockwise cfg) ?_ n
  constructor <;> intros <;> exact isScopeOrder_worked.changes_throw _

/-- Some work in the scopes, after which `main` may have opened its own and worked in it. -/
def WorkedToMain (c d : Chain) : Prop :=
  ∃ e, Worked c e ∧ (d = e ∨ Worked (e.push {}) d)

theorem Changes.toMain {c : Eval α} (h : Changes Worked c) : Changes WorkedToMain c :=
  fun s => ⟨_, h s, .inl rfl⟩

theorem Changes.thenToMain {c : Eval α} {k : α → Eval β} (hc : Changes Worked c)
    (hk : ∀ a, Changes WorkedToMain (k a)) : Changes WorkedToMain (c >>= k) := by
  refine hc.bind (fun _ d h => ⟨d, h, .inl rfl⟩) ?_ hk
  rintro c d e hd ⟨f, hf, hend⟩
  exact ⟨f, isScopeOrder_worked.trans hd hf, hend⟩

theorem changes_runMain (cfg : Config) (n : Nat) (main : Node) :
    Changes (fun c d => Worked (c.push {}) d) (runMain (.ofDepth cfg n) main) := by
  have hblocks := isScoping_worked.blockwise cfg n
  have hbody : Changes Worked (do
      let body ← need main.body?
      (← need body.statements?).forM (Evaluator.ofDepth cfg n).exec) :=
    isScopeOrder_worked.changes_bind (hblocks.need main.body?) fun body =>
      isScopeOrder_worked.changes_bind (hblocks.need body.statements?) fun statements =>
        hblocks.forM (f := fun _ => (Evaluator.ofDepth cfg n).exec) statements fun node _ =>
          (worked_ofDepth cfg n).exec node
  exact fun s => hbody s.scoped

theorem changes_runDeclared (cfg : Config) (n : Nat) (globals : List Node) (main : Option Node) :
    Changes WorkedToMain (runDeclared (.ofDepth cfg n) globals main) := by
  have hblocks := isScoping_worked.blockwise cfg n
  have hglobals : Changes Worked (globals.forM (Evaluator.ofDepth cfg n).exec) :=
    hblocks.forM (f := fun _ => (Evaluator.ofDepth cfg n).exec) globals fun node _ =>
      (worked_ofDepth cfg n).exec node
  refine hglobals.thenToMain fun _ => ?_
  cases main with
  | none => exact (isScopeOrder_worked.changes_throw _).toMain
  | some main =>
    refine Changes.thenToMain (hblocks.need main.params?) fun params => ?_
    split
    · intro s
      rw [endState_catchReturn]
      exact ⟨s.scopes, isScopeOrder_worked.refl _, .inr (changes_runMain cfg n main s)⟩
    · exact (isScopeOrder_worked.changes_throw _).toMain

theorem changes_runProgram (cfg : Config) (n : Nat) (program : Node) :
    Changes WorkedToMain (runProgram (.ofDepth cfg n) program) := by
  have hblocks := isScoping_worked.blockwise cfg n
  cases program with
  | program functions globals length mark =>
    rw [runProgram_eq]
    exact Changes.thenToMain (hblocks.declareFunctions functions) fun _ =>
      changes_runDeclared cfg n globals _
  | _ => exact (isScopeOrder_worked.changes_throw _).toMain

/-! ## Runs in trees -/

/-- What a statement does to the chain is some work on scopes. Done in any tree that shows the
chain it leaves what the statement leaves to be seen, and it changes no scopes but those on the
way to the root. -/
theorem exec_shared (cfg : Config) (n : Nat) (node : Node) (s : State) :
    ∃ w : ScopeWork, ∀ (t : ScopeTree) (i : Nat), t.Shows i s.scopes →
      (w.onTree i t).Shows i (endState ((Evaluator.ofDepth cfg n).exec node s)).scopes ∧
      t.Extends (w.onTree i t) (t.path i) := by
  obtain ⟨w, hw⟩ := (worked_ofDepth cfg n).exec node s
  exact ⟨w, fun t i h => ⟨hw ▸ (h.work w).1, (h.work w).2⟩⟩

/-- After a call the caller has the scopes that are seen from its scope of a tree, in which
nothing is set aside: the call has changed no scope there but the globals and the builtins. -/
theorem call_shared (cfg : Config) (n : Nat) (decl : Node) (args : List Value)
    (mark : Option Mark) (s : State) :
    let after := endState ((Evaluator.ofDepth cfg n).callFunction decl args mark s)
    ∃ w : ScopeWork, ∀ (t : ScopeTree) (i : Nat), t.Shows i s.scopes →
      (w.onTree i t).Shows i after.scopes ∧
      ∀ j < t.scopes.size, 1 < j → (w.onTree i t).frame j = t.frame j := by
  intro after
  rcases callFunction_cases (.ofDepth cfg n) decl args mark with ⟨stop, hcall⟩ | ⟨params, hcall⟩
  · refine ⟨.nothing, fun t i h => ⟨?_, fun _ _ _ => rfl⟩⟩
    simp only [after, hcall]
    exact h
  · obtain ⟨w, hw⟩ := (worked_ofDepth cfg n).enter decl params args s.entered
    have hafter : after.scopes = (ScopeWork.call w).onChain s.scopes := by
      simp only [after, hcall, endState_inCall]
      exact congrArg (fun d : Chain => { d with locals := s.scopes.locals }) hw
    exact ⟨.call w, fun t i h =>
      ⟨hafter ▸ (h.work (.call w)).1, fun j hsize hj => h.frame_call w hsize hj⟩⟩

/-- A run starts and ends with what is seen in a tree: from the globals, or from the scope of
`main` below them once it is open. -/
theorem execute_shared (cfg : Config) (n : Nat) (program : Node) :
    let after := (endState (execute cfg n program)).scopes
    ∃ w : ScopeWork, let t := w.onTree 1 .start
      t.Shows 1 after ∨ ∃ w' : ScopeWork,
        (w'.onTree t.scopes.size (t.child 1)).Shows t.scopes.size after := by
  intro after
  obtain ⟨_, ⟨w, rfl⟩, hend⟩ := changes_runProgram cfg n program {}
  have hshown := (ScopeTree.shows_start.work w).1
  refine ⟨w, ?_⟩
  obtain hunopened | ⟨w', hopened⟩ := hend
  · have hafter : after = w.onChain .initial := hunopened
    exact .inl (hafter ▸ hshown)
  · have hafter : after = w'.onChain ((w.onChain .initial).push {}) := hopened
    exact .inr ⟨w', hafter ▸ (hshown.pushed.work w').1⟩

end Run

end Orus
