import Orus.Proofs.Bindings
import Orus.Scope.Tree

/-! # Trees of scopes as stores

What a scope sees of a name is decided by the nearest scope on its way to the root that declares
the name. A write is seen from exactly the scopes that have the same nearest scope, and a
declaration from the scope itself and from those below it whose way up meets no other
declaration of the name. This holds of every tree that grows from a root by opening scopes,
declaring and writing, in any order and from any scope, since parents are older than what is
below them and no step moves a scope.
-/

namespace Orus

namespace ScopeTree

variable {t t' : ScopeTree} {s a i p : Nat} {n m : Name} {v : Value}

/-! ## Ways up a tree -/

def parent? (t : ScopeTree) (s : Nat) : Option Nat :=
  t.scopes[s]?.bind TreeScope.parent

inductive IsAbove (t : ScopeTree) (a : Nat) : Nat → Prop where
  | here : IsAbove t a a
  | up {s p : Nat} : t.parent? s = some p → IsAbove t a p → IsAbove t a s

/-- A scope is the given one or one above it, and no scope before it on the way up declares
the name. -/
inductive IsClear (t : ScopeTree) (name : Name) (a : Nat) : Nat → Prop where
  | here : IsClear t name a a
  | up {s p : Nat} : (t.frame s).declares name = false → t.parent? s = some p →
      IsClear t name a p → IsClear t name a s

/-- A scope is the nearest one on the way up from the given one that declares the name. -/
def IsNearest (t : ScopeTree) (name : Name) (a s : Nat) : Prop :=
  t.IsClear name a s ∧ (t.frame a).declares name = true

theorem IsClear.isAbove (h : t.IsClear n a s) : t.IsAbove a s := by
  induction h with
  | here => exact .here
  | up _ hparent _ ih => exact .up hparent ih

/-! ## Growing trees -/

inductive Step where
  | child (s : Nat)
  | declare (s : Nat) (name : Name) (value : Value)
  | set (s : Nat) (name : Name) (value : Value)

def Step.scope : Step → Nat
  | child s | declare s _ _ | set s _ _ => s

def take (t : ScopeTree) : Step → Except Error ScopeTree
  | .child s => .ok (t.child s)
  | .declare s name value => t.declare s name value
  | .set s name value => t.set s name value

def after (t : ScopeTree) (step : Step) : ScopeTree :=
  match t.take step with
  | .ok t' => t'
  | .error _ => t

/-- Trees that grow from a root by steps in their scopes, some of which may fail. -/
inductive IsGrown : ScopeTree → Prop where
  | root : IsGrown root
  | step {t : ScopeTree} {step : Step} : IsGrown t → step.scope < t.scopes.size →
      IsGrown (t.after step)

/-- Trees in which parents are older than what is below them. -/
def IsOrdered (t : ScopeTree) : Prop :=
  ∀ ⦃s p : Nat⦄, t.parent? s = some p → p < s

/-! ## What steps leave -/

theorem declares_frame_lt (h : (t.frame s).declares n = true) : s < t.scopes.size := by
  refine Nat.lt_of_not_le fun hs => ?_
  rw [frame, Array.getElem?_eq_none hs] at h
  cases h

def declared (t : ScopeTree) (s : Nat) (name : Name) (value : Value) : ScopeTree :=
  t.setFrame s ⟨(t.frame s).bindings ++ [(name, value)]⟩

def assigned (t : ScopeTree) (s : Nat) (name : Name) (value : Value) : ScopeTree :=
  t.setFrame s ((t.frame s).assign name value)

theorem parent?_setFrame (t : ScopeTree) (i : Nat) (f : Frame) (s : Nat) :
    (t.setFrame i f).parent? s = t.parent? s := by
  unfold parent? setFrame
  rw [Array.getElem?_modify]
  split
  · cases t.scopes[s]? <;> rfl
  · rfl

theorem frame_setFrame (hi : i < t.scopes.size) (f : Frame) (s : Nat) :
    (t.setFrame i f).frame s = if i = s then f else t.frame s := by
  unfold frame setFrame
  simp only [Array.getElem?_modify]
  by_cases h : i = s
  · subst h
    rw [if_pos rfl, if_pos rfl, Array.getElem?_eq_getElem hi]
    rfl
  · rw [if_neg h, if_neg h]

@[simp] theorem parent?_declared (t : ScopeTree) (s : Nat) (n : Name) (v : Value) (i : Nat) :
    (t.declared s n v).parent? i = t.parent? i :=
  parent?_setFrame _ _ _ _

@[simp] theorem parent?_assigned (t : ScopeTree) (s : Nat) (n : Name) (v : Value) (i : Nat) :
    (t.assigned s n v).parent? i = t.parent? i :=
  parent?_setFrame _ _ _ _

theorem frame_assigned (ha : a < t.scopes.size) (n : Name) (v : Value) (i : Nat) :
    (t.assigned a n v).frame i = if a = i then (t.frame a).assign n v else t.frame i :=
  frame_setFrame ha _ i

theorem frame_declared_self (hs : s < t.scopes.size) (n : Name) (v : Value) :
    (t.declared s n v).frame s = ⟨(t.frame s).bindings ++ [(n, v)]⟩ :=
  (frame_setFrame hs _ s).trans (if_pos rfl)

theorem frame_declared_of_ne (hs : s < t.scopes.size) (h : s ≠ i) (n : Name) (v : Value) :
    (t.declared s n v).frame i = t.frame i :=
  (frame_setFrame hs _ i).trans (if_neg h)

theorem parent?_child (t : ScopeTree) (s i : Nat) :
    (t.child s).parent? i = if i = t.scopes.size then some s else t.parent? i := by
  unfold parent? child
  rw [Array.getElem?_push]
  split <;> rfl

theorem declare_eq_ok_iff : t.declare s n v = .ok t' ↔
    (t.frame s).declares n = false ∧ t' = t.declared s n v := by
  unfold declare declared Frame.declare?
  cases (t.frame s).declares n with
  | true => simp
  | false => simp [eq_comm]

theorem set_eq_ok_iff : t.set s n v = .ok t' ↔
    ∃ a, t.owner? s n = some a ∧ t' = t.assigned a n v := by
  unfold set assigned
  cases t.owner? s n with
  | none => simp
  | some a => simp [eq_comm]

theorem isOrdered_root : root.IsOrdered := by
  intro s p h
  unfold parent? root at h
  cases s <;> cases h

theorem IsOrdered.of_parent? (ht : t.IsOrdered) (h : ∀ s, t'.parent? s = t.parent? s) :
    t'.IsOrdered := by
  intro s p hparent
  rw [h] at hparent
  exact ht hparent

theorem IsOrdered.declared (ht : t.IsOrdered) (s : Nat) (n : Name) (v : Value) :
    (t.declared s n v).IsOrdered :=
  ht.of_parent? (parent?_declared t s n v)

theorem IsOrdered.assigned (ht : t.IsOrdered) (s : Nat) (n : Name) (v : Value) :
    (t.assigned s n v).IsOrdered :=
  ht.of_parent? (parent?_assigned t s n v)

theorem IsOrdered.child (ht : t.IsOrdered) (hs : s < t.scopes.size) : (t.child s).IsOrdered := by
  intro i p hparent
  rw [parent?_child] at hparent
  split at hparent
  next hnew =>
    cases hparent
    exact hnew ▸ hs
  · exact ht hparent

theorem IsOrdered.take (ht : t.IsOrdered) {step : Step} (hs : step.scope < t.scopes.size)
    (h : t.take step = .ok t') : t'.IsOrdered := by
  cases step with
  | child i =>
    cases h
    exact ht.child hs
  | declare i name value =>
    obtain ⟨-, rfl⟩ := declare_eq_ok_iff.1 h
    exact ht.declared i name value
  | set i name value =>
    obtain ⟨a, -, rfl⟩ := set_eq_ok_iff.1 h
    exact ht.assigned a name value

theorem IsGrown.isOrdered (h : t.IsGrown) : t.IsOrdered := by
  induction h with
  | root => exact isOrdered_root
  | @step t step _ hs ih =>
    unfold after
    split
    next t' htake => exact ih.take hs htake
    · exact ih

/-! ## Looking up -/

theorem pathFrom_of_size_le (hs : t.scopes.size ≤ s) (k : Nat) : t.pathFrom k s = [] := by
  cases k with
  | zero => rfl
  | succ k => rw [pathFrom, Array.getElem?_eq_none hs]

theorem pathFrom_succ (hs : s < t.scopes.size) (k : Nat) :
    t.pathFrom (k + 1) s = s :: (t.parent? s).elim [] (t.pathFrom k) := by
  unfold parent?
  rw [pathFrom, Array.getElem?_eq_getElem hs]
  simp only [Option.bind_some]
  cases t.scopes[s].parent <;> rfl

theorem pathFrom_congr (ht : t.IsOrdered) {k l : Nat} (hk : s < k) (hl : s < l) :
    t.pathFrom k s = t.pathFrom l s := by
  induction k generalizing l s with
  | zero => omega
  | succ k ih =>
    obtain ⟨l, rfl⟩ : ∃ j, l = j + 1 := Nat.exists_eq_add_one.2 (by omega)
    obtain hs | hs := Nat.lt_or_ge s t.scopes.size
    · rw [pathFrom_succ hs, pathFrom_succ hs]
      cases hparent : t.parent? s with
      | none => rfl
      | some p =>
        have hlt := ht hparent
        have hrest : t.pathFrom k p = t.pathFrom l p := ih (by omega) (by omega)
        rw [Option.elim_some, Option.elim_some, hrest]
    · rw [pathFrom_of_size_le hs, pathFrom_of_size_le hs]

theorem path_eq (ht : t.IsOrdered) (hs : s < t.scopes.size) :
    t.path s = s :: (t.parent? s).elim [] t.path := by
  obtain ⟨k, hk⟩ : ∃ k, t.scopes.size = k + 1 := Nat.exists_eq_add_one.2 (by omega)
  have hpath (q : Nat) : t.path q = t.pathFrom (k + 1) q := by rw [path, hk]
  rw [hpath, pathFrom_succ hs]
  cases hparent : t.parent? s with
  | none => rfl
  | some p =>
    have hlt := ht hparent
    have hrest : t.pathFrom k p = t.pathFrom (k + 1) p := pathFrom_congr ht (by omega) (by omega)
    rw [Option.elim_some, Option.elim_some, hpath, hrest]

theorem owner?_eq (ht : t.IsOrdered) (s : Nat) (n : Name) :
    t.owner? s n = if (t.frame s).declares n = true then some s
      else (t.parent? s).bind fun p => t.owner? p n := by
  unfold owner?
  obtain hs | hs := Nat.lt_or_ge s t.scopes.size
  · rw [path_eq ht hs, List.find?_cons]
    cases (t.frame s).declares n with
    | true => rfl
    | false => cases t.parent? s <;> rfl
  · have hframe : (t.frame s).declares n = false :=
      Bool.eq_false_iff.2 fun h => Nat.not_lt.2 hs (declares_frame_lt h)
    rw [path, pathFrom_of_size_le hs, hframe, parent?, Array.getElem?_eq_none hs]
    rfl

theorem isNearest_iff_of_declares (h : (t.frame s).declares n = true) :
    t.IsNearest n a s ↔ s = a := by
  constructor
  · rintro ⟨hclear, -⟩
    cases hclear with
    | here => rfl
    | up hfalse => exact absurd (hfalse.symm.trans h) Bool.false_ne_true
  · rintro rfl
    exact ⟨.here, h⟩

theorem isNearest_iff_of_not_declares (h : (t.frame s).declares n = false) :
    t.IsNearest n a s ↔ ∃ p, t.parent? s = some p ∧ t.IsNearest n a p := by
  constructor
  · rintro ⟨hclear, hdeclares⟩
    cases hclear with
    | here => exact absurd (h.symm.trans hdeclares) Bool.false_ne_true
    | up _ hparent hclear => exact ⟨_, hparent, hclear, hdeclares⟩
  · rintro ⟨p, hparent, hclear, hdeclares⟩
    exact ⟨.up h hparent hclear, hdeclares⟩

/-- The scope that is looked up in is the nearest one that declares the name. -/
theorem owner?_eq_some_iff (ht : t.IsOrdered) : t.owner? s n = some a ↔ t.IsNearest n a s := by
  induction s using Nat.strongRecOn with
  | ind s ih =>
    rw [owner?_eq ht]
    cases hdeclares : (t.frame s).declares n with
    | true => rw [if_pos rfl, Option.some_inj, isNearest_iff_of_declares hdeclares]
    | false =>
      rw [if_neg Bool.false_ne_true, isNearest_iff_of_not_declares hdeclares,
        Option.bind_eq_some_iff]
      exact exists_congr fun p => and_congr_right fun hparent => ih p (ht hparent)

theorem lookup?_eq (ht : t.IsOrdered) (s : Nat) (n : Name) :
    t.lookup? s n = ((t.frame s).find? n).or ((t.parent? s).bind fun p => t.lookup? p n) := by
  unfold lookup?
  rw [owner?_eq ht, Frame.declares_eq_isSome]
  cases hfind : (t.frame s).find? n with
  | none => cases t.parent? s <;> rfl
  | some w => simp [hfind]

theorem get_eq_ok_iff : t.get s n = .ok v ↔ t.lookup? s n = some v := by
  unfold get
  cases t.lookup? s n with
  | none => simp
  | some w => simp

/-- A scope finds an owner of the name exactly if some scope on its way up declares it. -/
theorem exists_owner?_iff (ht : t.IsOrdered) :
    (∃ a, t.owner? s n = some a) ↔ ∃ a, t.IsAbove a s ∧ (t.frame a).declares n = true := by
  constructor
  · rintro ⟨a, ha⟩
    obtain ⟨hclear, hdeclares⟩ := (owner?_eq_some_iff ht).1 ha
    exact ⟨a, hclear.isAbove, hdeclares⟩
  · rintro ⟨a, hchain, hdeclares⟩
    induction hchain with
    | here => exact ⟨a, (owner?_eq_some_iff ht).2 ⟨.here, hdeclares⟩⟩
    | @up s p hparent _ ih =>
      obtain ⟨b, hb⟩ := ih
      rw [owner?_eq ht, hparent, Option.bind_some]
      split
      · exact ⟨s, rfl⟩
      · exact ⟨b, hb⟩

/-! ## Writing -/

/-- The lookups are the same before and after, but for one name, which gives the value where
it is said to be seen. -/
def ChangesTo (t t' : ScopeTree) (name : Name) (value : Value) (isSeen : Nat → Prop) : Prop :=
  ∀ s m, (Name.same name m = true ∧ isSeen s → t'.lookup? s m = some value) ∧
    (¬ (Name.same name m = true ∧ isSeen s) → t'.lookup? s m = t.lookup? s m)

theorem owner?_congr (ht : t.IsOrdered) (hparent : ∀ s, t'.parent? s = t.parent? s)
    (hdeclares : ∀ s, (t'.frame s).declares m = (t.frame s).declares n) (s : Nat) :
    t'.owner? s m = t.owner? s n := by
  induction s using Nat.strongRecOn with
  | ind s ih =>
    rw [owner?_eq ht, owner?_eq (ht.of_parent? hparent), hdeclares, hparent]
    split
    · rfl
    · cases hp : t.parent? s with
      | none => rfl
      | some p => exact ih p (ht hp)

theorem owner?_of_same (ht : t.IsOrdered) (h : Name.same n m = true) (s : Nat) :
    t.owner? s m = t.owner? s n :=
  owner?_congr ht (fun _ => rfl) (fun i => (Frame.declares_congr h (t.frame i)).symm) s

theorem owner?_assigned (ht : t.IsOrdered) (ha : a < t.scopes.size) (n : Name) (v : Value)
    (s : Nat) (m : Name) : (t.assigned a n v).owner? s m = t.owner? s m := by
  refine owner?_congr ht (parent?_assigned t a n v) (fun i => ?_) s
  rw [frame_assigned ha]
  split
  next h => rw [Frame.declares_assign, h]
  · rfl

theorem changesTo_assigned (ht : t.IsOrdered) (ha : t.IsNearest n a s) (v : Value) :
    t.ChangesTo (t.assigned a n v) n v
      fun s' => ∃ b, t.IsNearest n b s ∧ t.IsNearest n b s' := by
  have hsize := declares_frame_lt ha.2
  intro s' m
  unfold lookup?
  rw [owner?_assigned ht hsize]
  constructor
  · rintro ⟨hsame, b, hb, hb'⟩
    obtain rfl : a = b := by
      rw [← owner?_eq_some_iff ht] at ha hb
      exact Option.some_inj.1 (ha.symm.trans hb)
    have howner : t.owner? s' m = some a := by
      rw [owner?_of_same ht hsame, owner?_eq_some_iff ht]
      exact hb'
    have hdeclared : ((t.frame a).find? m).isSome = true := by
      rw [← Frame.declares_eq_isSome, ← Frame.declares_congr hsame]
      exact ha.2
    obtain ⟨w, hw⟩ := Option.isSome_iff_exists.1 hdeclared
    rw [howner, Option.bind_some, frame_assigned hsize, if_pos rfl, Frame.find?_assign,
      if_pos hsame, hw]
    rfl
  · intro hnot
    cases howner : t.owner? s' m with
    | none => rfl
    | some b =>
      rw [Option.bind_some, Option.bind_some, frame_assigned hsize]
      split
      next hab =>
        subst hab
        have hsame : ¬ Name.same n m = true := by
          intro hsame
          rw [owner?_of_same ht hsame, owner?_eq_some_iff ht] at howner
          exact hnot ⟨hsame, a, ha, howner⟩
        rw [Frame.find?_assign, if_neg hsame]
      · rfl

/-! ## Declaring -/

section Declaring

variable (hs : s < t.scopes.size)
include hs

theorem lookup?_declared_self (ht : t.IsOrdered) (n : Name) (v : Value) (m : Name) :
    (t.declared s n v).lookup? s m =
      (((t.frame s).find? m).or (if Name.same n m = true then some v else none)).or
        ((t.parent? s).bind fun p => (t.declared s n v).lookup? p m) := by
  rw [lookup?_eq (ht.declared s n v), frame_declared_self hs, Frame.find?_concat, parent?_declared]

theorem lookup?_declared_of_ne (ht : t.IsOrdered) (h : s ≠ i) (n : Name) (v : Value) (m : Name) :
    (t.declared s n v).lookup? i m = ((t.frame i).find? m).or
      ((t.parent? i).bind fun p => (t.declared s n v).lookup? p m) := by
  rw [lookup?_eq (ht.declared s n v), frame_declared_of_ne hs h, parent?_declared]

theorem lookup?_declared_of_isClear (ht : t.IsOrdered) (hnew : (t.frame s).declares n = false)
    (hsame : Name.same n m = true) (hclear : t.IsClear n s i) (v : Value) :
    (t.declared s n v).lookup? i m = some v := by
  have hnone {j : Nat} (h : (t.frame j).declares n = false) : (t.frame j).find? m = none := by
    rwa [← Frame.find?_congr hsame, Frame.find?_eq_none_iff]
  have hself : (t.declared s n v).lookup? s m = some v := by
    rw [lookup?_declared_self hs ht, hnone hnew, if_pos hsame]
    rfl
  induction hclear with
  | here => exact hself
  | @up i p hdeclares hparent _ ih =>
    by_cases hi : s = i
    · exact hi ▸ hself
    · rw [lookup?_declared_of_ne hs ht hi, hnone hdeclares, hparent]
      exact ih

theorem lookup?_declared_of_not_isClear (ht : t.IsOrdered) (v : Value)
    (hnot : ¬ (Name.same n m = true ∧ t.IsClear n s i)) :
    (t.declared s n v).lookup? i m = t.lookup? i m := by
  induction i using Nat.strongRecOn with
  | ind i ih =>
    have hparents (h : Name.same n m = true → (t.frame i).declares n = false ∨ s = i) :
        ((t.parent? i).bind fun p => (t.declared s n v).lookup? p m) =
          (t.parent? i).bind fun p => t.lookup? p m := by
      cases hparent : t.parent? i with
      | none => rfl
      | some p =>
        refine ih p (ht hparent) fun ⟨hsame, hclear⟩ => hnot ⟨hsame, ?_⟩
        obtain hdeclares | rfl := h hsame
        · exact .up hdeclares hparent hclear
        · exact .here
    rw [lookup?_eq ht]
    by_cases hi : s = i
    · subst hi
      have hsame : ¬ Name.same n m = true := fun h => hnot ⟨h, .here⟩
      rw [lookup?_declared_self hs ht, if_neg hsame, Option.or_none, hparents fun _ => .inr rfl]
    · rw [lookup?_declared_of_ne hs ht hi]
      cases hfind : (t.frame i).find? m with
      | some w => rfl
      | none =>
        rw [hparents fun hsame => .inl ?_]
        rwa [Frame.declares_congr hsame, ← Frame.find?_eq_none_iff]

/-- A declared name is found in its scope from everywhere below with a clear way up. -/
theorem isNearest_declared_iff (n : Name) (v : Value) (i : Nat) :
    (t.declared s n v).IsNearest n s i ↔ t.IsClear n s i := by
  have hdeclares : ((t.declared s n v).frame s).declares n = true := by
    rw [frame_declared_self hs, Frame.declares_eq_isSome, Frame.find?_concat,
      if_pos (Name.same_iff.2 rfl), Option.isSome_or, Option.isSome_some, Bool.or_true]
  constructor
  · rintro ⟨hclear, -⟩
    induction hclear with
    | here => exact .here
    | @up i p hfalse hparent _ ih =>
      by_cases hi : s = i
      · exact hi ▸ .here
      · rw [frame_declared_of_ne hs hi] at hfalse
        rw [parent?_declared] at hparent
        exact .up hfalse hparent ih
  · intro hclear
    refine ⟨?_, hdeclares⟩
    induction hclear with
    | here => exact .here
    | @up i p hfalse hparent _ ih =>
      by_cases hi : s = i
      · exact hi ▸ .here
      · rw [← frame_declared_of_ne hs hi n v] at hfalse
        rw [← parent?_declared t s n v] at hparent
        exact .up hfalse hparent ih

theorem changesTo_declared (ht : t.IsOrdered) (hnew : (t.frame s).declares n = false)
    (v : Value) : t.ChangesTo (t.declared s n v) n v (t.IsClear n s) :=
  fun _ _ => ⟨fun ⟨hsame, hclear⟩ => lookup?_declared_of_isClear hs ht hnew hsame hclear v,
    lookup?_declared_of_not_isClear hs ht v⟩

end Declaring

/-! ## Trees as stores -/

/-- A tree of scopes is a store. Writing succeeds exactly if the name is declared on the way up,
and is seen from exactly the scopes with the same nearest declaration. Declaring succeeds exactly
if the scope itself does not declare the name, and is seen from that scope and from those below
it with no declaration in between: these are the ones that find the name there from then on.
A step that fails changes nothing, and `get` gives what is looked up. -/
theorem lookups_after_steps (ht : t.IsGrown) (hs : s < t.scopes.size) (n : Name) (v : Value) :
    ((∃ t', t.set s n v = .ok t') ↔ ∃ a, t.IsAbove a s ∧ (t.frame a).declares n = true) ∧
    (∀ t', t.set s n v = .ok t' →
      t.ChangesTo t' n v fun s' => ∃ a, t.IsNearest n a s ∧ t.IsNearest n a s') ∧
    ((∃ t', t.declare s n v = .ok t') ↔ (t.frame s).declares n = false) ∧
    (∀ t', t.declare s n v = .ok t' →
      t.ChangesTo t' n v (t.IsClear n s) ∧ ∀ s', t'.IsNearest n s s' ↔ t.IsClear n s s') ∧
    (∀ step e, t.take step = .error e → ∀ s', (t.after step).frame s' = t.frame s' ∧
      ∀ m, (t.after step).lookup? s' m = t.lookup? s' m) ∧
    ∀ s' m w, t.get s' m = .ok w ↔ t.lookup? s' m = some w := by
  have hordered := ht.isOrdered
  refine ⟨?_, fun t' hset => ?_, ?_, fun t' hdeclare => ?_, fun step e hfails s' => ?_,
    fun s' m w => get_eq_ok_iff⟩
  · rw [← exists_owner?_iff hordered]
    simp only [set_eq_ok_iff]
    exact ⟨fun ⟨_, a, ha, _⟩ => ⟨a, ha⟩, fun ⟨a, ha⟩ => ⟨_, a, ha, rfl⟩⟩
  · obtain ⟨a, ha, rfl⟩ := set_eq_ok_iff.1 hset
    exact changesTo_assigned hordered ((owner?_eq_some_iff hordered).1 ha) v
  · simp only [declare_eq_ok_iff]
    exact ⟨fun ⟨_, hnew, _⟩ => hnew, fun hnew => ⟨_, hnew, rfl⟩⟩
  · obtain ⟨hnew, rfl⟩ := declare_eq_ok_iff.1 hdeclare
    exact ⟨changesTo_declared hs hordered hnew v, isNearest_declared_iff hs n v⟩
  · have hafter : t.after step = t := by rw [after, hfails]
    rw [hafter]
    exact ⟨rfl, fun _ => rfl⟩

/-- Two scopes below a root that declares a name. One of them declares it again and has a scope
below it. -/
def shadowingTree : ScopeTree :=
  ((((root.after (.declare 0 (.str "x") (.text "outer"))).after (.child 0)).after
    (.child 0)).after (.declare 1 (.str "x") (.text "inner"))).after (.child 1)

theorem isGrown_shadowingTree : shadowingTree.IsGrown := by
  refine .step (.step (.step (.step (.step .root ?_) ?_) ?_) ?_) ?_ <;> decide

theorem lookups_after_steps_shadowingTree :
    shadowingTree.IsGrown ∧ 3 < shadowingTree.scopes.size ∧
    (∃ t', shadowingTree.set 3 (.str "x") .undefined = .ok t' ∧
      t'.lookup? 1 (.str "x") = some .undefined ∧
      t'.lookup? 2 (.str "x") = some (.text "outer")) ∧
    ∃ t', shadowingTree.declare 3 (.str "x") .undefined = .ok t' ∧
      t'.lookup? 3 (.str "x") = some .undefined ∧
      t'.lookup? 1 (.str "x") = some (.text "inner") := by
  have hsize : 3 < shadowingTree.scopes.size := by decide
  have hordered := isGrown_shadowingTree.isOrdered
  have hinner (s : Nat) (h : shadowingTree.owner? s (.str "x") = some 1) :
      shadowingTree.IsNearest (.str "x") 1 s := (owner?_eq_some_iff hordered).1 h
  obtain ⟨hset, hwritten, hdeclare, hdeclared, -, -⟩ :=
    lookups_after_steps isGrown_shadowingTree hsize (.str "x") .undefined
  obtain ⟨t', ht'⟩ := hset.2 ⟨1, (hinner 3 rfl).1.isAbove, rfl⟩
  obtain ⟨d, hd⟩ := hdeclare.2 rfl
  refine ⟨isGrown_shadowingTree, hsize, ⟨t', ht', ?_, ?_⟩, d, hd, ?_, ?_⟩
  · exact (hwritten t' ht' 1 _).1 ⟨rfl, 1, hinner 3 rfl, hinner 1 rfl⟩
  · refine ((hwritten t' ht' 2 _).2 ?_).trans rfl
    rintro ⟨-, a, ha, ha'⟩
    rw [← owner?_eq_some_iff hordered] at ha ha'
    have hone : a = 1 := Option.some_inj.1 (ha.symm.trans rfl)
    have hzero : a = 0 := Option.some_inj.1 (ha'.symm.trans rfl)
    omega
  · exact ((hdeclared d hd).1 3 _).1 ⟨rfl, .here⟩
  · refine (((hdeclared d hd).1 1 _).2 ?_).trans rfl
    rintro ⟨-, hclear⟩
    cases hclear with
    | up hfalse => exact absurd hfalse (by decide)

end ScopeTree

end Orus
