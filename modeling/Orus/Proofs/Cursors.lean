import Orus.Syntax.Cursor

/-! # Parsers at a cursor

What a sequence of parsers does at a cursor, from what its parts do there, and the cursors
on the tokens of a list.
-/

namespace Orus.Syntax

open Cursor

variable {α β : Type} {c d : Cursor}

/-! ## Sequences -/

theorem bind_eq_of_ok {p : Parse α} {k : α → Parse β} {a : α}
    (h : p c = .ok (a, d)) : (p >>= k) c = k a d := by
  change StateT.bind p k c = _
  simp only [StateT.bind, h]
  rfl

theorem bind_eq_of_error {p : Parse α} {k : α → Parse β} {failure : Failure}
    (h : p c = .error failure) : (p >>= k) c = .error failure := by
  change StateT.bind p k c = _
  simp only [StateT.bind, h]
  rfl

theorem bind_eq_of_eq {p p' : Parse α} {k : α → Parse β} (h : p c = p' d) :
    (p >>= k) c = (p' >>= k) d := by
  change StateT.bind p k c = StateT.bind p' k d
  simp only [StateT.bind, h]

theorem bind_eq_of_ite {p : Parse α} {k : α → Parse β} {a : α}
    {failure : Failure} {P : Prop} [Decidable P]
    (h : p c = if P then .ok (a, d) else .error failure) :
    (p >>= k) c = if P then k a d else .error failure := by
  change StateT.bind p k c = _
  simp only [StateT.bind, h]
  split <;> rfl

theorem ite_sees (texts : List String) (p q : Parse α) (c : Cursor) :
    (sees texts >>= fun isSeen => if isSeen = true then p else q) c =
      if c.sees texts = true then p c else q c := by
  change (if c.sees texts = true then p else q) c = _
  split <;> rfl

theorem accept_of_unseen {text : String} (h : c.sees [text] = false) :
    accept text c = .ok (false, c) := by
  change (sees [text] >>= fun isSeen => if isSeen = true then _ else _) c = _
  rw [ite_sees, h]
  rfl

theorem bind_eq_bind {p : Parse α} {k k' : α → Parse β}
    (h : ∀ a d, p c = .ok (a, d) → k a d = k' a d) : (p >>= k) c = (p >>= k') c := by
  change StateT.bind p k c = StateT.bind p k' c
  unfold StateT.bind
  cases hp : p c with
  | error failure => rfl
  | ok r => exact h r.1 r.2 hp

theorem sees_eq_sees {texts : List String} {p p' q q' : Parse α}
    (hp : c.sees texts = true → p c = p' c) (hq : c.sees texts = false → q c = q' c) :
    (sees texts >>= fun isSeen => if isSeen = true then p else q) c =
      (sees texts >>= fun isSeen => if isSeen = true then p' else q') c := by
  change (if c.sees texts = true then p else q) c = (if c.sees texts = true then p' else q') c
  split
  next h => exact hp h
  next h => exact hq (Bool.eq_false_iff.2 h)

theorem accept_bind (text : String) (k : Bool → Parse β) (c : Cursor) :
    (accept text >>= k) c =
      if c.sees [text] = true then (advance >>= fun _ => k true) c else k false c := by
  change ((if c.sees [text] = true then (advance >>= fun _ => pure true) else pure false) >>=
    k) c = _
  split
  · simp only [bind_assoc, pure_bind]
  · rfl

theorem consume_of_unseen {text : String} (h : c.sees [text] = false) :
    ∃ f, consume text c = .error f := by
  change ∃ f, (if c.sees [text] = true then advance else failAt _ _) c = _
  rw [h]
  exact ⟨_, rfl⟩

theorem sees_bind_of_unseen {texts : List String} {k : Bool → Parse β}
    (h : c.sees texts = false) : (sees texts >>= k) c = k false c := by
  change k (c.sees texts) c = _
  rw [h]

theorem accept_bind_of_unseen {text : String} {k : Bool → Parse β} (h : c.sees [text] = false) :
    (accept text >>= k) c = k false c := by
  rw [accept_bind, h]
  rfl

/-! ## Cursors on lists -/

/-- The cursor on the first of some tokens. -/
def Cursor.ofList : List Token → Cursor
  | [] => ⟨.eofAt .start, []⟩
  | t :: ts => ⟨t, ts⟩

/-- Tokens the first of which can be read. -/
def Opens (ts : List Token) : Prop :=
  ∃ t us, ts = t :: us ∧ t.kind ≠ .error

theorem opens_cons {t : Token} (h : t.kind ≠ .error) (ts : List Token) : Opens (t :: ts) :=
  ⟨t, ts, rfl, h⟩

theorem advance_ofList {t : Token} {ts : List Token} (ht : t.kind ≠ .eof) (hts : Opens ts) :
    advance (ofList (t :: ts)) = .ok (t, ofList ts) := by
  obtain ⟨u, us, rfl, hu⟩ := hts
  have hshift : (ofList (t :: u :: us)).shift = .ok (ofList (u :: us)) := by
    simp [ofList, shift, hu]
  change (if t.kind = .eof then (_ : Parse Token) else _) (ofList (t :: u :: us)) = _
  rw [if_neg ht, hshift]
  rfl

theorem advance_of_not_opens {t : Token} {ts : List Token} (ht : t.kind ≠ .eof) (hne : ts ≠ [])
    (hts : ¬ Opens ts) : ∃ f, advance (ofList (t :: ts)) = .error f := by
  obtain ⟨u, us, rfl⟩ := List.exists_cons_of_ne_nil hne
  have hu : u.kind = .error := Decidable.byContradiction fun hu => hts (opens_cons hu us)
  have hshift : (ofList (t :: u :: us)).shift =
      .error (.error ⟨.grammar (.invalidToken u.text u.value), u.mark⟩) := if_pos hu
  change ∃ f, (if t.kind = .eof then (_ : Parse Token) else _) (ofList (t :: u :: us)) = _
  rw [if_neg ht, hshift]
  exact ⟨_, rfl⟩

theorem sees_ofList {t : Token} (hkind : t.kind ≠ .string ∧ t.kind ≠ .eof) (ts : List Token)
    (texts : List String) : (ofList (t :: ts)).sees texts = texts.contains t.text := by
  simp [ofList, Cursor.sees, hkind]

theorem sees_ofList_of_text {t : Token} {text : String} (hkind : t.kind ≠ .string ∧ t.kind ≠ .eof)
    (htext : t.text = text) (ts : List Token) : (ofList (t :: ts)).sees [text] = true := by
  rw [sees_ofList hkind]
  simp [htext]

theorem unseen_ofList {t : Token} {texts : List String} (htext : t.text ∉ texts)
    (ts : List Token) : (ofList (t :: ts)).sees texts = false := by
  simp [ofList, Cursor.sees, htext]

theorem start_eq_ofList {ts : List Token} (h : Opens ts) : Cursor.start ts = .ok (ofList ts) := by
  obtain ⟨t, us, rfl, ht⟩ := h
  simp [Cursor.start, shift, ofList, ht]

end Orus.Syntax
