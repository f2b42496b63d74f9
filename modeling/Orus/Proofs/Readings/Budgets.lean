import Orus.Proofs.Cursors
import Orus.Proofs.Soundness

/-! # Budgets do not matter

The loops of the parser count down from a budget that is more than the number of tokens
left. Every round takes a token, so the budget is never used up, and any other budget that
is large enough gives the same.
-/

namespace Orus.Syntax

variable {α β : Type} {c d : Cursor} {R : List Token → α → Prop}

/-! ## Progress -/

theorem Reads.left_le {p : Parse α} {a : α} (hp : Reads R p c) (h : p c = .ok (a, d)) :
    d.left ≤ c.left := by
  obtain ⟨ts, hpass, -⟩ := hp a d h
  have hleft := hpass.left_add_length_le
  omega

theorem Reads.left_lt {p : Parse α} {a : α} (hp : Reads R p c) (hne : ∀ ts a, R ts a → ts ≠ [])
    (h : p c = .ok (a, d)) : d.left < c.left := by
  obtain ⟨ts, hpass, hr⟩ := hp a d h
  have hleft := hpass.left_add_length_le
  have hlength := List.length_pos_iff.2 (hne ts a hr)
  omega

theorem left_lt_of_advance {t : Token} (hc : c.current.kind ≠ .eof) (h : advance c = .ok (t, d)) :
    d.left < c.left := by
  have hreads : Reads (fun ts _ => ts ≠ []) (advance >>= pure) c :=
    reads_advance hc fun _ => reads_pure (by simp)
  rw [bind_pure] at hreads
  exact hreads.left_lt (fun _ _ h => h) h

theorem left_lt_of_consume {text : String} {t : Token} (h : consume text c = .ok (t, d)) :
    d.left < c.left := by
  have hreads : Reads (fun ts _ => ts ≠ []) (consume text >>= pure) c :=
    reads_consume fun _ _ _ => reads_pure (by simp)
  rw [bind_pure] at hreads
  exact hreads.left_lt (fun _ _ h => h) h

theorem left_lt_of_consumeIdent {what : String} {t : Token}
    (h : consumeIdent what c = .ok (t, d)) : d.left < c.left := by
  have hreads : Reads (fun ts _ => ts ≠ []) (consumeIdent what >>= pure) c :=
    reads_consumeIdent fun _ _ _ => reads_pure (by simp)
  rw [bind_pure] at hreads
  exact hreads.left_lt (fun _ _ h => h) h

theorem left_of_accept {text : String} {isThere : Bool} (h : accept text c = .ok (isThere, d)) :
    if isThere then d.left < c.left else d = c := by
  obtain ⟨ts, hpass, ⟨rfl, -, rfl⟩ | ⟨rfl, -, rfl⟩⟩ := reads_isThere text c isThere d h
  · have hleft := hpass.left_add_length_le
    rw [List.length_singleton] at hleft
    exact hleft
  · exact hpass.eq_of_nil

theorem Derives.ne_nil_of_declaration {ts : List Token} {n : Node}
    (h : Derives .declaration ts n) : ts ≠ [] := by
  cases h <;> simp

theorem Derives.ne_nil_of_statement {inLoop : Bool} {ts : List Token} {n : Node}
    (h : Derives (.statement inLoop) ts n) : ts ≠ [] := by
  cases h with
  | declared h => exact h.ne_nil_of_declaration
  | decided h => cases h; simp
  | nested h => cases h; simp
  | _ => simp

/-! ## Loops -/

theorem accept_eq_accept {text : String} {p p' q q' : Parse α}
    (hp : ∀ d, d.left < c.left → p d = p' d) (hq : q c = q' c) :
    (accept text >>= fun isThere => if isThere = true then p else q) c =
      (accept text >>= fun isThere => if isThere = true then p' else q') c := by
  refine bind_eq_bind fun isThere d h => ?_
  have hleft := left_of_accept h
  cases isThere with
  | true => exact hp d hleft
  | false =>
    obtain rfl : d = c := hleft
    exact hq

theorem commaList_budget (close : String) {item : Parse α} (hitem : ∀ c, Reads R item c)
    {n m : Nat} (hn : c.left < n) (hm : c.left < m) (done : List α) :
    commaList close item n done c = commaList close item m done c := by
  induction n generalizing m c done with
  | zero => omega
  | succ n ih =>
    obtain ⟨m, rfl⟩ : ∃ k, m = k + 1 := Nat.exists_eq_add_one.2 (by omega)
    rw [commaList, commaList]
    refine sees_eq_sees (fun _ => rfl) fun _ => bind_eq_bind fun a d ha => ?_
    have hleft := (hitem c).left_le ha
    exact accept_eq_accept (fun e he => ih (by omega) (by omega) _) rfl

theorem chain_budget (operators : List String) {R : List Token → Node → Prop}
    {operand : Parse Node} (hoperand : ∀ c, Reads R operand c) {n m : Nat} (hn : c.left < n)
    (hm : c.left < m) (left : Node) :
    chain operators operand n left c = chain operators operand m left c := by
  induction n generalizing m c left with
  | zero => omega
  | succ n ih =>
    obtain ⟨m, rfl⟩ : ∃ k, m = k + 1 := Nat.exists_eq_add_one.2 (by omega)
    rw [chain, chain]
    refine sees_eq_sees (fun hsees => bind_eq_bind fun op d hop => ?_) fun _ => rfl
    obtain ⟨_, _, his⟩ := Cursor.is_of_sees hsees
    have hop := left_lt_of_advance his.not_eof hop
    refine bind_eq_bind fun right e hright => ih ?_ ?_ _ <;>
    · have hright := (hoperand d).left_le hright
      omega

namespace Grammar

variable {deeper : Grammar} (hd : deeper.IsSound)
include hd

theorem statements_budget (inLoop : Bool) (opened : Position) {n m : Nat} (hn : c.left < n)
    (hm : c.left < m) (done : List Node) :
    statements (deeper.statement inLoop) opened n done c =
      statements (deeper.statement inLoop) opened m done c := by
  induction n generalizing m c done with
  | zero => omega
  | succ n ih =>
    obtain ⟨m, rfl⟩ : ∃ k, m = k + 1 := Nat.exists_eq_add_one.2 (by omega)
    rw [statements, statements]
    refine sees_eq_sees (fun _ => rfl) fun _ => ?_
    change (if c.current.kind = .eof then (_ : Parse (List Node)) else _) c =
      (if c.current.kind = .eof then (_ : Parse (List Node)) else _) c
    split
    · rfl
    refine accept_eq_accept (fun e he => ih (by omega) (by omega) _) ?_
    refine bind_eq_bind fun next d hnext => ?_
    have hleft := (hd.statement inLoop c).left_lt (fun _ _ h => h.ne_nil_of_statement) hnext
    exact ih (by omega) (by omega) _

theorem moreAscriptions_budget {n m : Nat} (hn : c.left < n) (hm : c.left < m) :
    moreAscriptions deeper.ascription n c = moreAscriptions deeper.ascription m c := by
  induction n generalizing m c with
  | zero => omega
  | succ n ih =>
    obtain ⟨m, rfl⟩ : ∃ k, m = k + 1 := Nat.exists_eq_add_one.2 (by omega)
    rw [moreAscriptions, moreAscriptions]
    refine accept_eq_accept (fun d hleft => bind_eq_bind fun _ e he => ?_) rfl
    have hle := (hd.ascription d).left_le he
    exact ih (by omega) (by omega)

theorem left_lt_of_callRule {name : Name} {mark : Option Mark} {call : Node}
    (h : callRule deeper name mark c = .ok (call, d)) : d.left < c.left := by
  have hreads : Reads (fun ts _ => ts ≠ []) (callRule deeper name mark) c := by
    unfold callRule
    split
    · exact reads_failAt _ _
    · apply reads_consume
      intro opened e _
      apply reads_get
      apply (reads_expressions hd ")" _ e).bind
      intro us args f _ _
      apply reads_consume
      intro closed g _
      split
      · split
        · exact reads_pure (by simp)
        · exact reads_failAt _ _
      · exact reads_pure (by simp)
  exact hreads.left_lt (fun _ _ h => h) h

theorem suffixes_budget {n m : Nat} (hn : c.left < n) (hm : c.left < m) (node : Node) :
    suffixes deeper n node c = suffixes deeper m node c := by
  induction n generalizing m c node with
  | zero => omega
  | succ n ih =>
    obtain ⟨m, rfl⟩ : ∃ k, m = k + 1 := Nat.exists_eq_add_one.2 (by omega)
    unfold suffixes
    refine sees_eq_sees (fun hsees => bind_eq_bind fun _ d hd' => ?_) fun _ => ?_
    · have hd' := left_lt_of_advance (Cursor.is_of_sees_singleton hsees).not_eof hd'
      refine bind_eq_bind fun _ e he => bind_eq_bind fun _ f hf => ?_
      have he := (hd.expression d).left_le he
      have hf := left_lt_of_consume hf
      exact ih (by omega) (by omega) _
    refine accept_eq_accept (fun d hleft => bind_eq_bind fun name e he => ?_) ?_
    · have he := left_lt_of_consumeIdent he
      exact ih (by omega) (by omega) _
    refine sees_eq_sees (fun _ => ?_) fun _ => rfl
    cases node with
    | identifier name mark =>
      refine bind_eq_bind fun call d hcall => ?_
      have hleft := left_lt_of_callRule hd hcall
      exact ih (by omega) (by omega) _
    | _ => rfl

theorem declarations_budget {n m : Nat} (hn : c.left < n) (hm : c.left < m)
    (functions globals : List Node) :
    declarations deeper n functions globals c = declarations deeper m functions globals c := by
  induction n generalizing m c functions globals with
  | zero => omega
  | succ n ih =>
    obtain ⟨m, rfl⟩ : ∃ k, m = k + 1 := Nat.exists_eq_add_one.2 (by omega)
    rw [declarations, declarations]
    change (if c.current.kind = .eof then (_ : Parse (List Node × List Node)) else _) c =
      (if c.current.kind = .eof then (_ : Parse (List Node × List Node)) else _) c
    split
    · rfl
    refine accept_eq_accept (fun e he => ih (by omega) (by omega) _ _) ?_
    refine sees_eq_sees (fun _ => bind_eq_bind fun fn d hfn => ?_) fun _ => ?_
    · have hleft := (reads_functionRule hd c).left_lt (fun _ _ h => by cases h; simp) hfn
      exact ih (by omega) (by omega) _ _
    refine sees_eq_sees (fun hsees => bind_eq_bind fun decl d hdecl => ?_) fun _ => rfl
    have hword := Cursor.isWord_of_sees hsees
    have hleft := (reads_letRule hd c hword).left_lt (fun _ _ h => h.ne_nil_of_declaration) hdecl
    exact ih (by omega) (by omega) _ _

end Grammar

end Orus.Syntax
