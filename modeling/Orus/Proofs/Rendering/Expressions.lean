import Orus.Proofs.Rendering.Strings

/-! # Reading rendered expressions back

With enough depth the parser reads a rendered expression back, whatever follows it, as long
as that does not continue the expression. With less depth it gives up for want of depth; it
never reads something else.
-/

namespace Orus.Syntax

variable {α β : Type}

/-! ## Cursors on pieces -/

namespace Cursor

/-- The cursor on the first of some pieces, with the end of input after them. -/
def on : List Piece → Cursor
  | [] => ⟨.eofAt .start, []⟩
  | p :: ps => ⟨p.token, ps.map Piece.token ++ [.eofAt .start]⟩

theorem shift_on (p : Piece) (ps : List Piece) : (on (p :: ps)).shift = .ok (on ps) := by
  cases ps with
  | nil => rfl
  | cons q ps => cases q <;> rfl

theorem budget_on (ps : List Piece) : (on ps).budget = ps.length + 2 := by
  cases ps <;> simp [on, budget]

theorem sees_of_subset {c : Cursor} {texts texts' : List String} (h : c.sees texts = true)
    (hsub : texts ⊆ texts') : c.sees texts' = true := by
  simp only [sees, Bool.and_eq_true, List.contains_iff_mem] at h ⊢
  exact ⟨h.1, hsub h.2⟩

theorem sees_eq_false_of_subset {c : Cursor} {texts texts' : List String}
    (h : c.sees texts = false) (hsub : texts' ⊆ texts) : c.sees texts' = false := by
  rw [Bool.eq_false_iff] at h ⊢
  intro h'
  exact h (sees_of_subset h' hsub)

theorem sees_eq_false_of_disjoint {c : Cursor} {texts texts' : List String}
    (h : c.sees texts = true) (hdisjoint : ∀ text ∈ texts, text ∉ texts') :
    c.sees texts' = false := by
  rw [Bool.eq_false_iff]
  intro h'
  simp only [sees, Bool.and_eq_true, List.contains_iff_mem] at h h'
  exact hdisjoint _ h.2 h'.2

end Cursor

open Cursor

namespace Piece

abbrev place : Option Mark :=
  some Position.start.mark

/-- Whether the piece is one of the given texts. Strings never are. -/
def isOneOf (p : Piece) (texts : List String) : Bool :=
  p.kind != .string && texts.contains p.text

end Piece

theorem sees_on (p : Piece) (ps : List Piece) (texts : List String) :
    (on (p :: ps)).sees texts = p.isOneOf texts := by
  cases p <;> rfl

theorem advance_on (p : Piece) (ps : List Piece) :
    advance (on (p :: ps)) = .ok (p.token, on ps) := by
  have hkind : (on (p :: ps)).current.kind ≠ .eof := by cases p <;> exact nofun
  change (if (on (p :: ps)).current.kind = .eof then (_ : Parse Token) else _) (on (p :: ps)) = _
  rw [if_neg hkind, shift_on]
  rfl

/-! ## What a rule reads -/

/-- From some depth on, the rule reads a result and stops at the given pieces. With less
depth it gives up. -/
def Parses (rule : Grammar → Parse α) (ps : List Piece) (a : α) (rest : List Piece) : Prop :=
  ∃ least, ∀ depth, rule (.ofDepth depth) (on ps) =
    if least ≤ depth then .ok (a, on rest) else .error (.fault .tooDeep)

variable {ps qs rest : List Piece} {a : α} {b : β}

theorem parses_of_eq {rule : Grammar → Parse α} (h : ∀ g, rule g (on ps) = .ok (a, on rest)) :
    Parses rule ps a rest :=
  ⟨0, fun _ => h _⟩

theorem parses_pure (a : α) (ps : List Piece) : Parses (fun _ => pure a) ps a ps :=
  parses_of_eq fun _ => rfl

theorem Parses.bind {p : Grammar → Parse α} {k : Grammar → α → Parse β} (hp : Parses p ps a qs)
    (hk : Parses (fun g => k g a) qs b rest) : Parses (fun g => p g >>= k g) ps b rest := by
  obtain ⟨least, hp⟩ := hp
  obtain ⟨least', hk⟩ := hk
  refine ⟨max least least', fun depth => ?_⟩
  change StateT.bind _ _ _ = _
  unfold StateT.bind
  rw [hp depth]
  by_cases h : least ≤ depth
  · -- the first parser succeeds, and only the second one can want more depth
    rw [if_pos h]
    have hiff : max least least' ≤ depth ↔ least' ≤ depth := by omega
    simp only [hiff]
    exact hk depth
  · have hmax : ¬ max least least' ≤ depth := by omega
    rw [if_neg h, if_neg hmax]
    rfl

theorem parses_above {field rule : Grammar → Parse α}
    (hzero : ∀ c, field .exhausted c = .error (.fault .tooDeep))
    (habove : ∀ g : Grammar, field g.above = rule g) (h : Parses rule ps a rest) :
    Parses field ps a rest := by
  obtain ⟨least, h⟩ := h
  refine ⟨least + 1, fun depth => ?_⟩
  cases depth with
  | zero => exact hzero _
  | succ depth =>
    simp only [Nat.succ_le_succ_iff, ← h depth, ← habove]
    rfl

section Steps

variable {k : Grammar → Token → Parse β} {p q : Grammar → Parse β} {text : String}
  {texts : List String} {piece : Piece}

theorem parses_get {k : Grammar → Cursor → Parse β} (h : Parses (fun g => k g (on ps)) ps b rest) :
    Parses (fun g => get >>= k g) ps b rest := h

theorem parses_peek (h : Parses (fun g => k g piece.token) (piece :: ps) b rest) :
    Parses (fun g => peek >>= k g) (piece :: ps) b rest := h

theorem parses_advance (h : Parses (fun g => k g piece.token) ps b rest) :
    Parses (fun g => advance >>= k g) (piece :: ps) b rest :=
  (parses_of_eq fun _ => advance_on piece ps).bind h

theorem parses_sees {k : Grammar → Bool → Parse β}
    (h : Parses (fun g => k g ((on ps).sees texts)) ps b rest) :
    Parses (fun g => sees texts >>= k g) ps b rest := h

theorem parses_seen (hsees : (on ps).sees texts = true) (h : Parses p ps b rest) :
    Parses (fun g => sees texts >>= fun isSeen => if isSeen = true then p g else q g)
      ps b rest := by
  apply parses_sees
  simpa only [hsees, if_true] using h

theorem parses_unseen (hsees : (on ps).sees texts = false) (h : Parses q ps b rest) :
    Parses (fun g => sees texts >>= fun isSeen => if isSeen = true then p g else q g)
      ps b rest := by
  apply parses_sees
  simpa only [hsees, Bool.false_eq_true, if_false] using h

theorem parses_consume (hpiece : piece.isOneOf [text] = true)
    (h : Parses (fun g => k g piece.token) ps b rest) :
    Parses (fun g => consume text >>= k g) (piece :: ps) b rest := by
  have hstep : Parses (fun _ => consume text) (piece :: ps) piece.token ps := by
    apply parses_of_eq
    intro _
    change (if (on (piece :: ps)).sees [text] = true then advance else _) (on (piece :: ps)) = _
    rw [sees_on, if_pos hpiece, advance_on]
  exact hstep.bind h

theorem parses_consumeIdent {word what : String}
    (h : Parses (fun g => k g (Piece.word word).token) ps b rest) :
    Parses (fun g => consumeIdent what >>= k g) (.word word :: ps) b rest :=
  (parses_of_eq fun _ => advance_on (.word word) ps).bind h

theorem parses_accept {k : Grammar → Bool → Parse β} (hpiece : piece.isOneOf [text] = true)
    (h : Parses (fun g => k g true) ps b rest) :
    Parses (fun g => accept text >>= k g) (piece :: ps) b rest := by
  have hstep : Parses (fun _ => accept text) (piece :: ps) true ps := by
    apply parses_seen
    · rw [sees_on, hpiece]
    · exact parses_advance (parses_pure true ps)
  exact hstep.bind h

theorem parses_refuse {k : Grammar → Bool → Parse β} (hsees : (on ps).sees [text] = false)
    (h : Parses (fun g => k g false) ps b rest) :
    Parses (fun g => accept text >>= k g) ps b rest := by
  have hstep : Parses (fun _ => accept text) ps false ps :=
    parses_unseen hsees (parses_pure false ps)
  exact hstep.bind h

end Steps

/-! ## Items with commas between them -/

theorem length_le_flatMap {f : α → List β} {as : List α} (h : ∀ a ∈ as, f a ≠ []) :
    as.length ≤ (as.flatMap f).length := by
  induction as with
  | nil => exact Nat.le_refl _
  | cons a as ih =>
    have ha := List.length_pos_iff.2 (h a List.mem_cons_self)
    have has := ih fun x hx => h x (List.mem_cons_of_mem a hx)
    simp only [List.flatMap_cons, List.length_append, List.length_cons]
    omega

structure IsItem (item : Grammar → Parse α) (close : String) (ps : List Piece) (a : α) :
    Prop where
  opens : ∀ rest, (on (ps ++ rest)).sees [close] = false
  parses : ∀ rest, (on rest).sees [",", close] = true → Parses item (ps ++ rest) a rest

theorem parses_commaList {item : Grammar → Parse α} {close : String} {pss : List (List Piece)}
    {items : List α} (h : List.Forall₂ (IsItem item close) pss items) (hclose : close ≠ ",")
    (hrest : (on rest).sees [close] = true) (budget : Nat) (hbudget : pss.length ≤ budget)
    (done : List α) :
    Parses (fun g => commaList close (item g) budget done) (commas pss ++ rest)
      (done.reverse ++ items) rest := by
  induction h generalizing budget done with
  | nil =>
    rw [List.append_nil]
    cases budget with
    | zero => exact parses_pure _ _
    | succ n => exact parses_seen hrest (parses_pure _ _)
  | @cons ps a pss items hitem hitems ih =>
    obtain ⟨n, rfl⟩ : ∃ n, budget = n + 1 := ⟨budget - 1, by simp at hbudget; omega⟩
    cases hitems with
    | nil =>
      have hcomma : (on rest).sees [","] = false :=
        sees_eq_false_of_disjoint hrest (by simpa using hclose)
      have hstop : (on rest).sees [",", close] = true := sees_of_subset hrest (by simp)
      apply parses_unseen (hitem.opens rest)
      apply (hitem.parses rest hstop).bind
      apply parses_refuse hcomma
      have heq : done.reverse ++ [a] = (a :: done).reverse := List.reverse_cons.symm
      rw [heq]
      exact parses_pure _ _
    | @cons qs b pss items hnext hmore =>
      have hlist : commas (ps :: qs :: pss) ++ rest =
          ps ++ .punct "," :: (commas (qs :: pss) ++ rest) := by simp [commas]
      have hdone : done.reverse ++ a :: b :: items = (a :: done).reverse ++ b :: items := by simp
      rw [hlist, hdone]
      apply parses_unseen (hitem.opens _)
      apply (hitem.parses _ rfl).bind
      apply parses_accept rfl
      exact ih n (by simpa using hbudget) (a :: done)

/-! ## Operators and suffixes -/

def continuations : List String :=
  priorities.flatten ++ ["=", "[", ".", "("]

/-- Pieces that do not continue the expression before them. -/
def Stops (rest : List Piece) : Prop :=
  (on rest).sees continuations = false

theorem stops_of_seen {texts : List String} (h : (on rest).sees texts = true)
    (hdisjoint : ∀ text ∈ texts, text ∉ continuations) : Stops rest :=
  sees_eq_false_of_disjoint h hdisjoint

theorem Stops.unseen {texts : List String} (h : Stops rest) (hsub : texts ⊆ continuations) :
    (on rest).sees texts = false :=
  sees_eq_false_of_subset h hsub

theorem Stops.no_suffix (h : Stops rest) : (on rest).sees ["[", ".", "("] = false :=
  h.unseen (by simp [continuations])

open Grammar

variable {node node' : Node}

theorem parses_expression (h : Parses (fun g => expressionRule g) ps node rest) :
    Parses (fun g => g.expression) ps node rest :=
  parses_above (fun _ => rfl) (fun _ => rfl) h

theorem parses_operators {levels : List (List String)}
    (h : Parses (fun g => operatorsRule g levels) ps node rest) :
    Parses (fun g => g.operators levels) ps node rest :=
  parses_above (fun _ => rfl) (fun _ => rfl) h

theorem parses_suffixes_done (hsees : (on ps).sees ["[", ".", "("] = false) (budget : Nat) :
    Parses (fun g => suffixes g budget node) ps node ps := by
  have hunseen {texts : List String} (hsub : texts ⊆ ["[", ".", "("]) :
      (on ps).sees texts = false := sees_eq_false_of_subset hsees hsub
  cases budget with
  | zero => exact parses_pure node ps
  | succ n =>
    apply parses_unseen (hunseen (by simp))
    apply parses_refuse (hunseen (by simp))
    apply parses_unseen (hunseen (by simp))
    exact parses_pure node ps

theorem parses_primary (hsees : (on ps).sees ["!", "-"] = false)
    (hnode : Parses (fun g => primaryRule g) ps node qs)
    (hsuffixes : ∀ budget, Parses (fun g => suffixes g (budget + 1) node) qs node' rest) :
    Parses (fun g => g.operators []) ps node' rest := by
  apply parses_operators
  apply parses_unseen hsees
  apply hnode.bind
  apply parses_get
  rw [budget_on]
  exact hsuffixes _

theorem parses_chain_done {operators : List String} (hsees : (on ps).sees operators = false)
    (operand : Grammar → Parse Node) (budget : Nat) (left : Node) :
    Parses (fun g => chain operators (operand g) budget left) ps left ps := by
  cases budget with
  | zero => exact parses_pure left ps
  | succ n => exact parses_unseen hsees (parses_pure left ps)

theorem parses_tighter (looser : List (List String)) {levels : List (List String)}
    (hsees : (on rest).sees looser.flatten = false)
    (h : Parses (fun g => g.operators levels) ps node rest) :
    Parses (fun g => g.operators (looser ++ levels)) ps node rest := by
  induction looser with
  | nil => exact h
  | cons loosest looser ih =>
    apply parses_operators
    apply (ih (sees_eq_false_of_subset hsees (by simp))).bind
    apply parses_get
    exact parses_chain_done (sees_eq_false_of_subset hsees (by simp)) _ _ _

theorem parses_binary {op : String} {level : List String} {tighter : List (List String)}
    {left right : Node} (hop : op ∈ level)
    (hleft : Parses (fun g => g.operators tighter) ps left (.op op :: qs))
    (hright : Parses (fun g => g.operators tighter) qs right rest)
    (hsees : (on rest).sees level = false) :
    Parses (fun g => g.operators (level :: tighter)) ps
      (.binary (.str op) left right Piece.place) rest := by
  apply parses_operators
  apply hleft.bind
  apply parses_get
  rw [budget_on]
  apply parses_seen
  · rw [sees_on]
    simpa [Piece.isOneOf, Piece.kind, Piece.text] using hop
  apply parses_advance
  apply hright.bind
  exact parses_chain_done hsees _ _ _

theorem parses_unassigned (hsees : (on rest).sees ["="] = false)
    (h : Parses (fun g => g.operators priorities) ps node rest) :
    Parses (fun g => g.expression) ps node rest := by
  apply parses_expression
  apply h.bind
  exact parses_unseen hsees (parses_pure node rest)

theorem parses_operand (hrest : Stops rest)
    (h : Parses (fun g => g.operators []) ps node rest) :
    Parses (fun g => g.expression) ps node rest := by
  apply parses_unassigned (hrest.unseen (by simp [continuations]))
  exact parses_tighter priorities (hrest.unseen (by simp [continuations])) h

theorem parses_leaf (hrest : Stops rest) (hsees : (on ps).sees ["!", "-"] = false)
    (h : Parses (fun g => primaryRule g) ps node rest) :
    Parses (fun g => g.expression) ps node rest := by
  apply parses_operand hrest
  exact parses_primary hsees h fun _ => parses_suffixes_done hrest.no_suffix _

/-! ## Primary expressions -/

theorem primary_word (word : String) (rest : List Piece) :
    Parses (fun g => primaryRule g) (.word word :: rest)
      (.identifier (.str word) Piece.place) rest := by
  apply parses_peek
  exact parses_advance (parses_pure _ rest)

theorem primary_number {text : String} {x : Float} (h : Number.readNumber? text = some x)
    (rest : List Piece) :
    Parses (fun g => primaryRule g) (.number text :: rest) (.number x Piece.place) rest := by
  apply parses_peek
  apply parses_advance
  apply parses_of_eq
  intro _
  simp only [numberLiteral, Piece.token, Piece.text, h]
  rfl

theorem primary_string (body : String) (rest : List Piece) :
    Parses (fun g => primaryRule g) (.string body :: rest)
      (stringLiteral body Piece.place) rest := by
  apply parses_peek
  exact parses_advance (parses_pure _ rest)

theorem primary_nil (rest : List Piece) :
    Parses (fun g => primaryRule g) (.keyword "nil" :: rest) (.nilLiteral Piece.place) rest := by
  apply parses_peek
  apply parses_unseen rfl
  exact parses_accept rfl (parses_pure _ rest)

theorem primary_paren (h : Parses (fun g => g.expression) ps node (.punct ")" :: rest)) :
    Parses (fun g => primaryRule g) (.punct "(" :: ps) node rest := by
  apply parses_peek
  apply parses_unseen rfl
  apply parses_refuse rfl
  apply parses_accept rfl
  apply h.bind
  apply parses_consume rfl
  exact parses_pure node rest

theorem primary_array {nodes : List Node} (h : Parses
    (fun g => commaList "]" g.expression (on ps).budget []) ps nodes (.punct "]" :: rest)) :
    Parses (fun g => primaryRule g) (.punct "[" :: ps) (.array nodes Piece.place) rest := by
  apply parses_peek
  apply parses_unseen rfl
  apply parses_refuse rfl
  apply parses_refuse rfl
  apply parses_accept rfl
  apply parses_get
  apply h.bind
  apply parses_consume rfl
  exact parses_pure _ rest

/-! ## Suffixes -/

theorem suffix_index (hrest : Stops rest) (budget : Nat)
    (h : Parses (fun g => g.expression) ps node' (.punct "]" :: rest)) :
    Parses (fun g => suffixes g (budget + 1) node) (.punct "[" :: ps)
      (.index node node' Piece.place) rest := by
  apply parses_seen rfl
  apply parses_advance
  apply h.bind
  apply parses_consume rfl
  exact parses_suffixes_done hrest.no_suffix budget

theorem suffix_field (hrest : Stops rest) (budget : Nat) (word : String) :
    Parses (fun g => suffixes g (budget + 1) node) (.punct "." :: .word word :: rest)
      (.field node (.str word) Piece.place) rest := by
  apply parses_unseen rfl
  apply parses_accept rfl
  apply parses_consumeIdent
  exact parses_suffixes_done hrest.no_suffix budget

theorem suffix_call {name : Name} {m : Option Mark} (hrest : Stops rest) (budget : Nat)
    (h : Parses (fun g => callRule g name m) (.punct "(" :: ps) node rest) :
    Parses (fun g => suffixes g (budget + 1) (.identifier name m)) (.punct "(" :: ps)
      node rest := by
  apply parses_unseen rfl
  apply parses_refuse rfl
  apply parses_seen rfl
  apply h.bind
  exact parses_suffixes_done hrest.no_suffix budget

/-! ## Words and numerals -/

theorem sees_word {word : String} (h : IsWord word) {texts : List String}
    (htexts : ∀ text ∈ texts, text ∈ Token.keywords ∨
      text.toList.head?.any Text.isWordStart = false) (ps : List Piece) :
    (on (.word word :: ps)).sees texts = false := by
  rw [Bool.eq_false_iff, sees_on]
  intro hmem
  simp only [Piece.isOneOf, Piece.text, Bool.and_eq_true, List.contains_iff_mem] at hmem
  obtain ⟨⟨c, cs, hword, hstart, -⟩, hkeyword⟩ := h
  obtain hk | hc := htexts word hmem.2
  · exact hkeyword hk
  · simp [hword, hstart] at hc

theorem sees_numeral {x : Float} {text : String} (h : Number.readNumber? text = some x)
    (ps : List Piece) : (on (.number text :: ps)).sees ["!", "-"] = false := by
  rw [Bool.eq_false_iff, sees_on]
  intro hmem
  have hbang : Number.readNumber? "!" = none := by decide +kernel
  have hminus : Number.readNumber? "-" = none := by decide +kernel
  simp only [Piece.isOneOf, Piece.text, Bool.and_eq_true, List.contains_iff_mem, List.mem_cons,
    List.not_mem_nil, or_false] at hmem
  obtain ⟨-, rfl | rfl⟩ := hmem
  · rw [hbang] at h
    cases h
  · rw [hminus] at h
    cases h

/-! ## Expressions -/

/-- A function that gives every Number that has numerals one of them. -/
def WritesNumerals (numeral : Float → String) : Prop :=
  ∀ x, (∃ text, IsNumeralOf x text) → IsNumeralOf x (numeral x)

variable {numeral : Float → String}

def ReadsBack (numeral : Float → String) (n : Node) : Prop :=
  ∀ rest, Stops rest →
    Parses (fun g => g.expression) (renderInside numeral n ++ rest) (n.marked Piece.place) rest

section

variable {n : Node} (h : ReadsBack numeral n)

include h

theorem ReadsBack.primary (rest : List Piece) :
    Parses (fun g => primaryRule g) (paren (renderInside numeral n) ++ rest)
      (n.marked Piece.place) rest := by
  rw [paren_append]
  exact primary_paren (h (.punct ")" :: rest) rfl)

theorem ReadsBack.operand (levels : List (List String))
    (hrest : (on rest).sees (levels.flatten ++ ["[", ".", "("]) = false) :
    Parses (fun g => g.operators levels) (paren (renderInside numeral n) ++ rest)
      (n.marked Piece.place) rest := by
  have htight : Parses (fun g => g.operators []) (paren (renderInside numeral n) ++ rest)
      (n.marked Piece.place) rest :=
    parses_primary rfl (h.primary rest) fun _ =>
      parses_suffixes_done (sees_eq_false_of_subset hrest (by simp)) _
  have hlevels := parses_tighter levels (sees_eq_false_of_subset hrest (by simp)) htight
  rwa [List.append_nil] at hlevels

theorem ReadsBack.expression (hrest : Stops rest) :
    Parses (fun g => g.expression) (renderExpression numeral n ++ rest)
      (n.marked Piece.place) rest :=
  parses_operand hrest (h.operand [] hrest.no_suffix)

theorem ReadsBack.isItem {close : String} (hclose : close = ")" ∨ close = "]") :
    IsItem (fun g => g.expression) close (paren (renderInside numeral n))
      (n.marked Piece.place) := by
  constructor
  · intro rest
    obtain rfl | rfl := hclose <;> rfl
  · intro rest hrest
    apply h.expression
    apply stops_of_seen hrest
    obtain rfl | rfl := hclose <;> decide

end

theorem forall₂_renderAll {ns : List Node} {close : String} (hclose : close = ")" ∨ close = "]")
    (h : ∀ n ∈ ns, ReadsBack numeral n) :
    List.Forall₂ (IsItem (fun g => g.expression) close) (renderAll numeral ns)
      (Node.markedAll Piece.place ns) := by
  induction ns with
  | nil => exact .nil
  | cons n ns ih =>
    have hn := h n List.mem_cons_self
    exact .cons (hn.isItem hclose) (ih fun x hx => h x (List.mem_cons_of_mem n hx))

theorem IsItem.ne_nil {item : Grammar → Parse α} {close : String} (h : IsItem item close ps a) :
    ps ≠ [] := by
  rintro rfl
  have hopens := h.opens [.punct close]
  simp [sees_on, Piece.isOneOf, Piece.kind, Piece.text] at hopens

theorem length_le_commas {item : Grammar → Parse α} {close : String} {pss : List (List Piece)}
    {items : List α} (h : List.Forall₂ (IsItem item close) pss items) :
    pss.length ≤ (commas pss).length := by
  induction h with
  | nil => exact Nat.le_refl _
  | cons hitem hitems ih =>
    have hlength := List.length_pos_iff.2 hitem.ne_nil
    cases hitems with
    | nil => exact hlength
    | cons =>
      simp only [commas, List.length_append, List.length_cons] at ih ⊢
      omega

theorem parses_items {item : Grammar → Parse α} {close : String} {pss : List (List Piece)}
    {items : List α} (h : List.Forall₂ (IsItem item close) pss items) (hclose : close ≠ ",")
    (rest : List Piece) :
    Parses (fun g => commaList close (item g) (on (commas pss ++ .punct close :: rest)).budget [])
      (commas pss ++ .punct close :: rest) items (.punct close :: rest) := by
  have hseen : (on (.punct close :: rest)).sees [close] = true := by
    simp [sees_on, Piece.isOneOf, Piece.kind, Piece.text]
  have hbudget : pss.length ≤ (on (commas pss ++ .punct close :: rest)).budget := by
    have hlength := length_le_commas h
    rw [budget_on, List.length_append]
    omega
  exact parses_commaList h hclose hseen _ hbudget []

theorem parses_callRule {name : String} (hprint : name ≠ "print") (hrange : name ≠ "range")
    {ns : List Node} (h : ∀ n ∈ ns, ReadsBack numeral n) (rest : List Piece) :
    Parses (fun g => callRule g (.str name) Piece.place)
      (paren (commas (renderAll numeral ns)) ++ rest)
      (.call (.str name) (Node.markedAll Piece.place ns) Piece.place) rest := by
  have hitems := parses_items (forall₂_renderAll (.inl rfl) h) (by decide) rest
  simp only [callRule, Json.str.injEq, hprint, hrange, if_false, paren_append]
  apply parses_consume rfl
  apply parses_get
  apply hitems.bind
  apply parses_consume rfl
  exact parses_pure _ rest

theorem parses_callRule_range {first last : Node} (hfirst : ReadsBack numeral first)
    (hlast : ReadsBack numeral last) (rest : List Piece) :
    Parses (fun g => callRule g (.str "range") Piece.place)
      (paren (commas [paren (renderInside numeral first), paren (renderInside numeral last)]) ++
        rest)
      (.range (first.marked Piece.place) (last.marked Piece.place) Piece.place) rest := by
  have hitems := parses_items
    (.cons (hfirst.isItem (.inl rfl)) (.cons (hlast.isItem (.inl rfl)) .nil)) (by decide) rest
  rw [paren_append]
  apply parses_consume rfl
  apply parses_get
  apply hitems.bind
  apply parses_consume rfl
  exact parses_pure _ rest

/-- A binary operator belongs to one priority and to no tighter one. -/
theorem exists_level {op : String} (h : op ∈ priorities.flatten) :
    ∃ looser level tighter, priorities = looser ++ level :: tighter ∧ op ∈ level ∧
      op ∉ tighter.flatten := by
  obtain ⟨level, hlevel, hop⟩ := List.mem_flatten.1 h
  obtain ⟨looser, tighter, heq⟩ := List.append_of_mem hlevel
  have hnodup : priorities.flatten.Nodup := by decide
  rw [heq, List.flatten_append, List.flatten_cons] at hnodup
  have hdisjoint := (List.nodup_append.1 (List.nodup_append.1 hnodup).2.1).2.2
  exact ⟨looser, level, tighter, heq, hop, fun hop' => hdisjoint op hop op hop' rfl⟩

/-- Every expression of the language is read back from its rendering. -/
theorem readsBack_of_wellFormed (hnumeral : WritesNumerals numeral) {n : Node}
    (h : WellFormedExpression n) : ReadsBack numeral n := by
  induction h with
  | number hx =>
    intro rest hrest
    have hread := (hnumeral _ hx).2
    exact parses_leaf hrest (sees_numeral hread rest) (primary_number hread rest)
  | nilLiteral =>
    intro rest hrest
    exact parses_leaf hrest rfl (primary_nil rest)
  | string hsegments =>
    intro rest hrest
    rw [Node.marked, ← stringLiteral_renderSegments Piece.place hsegments]
    exact parses_leaf hrest rfl (primary_string _ rest)
  | identifier hname =>
    intro rest hrest
    exact parses_leaf hrest (sees_word hname (by decide) rest) (primary_word _ rest)
  | array _ ih =>
    intro rest hrest
    have hitems := parses_items (forall₂_renderAll (.inr rfl) ih) (by decide) rest
    rw [renderInside, List.cons_append, List.append_assoc]
    exact parses_leaf hrest rfl (primary_array hitems)
  | range _ _ ihfirst ihlast =>
    intro rest hrest
    apply parses_operand hrest
    apply parses_primary rfl (primary_word "range" _)
    intro budget
    exact suffix_call hrest budget (parses_callRule_range ihfirst ihlast rest)
  | @unary op operand mark hop _ ih =>
    intro rest hrest
    apply parses_operand hrest
    apply parses_operators
    apply parses_seen
    · rw [renderInside, List.cons_append, sees_on]
      simpa [Piece.isOneOf, Piece.kind, Piece.text, wordOf] using hop
    apply parses_advance
    apply (ih.operand [] hrest.no_suffix).bind
    exact parses_pure _ rest
  | @binary op left right mark hop _ _ ihleft ihright =>
    intro rest hrest
    obtain ⟨looser, level, tighter, heq, hlevel, htighter⟩ := exists_level hop
    have hrest' : (on rest).sees
        (looser.flatten ++ level ++ (tighter.flatten ++ ["=", "[", ".", "("])) = false := by
      apply hrest.unseen
      simp [continuations, heq]
    -- no tighter priority takes the operator, so the left operand ends before it
    have hop' : (on (.op op :: (paren (renderInside numeral right) ++ rest))).sees
        (tighter.flatten ++ ["[", ".", "("]) = false := by
      have hplain : ∀ op ∈ priorities.flatten, op ∉ ["[", ".", "("] := by decide
      rw [sees_on]
      simpa [Piece.isOneOf, Piece.kind, Piece.text, htighter] using hplain op hop
    apply parses_unassigned (hrest.unseen (by simp [continuations]))
    rw [heq, renderInside, List.append_assoc]
    apply parses_tighter looser (sees_eq_false_of_subset hrest' (by grind))
    apply parses_binary hlevel
    · exact ihleft.operand tighter hop'
    · exact ihright.operand tighter (sees_eq_false_of_subset hrest' (by grind))
    · exact sees_eq_false_of_subset hrest' (by grind)
  | @assignment name expr mark hname _ ih =>
    intro rest hrest
    apply parses_expression
    -- the equals sign is no binary operator, so the variable is read alone
    have hleft : Parses (fun g => g.operators priorities)
        (.word name :: .op "=" :: (paren (renderInside numeral expr) ++ rest))
        (.identifier (.str name) Piece.place)
        (.op "=" :: (paren (renderInside numeral expr) ++ rest)) := by
      apply parses_tighter priorities rfl
      exact parses_primary (sees_word hname (by decide) _) (primary_word _ _) fun _ =>
        parses_suffixes_done rfl _
    apply hleft.bind
    apply parses_seen rfl
    apply parses_advance
    apply (ih.expression hrest).bind
    exact parses_pure _ rest
  | call hname hprint hrange _ ih =>
    intro rest hrest
    apply parses_operand hrest
    apply parses_primary (sees_word hname (by decide) _) (primary_word _ _)
    intro budget
    exact suffix_call hrest budget (parses_callRule hprint hrange ih rest)
  | index _ _ ihtarget ihposition =>
    intro rest hrest
    rw [renderInside, List.append_assoc, List.cons_append, List.append_assoc]
    apply parses_operand hrest
    apply parses_primary rfl (ihtarget.primary _)
    intro budget
    exact suffix_index hrest budget (ihposition.expression rfl)
  | field _ hname ih =>
    intro rest hrest
    rw [renderInside, List.append_assoc]
    apply parses_operand hrest
    apply parses_primary rfl (ih.primary _)
    intro budget
    exact suffix_field hrest budget _

end Orus.Syntax
