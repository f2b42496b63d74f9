import Orus.Proofs.Interpolation
import Orus.Proofs.Rendering.Strings
import Orus.Proofs.Scanning.Lexemes

/-! # Texts and names in string literals

Every text can be written as a string literal: with a backslash before each character that means
something there it is scanned as one token and printed as it was. A name between braces is a marker
only if it starts with an ASCII letter or an underscore. A name that starts with another letter can
be declared and read like any other, but between braces it stays text.
-/

namespace Orus

open Syntax Text

/-! ## Printing -/

namespace Run.Evaluator

variable (cfg : Config) {depth : Nat} {s : State}

/-- An expression that has a value in the scopes of a state and changes nothing is printed as that
value. -/
theorem exec_printLine {expr : Node} (hexpr : expr ≠ .absent) {v : Value}
    (hdepth : v.height < depth)
    (heval : ∀ t : State, t.scopes = s.scopes → (ofDepth cfg depth).eval expr t = .ok v t)
    (place : Option Mark) :
    (ofDepth cfg (depth + 1)).exec (.printLine expr place) s =
      (do tick cfg place; emit cfg v.display) s := by
  apply bind_congr_of_ok
  intro _ t ht
  obtain ⟨rfl, -⟩ := tick_ok cfg ht
  have htext :
      textOf (ofDepth cfg depth) v (s.stepped place) = .ok v.display (s.stepped place) := by
    rw [textOf_eq, if_pos hdepth]
  unfold effectRule
  dsimp only
  split
  · exact absurd rfl hexpr
  · exact (bind_of_ok (heval (s.stepped place) rfl)).trans (bind_of_ok htext)

end Run.Evaluator

namespace Syntax

/-! ## Texts -/

def quotedChar (c : Char) : List Char :=
  if c ∈ ['\\', '"', '{', '}'] then ['\\', c] else [c]

def quotedBody (text : String) : String :=
  String.ofList (text.toList.flatMap quotedChar)

def inQuotes (body : String) : String :=
  "\"" ++ body ++ "\""

theorem isStringBody_quotedChar (cs : List Char) : Token.IsStringBody (cs.flatMap quotedChar) := by
  induction cs with
  | nil => exact .nil
  | cons c cs ih =>
    rw [List.flatMap_cons, quotedChar]
    split
    · exact .escaped c ih
    next hplain =>
      simp only [List.mem_cons, not_or] at hplain
      exact .plain hplain.2.1 hplain.1 ih

theorem scan_inQuotes {body : String} (h : Token.IsStringBody body.toList) :
    Token.scan (inQuotes body) =
      [⟨.string, inQuotes body, .start, some body⟩,
        .eofAt (Position.start.after (inQuotes body).toList)] := by
  have hlist : (inQuotes body).toList = '"' :: (body.toList ++ ['"']) := by simp [inQuotes]
  have hcut : Token.IsCut .start ((inQuotes body).toList ++ [])
      [⟨.string, String.ofList (inQuotes body).toList, .start, some (String.ofList body.toList)⟩,
        .eofAt (Position.start.after (inQuotes body).toList)] :=
    .token (hlist ▸ .string h) (.done _)
  rw [Token.scan_eq_iff]
  simpa using hcut

theorem segmentsFrom_quotedChar (m : Option Mark) (text : List Char) (done : List Node) (c : Char)
    (cs : List Char) :
    segmentsFrom m text done (quotedChar c ++ cs) = segmentsFrom m (c :: text) done cs := by
  by_cases hbrace : c = '}'
  · subst hbrace
    change segmentsFrom m text done ('\\' :: '}' :: cs) = _
    rw [segmentsFrom]
    rfl
  · have hescape : quotedChar c = escape c := by
      unfold quotedChar escape
      split <;> split <;> simp_all
    rw [hescape, segmentsFrom_escape]

theorem stringLiteral_quotedBody (text : String) (mark : Option Mark) :
    stringLiteral (quotedBody text) mark = .string [.raw (.str text)] mark := by
  have hsegments := segmentsFrom_flatMap mark
    (fun read => segmentsFrom_quotedChar mark read []) text.toList [] []
  rw [List.append_nil, List.append_nil] at hsegments
  rw [stringLiteral, quotedBody, String.toList_ofList, hsegments, segmentsFrom]
  simp

open Run in
/-- Every text can be written as a string literal, which is one token, stands for the text alone and
prints it. -/
theorem exec_printLine_quotedBody (text : String) :
    Token.scan (inQuotes (quotedBody text)) =
        [⟨.string, inQuotes (quotedBody text), .start, some (quotedBody text)⟩,
          .eofAt (Position.start.after (inQuotes (quotedBody text)).toList)] ∧
      ∀ mark, stringLiteral (quotedBody text) mark = .string [.raw (.str text)] mark ∧
        ∀ (cfg : Config) (depth : Nat) (place : Option Mark),
          (Evaluator.ofDepth cfg (depth + 2)).exec
              (.printLine (stringLiteral (quotedBody text) mark) place) =
            (do tick cfg place; emit cfg text) := by
  have hbody : Token.IsStringBody (quotedBody text).toList := by
    rw [quotedBody, String.toList_ofList]
    exact isStringBody_quotedChar text.toList
  refine ⟨scan_inQuotes hbody, fun mark => ⟨stringLiteral_quotedBody text mark, ?_⟩⟩
  intro cfg depth place
  funext s
  rw [stringLiteral_quotedBody]
  have hsegment : IsSegment (.raw (.str text)) := .inl ⟨text, rfl⟩
  have heval (t : State) (_ : t.scopes = s.scopes) :
      (Evaluator.ofDepth cfg (depth + 1)).eval (.string [.raw (.str text)] mark) t =
        .ok (.text text) t := by
    rw [Evaluator.eval_string cfg (List.forall_mem_singleton.2 hsegment)]
    simp [nesting, rendered, String.join]
  exact Evaluator.exec_printLine cfg (by simp) (Nat.succ_pos depth) heval place

/-! ## Names -/

/-- A name between braces, with blanks around it. -/
def bracedName (before : List Char) (w : String) (after : List Char) : String :=
  String.ofList ('{' :: (before ++ (w.toList ++ (after ++ ['}']))))

theorem isWordChar_of_isWordStart {c : Char} (h : isWordStart c = true) : isWordChar c = true := by
  simp only [isWordStart, Bool.or_eq_true] at h
  rcases h with hletter | hlow <;> simp [isWordChar, *]

theorem isBlank_of_isWordChar {c : Char} (h : isWordChar c = true) : isBlank c = false := by
  rw [Bool.eq_false_iff]
  intro hblank
  simp [isWordChar_of_isBlank hblank] at h

/-- Nothing but its opening brace has a meaning between the quotes in a name between braces. -/
theorem not_mem_of_plain {c : Char} (h : isBlank c = true ∨ isWordChar c = true ∨ c = '}') :
    c ∉ ['\\', '"', '{'] := by
  intro hmem
  simp only [List.mem_cons, List.not_mem_nil, or_false] at hmem
  rcases hmem with rfl | rfl | rfl <;> exact absurd h (by decide)

theorem marker?_eq_none {before cs : List Char} {c : Char}
    (hbefore : ∀ d ∈ before, isBlank d = true) (hblank : isBlank c = false)
    (hc : isMarkerStart c = false) : marker? (before ++ c :: cs) = none := by
  rw [marker?, List.dropWhile_append_of_pos hbefore]
  simp [hblank, markerNames, hc]

theorem flatMap_escape {cs : List Char} (h : ∀ c ∈ cs, c ∉ ['\\', '"', '{']) :
    cs.flatMap escape = cs := by
  induction cs with
  | nil => rfl
  | cons c cs ih =>
    obtain ⟨hc, hcs⟩ := List.forall_mem_cons.1 h
    have hescape : escape c = [c] := by
      unfold escape
      split <;> simp_all
    rw [List.flatMap_cons, hescape, ih hcs]
    rfl

theorem word_of_scan {w : String} {eof : Token}
    (h : Token.scan w = [⟨.ident, w, .start, none⟩, eof]) : ∃ c cs, w.toList = c :: cs ∧
      isWordStart c = true ∧ ∀ d ∈ cs, isWordChar d = true := by
  have hmem : ⟨.ident, w, .start, none⟩ ∈ Token.scan w := by simp [h]
  obtain ⟨text, after, htext, hlexeme⟩ := (Token.isCut_scan w).exists_lexeme hmem nofun
  obtain ⟨c, cs, rfl, hc, hcs, -⟩ := hlexeme.word_of_ident
  refine ⟨c, cs, ?_, hc, hcs⟩
  rw [show w = String.ofList (c :: cs) from htext, String.toList_ofList]

section Names

variable {w : String} {before after : List Char} (hbefore : ∀ d ∈ before, isBlank d = true)
  (hafter : ∀ d ∈ after, isBlank d = true) (mark : Option Mark)
include hbefore hafter

theorem stringLiteral_of_isMarkerName (hw : IsMarkerName w.toList) :
    stringLiteral (bracedName before w after) mark = .string [.identifier (.str w) mark] mark := by
  have hsegments := segmentsFrom_names mark (List.cons_ne_nil w.toList [])
    (List.forall_mem_singleton.2 hw) hbefore hafter [] [] []
  have hjoin : ['.'].intercalate [w.toList] = w.toList := by simp [List.intercalate]
  rw [hjoin] at hsegments
  rw [stringLiteral, bracedName, String.toList_ofList, hsegments, segmentsFrom]
  simp [markerNode, flush]

theorem stringLiteral_of_not_isMarkerStart {c : Char} {cs : List Char} (hw : w.toList = c :: cs)
    (hstart : isWordStart c = true) (hcs : ∀ d ∈ cs, isWordChar d = true)
    (hc : isMarkerStart c = false) :
    stringLiteral (bracedName before w after) mark =
      .string [.raw (.str (bracedName before w after))] mark := by
  have hword := isWordChar_of_isWordStart hstart
  have hnone : marker? (before ++ (w.toList ++ (after ++ ['}']))) = none := by
    rw [hw, List.cons_append]
    exact marker?_eq_none hbefore (isBlank_of_isWordChar hword) hc
  have hplain : ∀ d ∈ before ++ (w.toList ++ (after ++ ['}'])), d ∉ ['\\', '"', '{'] := by
    intro d hd
    apply not_mem_of_plain
    simp only [hw, List.mem_append, List.mem_cons, List.not_mem_nil, or_false] at hd
    rcases hd with hd | (rfl | hd) | hd | rfl
    · exact .inl (hbefore d hd)
    · exact .inr (.inl hword)
    · exact .inr (.inl (hcs d hd))
    · exact .inl (hafter d hd)
    · exact .inr (.inr rfl)
  have hread := segmentsFrom_text mark (before ++ (w.toList ++ (after ++ ['}']))) ['{'] [] []
  rw [flatMap_escape hplain, List.append_nil] at hread
  rw [stringLiteral, bracedName, String.toList_ofList, segmentsFrom, if_pos (beq_self_eq_true '{'),
    hnone]
  · dsimp only
    rw [hread, segmentsFrom]
    simp
  · intro d rest hbrace _
    exact absurd hbrace (by decide)

end Names

section Values

open Run

variable {w : String} {v : Value}

theorem markerValue_identifier {scopes : Chain} (hv : scopes.lookup? (.str w) = some v)
    (hbuiltin : v.type ≠ .builtin) (hfunction : v.type ≠ .function) (mark : Option Mark) :
    markerValue scopes (.identifier (.str w) mark) = .ok v := by
  unfold markerValue pathValue
  rw [hv]
  cases v with
  | builtin b => exact absurd rfl hbuiltin
  | function decl => exact absurd rfl hfunction
  | _ => rfl

/-- A variable is printed alike by its name and by a string that is a marker for it. -/
theorem exec_printLine_identifier (cfg : Config) {depth : Nat} {s : State}
    (hv : s.scopes.lookup? (.str w) = some v) (hbuiltin : v.type ≠ .builtin)
    (hfunction : v.type ≠ .function) (hdepth : v.height < depth) (mark place place' : Option Mark) :
    (Evaluator.ofDepth cfg (depth + 2)).exec
        (.printLine (.string [.identifier (.str w) mark] mark) place) s =
      (Evaluator.ofDepth cfg (depth + 2)).exec
        (.printLine (.identifier (.str w) place') place) s := by
  have hsegment : IsSegment (.identifier (.str w) mark) := .inr (.identifier w mark)
  have hstring (t : State) (ht : t.scopes = s.scopes) :
      (Evaluator.ofDepth cfg (depth + 1)).eval (.string [.identifier (.str w) mark] mark) t =
        .ok (.text v.display) t := by
    have hvalue := markerValue_identifier (ht ▸ hv) hbuiltin hfunction mark
    rw [Evaluator.eval_string cfg (List.forall_mem_singleton.2 hsegment)]
    simp [nesting, rendered, hvalue, shownFor, valueNesting, pathLength, String.join]
    omega
  have hname (t : State) (ht : t.scopes = s.scopes) :
      (Evaluator.ofDepth cfg (depth + 1)).eval (.identifier (.str w) place') t = .ok v t := by
    have hlookup : lookup (.str w) t = .ok (some v) t := by
      rw [lookup_eq, if_pos (isUsable_str w), ht, hv]
    exact bind_of_ok hlookup
  rw [Evaluator.exec_printLine cfg (by simp) (Nat.succ_pos depth) hstring place,
    Evaluator.exec_printLine cfg (by simp) (by omega) hname place]
  rfl

/-- A name between braces is a marker for the variable, which is printed as by its name alone, if it
starts with an ASCII letter or an underscore. Otherwise it is text. -/
theorem stringLiteral_bracedName
    (hw : Token.scan w = [⟨.ident, w, .start, none⟩, .eofAt (Position.start.after w.toList)])
    {before after : List Char} (hbefore : ∀ d ∈ before, isBlank d = true)
    (hafter : ∀ d ∈ after, isBlank d = true) (mark : Option Mark) :
    if w.toList.head?.any isMarkerStart then
      stringLiteral (bracedName before w after) mark = .string [.identifier (.str w) mark] mark ∧
        ∀ (cfg : Config) (depth : Nat) (s : State) (v : Value) (place place' : Option Mark),
          s.scopes.lookup? (.str w) = some v → v.type ≠ .builtin → v.type ≠ .function →
          v.height < depth →
          (Evaluator.ofDepth cfg (depth + 2)).exec
              (.printLine (stringLiteral (bracedName before w after) mark) place) s =
            (Evaluator.ofDepth cfg (depth + 2)).exec
              (.printLine (.identifier (.str w) place') place) s
    else
      stringLiteral (bracedName before w after) mark =
        .string [.raw (.str (bracedName before w after))] mark := by
  obtain ⟨c, cs, hlist, hstart, hcs⟩ := word_of_scan hw
  have hany : w.toList.head?.any isMarkerStart = isMarkerStart c := by simp [hlist]
  rw [hany]
  split
  next hc =>
    have hliteral := stringLiteral_of_isMarkerName hbefore hafter mark ⟨c, cs, hlist, hc, hcs⟩
    refine ⟨hliteral, fun cfg depth s v place place' hv hbuiltin hfunction hdepth => ?_⟩
    rw [hliteral]
    exact exec_printLine_identifier cfg hv hbuiltin hfunction hdepth mark place place'
  next hc =>
    exact stringLiteral_of_not_isMarkerStart hbefore hafter mark hlist hstart hcs
      (by simpa using hc)

/-- Between braces `é` stays text, braces included, and `e` is the variable. -/
theorem stringLiteral_bracedName_accented :
    stringLiteral "\x7bé \x7d" none = .string [.raw (.str "\x7bé \x7d")] none ∧
      stringLiteral "\x7be \x7d" none = .string [.identifier (.str "e") none] none ∧
      let s : State := { scopes := { globals := ⟨[(.str "e", .text "x")]⟩ } }
      (Evaluator.ofDepth {} 3).exec (.printLine (stringLiteral "\x7be \x7d" none) none) s =
        (Evaluator.ofDepth {} 3).exec (.printLine (.identifier (.str "e") none) none) s := by
  have hblank : ∀ d ∈ [' '], isBlank d = true := List.forall_mem_singleton.2 rfl
  have haccented := @stringLiteral_bracedName "é" (by decide +kernel) [] [' ']
    (List.forall_mem_nil _) hblank none
  have hplain := @stringLiteral_bracedName "e" (by decide +kernel) [] [' ']
    (List.forall_mem_nil _) hblank none
  rw [if_neg (by decide)] at haccented
  rw [if_pos (by decide)] at hplain
  exact ⟨haccented, hplain.1, hplain.2 {} 1 _ (.text "x") none none rfl nofun nofun (by decide)⟩

end Values

end Syntax

end Orus
