import Orus.Proofs.Escapes
import Orus.Proofs.Subtrees
import Orus.Syntax.Codec

/-! # Trees survive as JSON

Writing a tree as JSON and reading it again gives the tree back, with its places, for every
tree that was read from a source text or from JSON. Reading is lenient, so a tree may come
from many JSON values; the one it is written to is the canonical one among them.
-/

namespace Orus

/-- A value without parts, which can stand in the place of a tree. -/
def Json.IsPlain : Json → Prop
  | .arr _ | .obj _ => False
  | _ => True

def Node.IsWritable (n : Node) : Prop :=
  ∀ value, n = .raw value → value.IsPlain

namespace Syntax

/-! ## Reading what was written -/

section RoundTrip

variable {enc : Node → Except Fault Json} {dec : Json → Except Fault Node}

/-- Reading what is written for a tree gives the tree back. -/
def Restored (enc : Node → Except Fault Json) (dec : Json → Except Fault Node) (n : Node) : Prop :=
  ∃ value, enc n = .ok value ∧ dec value = .ok n

theorem mapM_restored {ns : List Node} (h : ∀ n ∈ ns, Restored enc dec n) :
    ∃ values, ns.mapM enc = .ok values ∧ values.mapM dec = .ok ns := by
  induction ns with
  | nil => exact ⟨[], rfl, rfl⟩
  | cons n ns ih =>
    obtain ⟨⟨value, he, hd⟩, hns⟩ := List.forall_mem_cons.1 h
    obtain ⟨values, hes, hds⟩ := ih hns
    refine ⟨value :: values, ?_, ?_⟩
    · rw [List.mapM_cons, he, hes]
      rfl
    · rw [List.mapM_cons, hd, hds]
      rfl

theorem decodeMark_encodeMark (mark : Option Mark) : decodeMark (encodeMark mark) = .ok mark := by
  cases mark <;> rfl

/-- The parts of a tree are read back if the trees among them are. No part is taken for
the place of the tree. -/
theorem parts_restored {n : Node} (hn : ∀ value, n ≠ .raw value)
    (h : ∀ c ∈ n.children, Restored enc dec c) :
    ∃ parts, encodeParts enc n = .ok parts ∧ ∀ type place,
      optional (("type", type) :: (parts ++ [("position", place)])) "position" .null = place ∧
      decodeParts dec (("type", type) :: (parts ++ [("position", place)])) n.mark
        (.str n.typeName) = .ok n := by
  cases n with
  | raw value => exact absurd rfl (hn value)
  | breakLoop mark | continueLoop mark | nilLiteral mark =>
    exact ⟨[], rfl, fun _ _ => ⟨rfl, rfl⟩⟩
  | identifier name mark | number x mark => exact ⟨_, rfl, fun _ _ => ⟨rfl, rfl⟩⟩
  | fnDecl _ _ part | letDecl _ part | assignment _ part | printLine part | returnWith part
  | expression part | unary _ part | field part =>
    obtain ⟨value, he, hd⟩ := List.forall_mem_singleton.1 h
    refine ⟨_, by rw [encodeParts, he]; rfl, fun type place => ⟨rfl, ?_⟩⟩
    simp [decodeParts, required, optional, Json.field?, Json.toItems, Json.isTrue, Node.typeName,
      Node.mark, bind, Except.bind, pure, Except.pure, hd]
  | forIn _ first second | whileLoop first second | range first second | binary _ first second
  | index first second =>
    obtain ⟨⟨value, he, hd⟩, hsecond⟩ := List.forall_mem_cons.1 h
    obtain ⟨value', he', hd'⟩ := List.forall_mem_singleton.1 hsecond
    refine ⟨_, by rw [encodeParts, he, he']; rfl, fun type place => ⟨rfl, ?_⟩⟩
    simp [decodeParts, required, Json.field?, Node.typeName, Node.mark, bind, Except.bind, pure,
      Except.pure, hd, hd']
  | ifElse cond thenPart elsePart mark =>
    obtain ⟨⟨value, he, hd⟩, hblocks⟩ := List.forall_mem_cons.1 h
    obtain ⟨⟨value', he', hd'⟩, helse⟩ := List.forall_mem_cons.1 hblocks
    obtain ⟨value'', he'', hd''⟩ := List.forall_mem_singleton.1 helse
    refine ⟨_, by rw [encodeParts, he, he', he'']; rfl, fun type place => ⟨rfl, ?_⟩⟩
    simp [decodeParts, required, optional, Json.field?, Node.typeName, Node.mark, bind,
      Except.bind, pure, Except.pure, hd, hd', hd'']
  | block ns | array ns | string ns | call _ ns =>
    have hns : ∀ n ∈ ns, Restored enc dec n := h
    obtain ⟨values, he, hd⟩ := mapM_restored hns
    refine ⟨_, by rw [encodeParts, he]; rfl, fun type place => ⟨rfl, ?_⟩⟩
    simp [decodeParts, decodeMany, required, Json.field?, Json.toItems, Node.typeName, Node.mark,
      bind, Except.bind, pure, Except.pure, hd]
  | program functions globals length mark =>
    obtain ⟨hfunctions, hglobals⟩ := List.forall_mem_append.1 h
    obtain ⟨values, he, hd⟩ := mapM_restored hfunctions
    obtain ⟨values', he', hd'⟩ := mapM_restored hglobals
    refine ⟨_, by rw [encodeParts, he, he']; rfl, fun type place => ⟨rfl, ?_⟩⟩
    simp [decodeParts, decodeMany, required, optional, Json.field?, Json.toItems, Json.toWhole,
      Node.typeName, Node.mark, bind, Except.bind, pure, Except.pure, hd, hd']

/-- A tree is read back within a depth that holds it. -/
theorem restored_within {depth : Nat} {n : Node} (h : n.Everywhere Node.IsWritable)
    (hdepth : n.nestsWithin depth = true) :
    Restored (encodeWithin depth) (decodeWithin depth) n := by
  induction depth generalizing n with
  | zero => cases hdepth
  | succ depth ih =>
    have hchildren : ∀ c ∈ n.children, Restored (encodeWithin depth) (decodeWithin depth) c :=
      fun c hc => ih (h.inside c hc) (Node.nestsWithin_succ.1 hdepth c hc)
    by_cases hraw : ∃ value, n = .raw value
    · obtain ⟨value, rfl⟩ := hraw
      have hplain := h.here value rfl
      cases value with
      | arr | obj => exact hplain.elim
      | _ => exact ⟨_, rfl, rfl⟩
    · have hn : ∀ value, n ≠ .raw value := fun value hv => hraw ⟨value, hv⟩
      obtain ⟨parts, he, hd⟩ := parts_restored hn hchildren
      obtain ⟨hplace, hparts⟩ := hd (.str n.typeName) (encodeMark n.mark)
      refine ⟨encodeFields n parts, ?_, ?_⟩
      · cases n with
        | raw value => exact absurd rfl (hn value)
        | _ =>
          rw [encodeWithin, he]
          · rfl
          · exact nofun
      · change (decodeMark _ >>= fun mark => decodeParts _ _ mark (.str n.typeName)) = _
        rw [hplace, decodeMark_encodeMark]
        exact hparts

end RoundTrip

/-! ## Trees that are read -/

section Reading

variable {α β : Type}

def Decodes (P : α → Prop) (r : Except Fault α) : Prop :=
  ∀ a, r = .ok a → P a

theorem decodes_ok {P : α → Prop} {a : α} (h : P a) : Decodes P (.ok a) := by
  rintro _ ⟨⟩
  exact h

theorem decodes_error {P : α → Prop} (fault : Fault) : Decodes P (.error fault) :=
  fun _ h => nomatch h

theorem decodes_anything (r : Except Fault α) : Decodes (fun _ => True) r :=
  fun _ _ => trivial

theorem Decodes.bind {P : α → Prop} {Q : β → Prop} {r : Except Fault α} {k : α → Except Fault β}
    (hr : Decodes P r) (hk : ∀ a, P a → Decodes Q (k a)) : Decodes Q (r >>= k) := by
  cases r with
  | ok a => exact hk a (hr a rfl)
  | error fault => exact decodes_error fault

def IsDecoded (child : Json → Except Fault Node) (n : Node) : Prop :=
  ∃ value, child value = .ok n

variable (child : Json → Except Fault Node) (fields : List (String × Json))

theorem decodes_child (value : Json) : Decodes (IsDecoded child) (child value) :=
  fun _ hn => ⟨value, hn⟩

theorem decodes_part (key : String) :
    Decodes (IsDecoded child) (do child (← required fields key)) :=
  (decodes_anything _).bind fun value _ => decodes_child child value

theorem decodes_mapM (values : List Json) :
    Decodes (fun ns => ∀ n ∈ ns, IsDecoded child n) (values.mapM child) := by
  induction values with
  | nil => exact decodes_ok (List.forall_mem_nil _)
  | cons value values ih =>
    rw [List.mapM_cons]
    refine (decodes_child child value).bind fun n hn => ih.bind fun ns hns => ?_
    exact decodes_ok (List.forall_mem_cons.2 ⟨hn, hns⟩)

theorem decodes_many (value : Json) :
    Decodes (fun ns => ∀ n ∈ ns, IsDecoded child n) (decodeMany child value) :=
  (decodes_anything _).bind fun values _ => decodes_mapM child values

theorem decodes_parts (key : String) :
    Decodes (fun ns => ∀ n ∈ ns, IsDecoded child n)
      (do decodeMany child (← required fields key)) :=
  (decodes_anything _).bind fun value _ => decodes_many child value

/-- A tree of a type of its own, below which there are only trees that were read. -/
structure IsAssembled (n : Node) : Prop where
  notRaw : ∀ value, n ≠ .raw value
  children : ∀ c ∈ n.children, IsDecoded child c

theorem decodes_decodeParts (mark : Option Mark) (type : Json) :
    Decodes (IsAssembled child) (decodeParts child fields mark type) := by
  have hpart := decodes_part child fields
  have hparts := decodes_parts child fields
  have hone {a : Node} (ha : IsDecoded child a) : ∀ c ∈ [a], IsDecoded child c :=
    List.forall_mem_singleton.2 ha
  have htwo {a b : Node} (ha : IsDecoded child a) (hb : IsDecoded child b) :
      ∀ c ∈ [a, b], IsDecoded child c :=
    List.forall_mem_cons.2 ⟨ha, hone hb⟩
  have hnone : ∀ c ∈ [], IsDecoded child c := List.forall_mem_nil _
  unfold decodeParts
  dsimp only
  split
  · refine (hparts _).bind fun functions hf => (decodes_many child _).bind fun globals hg => ?_
    refine (decodes_anything _).bind fun length _ => decodes_ok ⟨nofun, ?_⟩
    exact List.forall_mem_append.2 ⟨hf, hg⟩
  · refine (decodes_anything _).bind fun name _ => (decodes_anything _).bind fun items _ => ?_
    refine (decodes_anything _).bind fun params _ => (hpart _).bind fun body hb => ?_
    exact decodes_ok ⟨nofun, hone hb⟩
  · refine (decodes_anything _).bind fun name _ => (hpart _).bind fun value hv => ?_
    exact decodes_ok ⟨nofun, hone hv⟩
  · exact (hparts _).bind fun statements hs => decodes_ok ⟨nofun, hs⟩
  · refine (decodes_anything _).bind fun name _ => (hpart _).bind fun expr he => ?_
    exact decodes_ok ⟨nofun, hone he⟩
  · exact (decodes_child child _).bind fun expr he => decodes_ok ⟨nofun, hone he⟩
  · refine (hpart _).bind fun cond hc => (hpart _).bind fun thenPart ht => ?_
    refine (decodes_child child _).bind fun elsePart he => decodes_ok ⟨nofun, ?_⟩
    exact List.forall_mem_cons.2 ⟨hc, htwo ht he⟩
  · refine (decodes_anything _).bind fun name _ => (hpart _).bind fun iterable hi => ?_
    exact (hpart _).bind fun body hb => decodes_ok ⟨nofun, htwo hi hb⟩
  · refine (hpart _).bind fun cond hc => (hpart _).bind fun body hb => ?_
    exact decodes_ok ⟨nofun, htwo hc hb⟩
  · exact decodes_ok ⟨nofun, hnone⟩
  · exact decodes_ok ⟨nofun, hnone⟩
  · exact (decodes_child child _).bind fun value hv => decodes_ok ⟨nofun, hone hv⟩
  · exact (hpart _).bind fun expr he => decodes_ok ⟨nofun, hone he⟩
  · exact (hparts _).bind fun elements he => decodes_ok ⟨nofun, he⟩
  · refine (hpart _).bind fun first hf => (hpart _).bind fun last hl => ?_
    exact decodes_ok ⟨nofun, htwo hf hl⟩
  · refine (decodes_anything _).bind fun op _ => (hpart _).bind fun left hl => ?_
    exact (hpart _).bind fun right hr => decodes_ok ⟨nofun, htwo hl hr⟩
  · refine (decodes_anything _).bind fun op _ => (hpart _).bind fun operand ho => ?_
    exact decodes_ok ⟨nofun, hone ho⟩
  · exact (decodes_anything _).bind fun name _ => decodes_ok ⟨nofun, hnone⟩
  · refine (decodes_anything _).bind fun value _ => (decodes_anything _).bind fun x _ => ?_
    exact decodes_ok ⟨nofun, hnone⟩
  · exact (hparts _).bind fun segments hs => decodes_ok ⟨nofun, hs⟩
  · exact decodes_ok ⟨nofun, hnone⟩
  · refine (decodes_anything _).bind fun name _ => (hparts _).bind fun args ha => ?_
    exact decodes_ok ⟨nofun, ha⟩
  · refine (hpart _).bind fun target ht => (hpart _).bind fun position hp => ?_
    exact decodes_ok ⟨nofun, htwo ht hp⟩
  · refine (hpart _).bind fun target ht => (decodes_anything _).bind fun name _ => ?_
    exact decodes_ok ⟨nofun, hone ht⟩
  · exact decodes_error _

end Reading

/-- A tree that is read from JSON can be written and fits in the depth it was read with. -/
theorem isWritable_of_decodeWithin {depth : Nat} {value : Json} {n : Node}
    (h : decodeWithin depth value = .ok n) :
    n.Everywhere Node.IsWritable ∧ n.nestsWithin depth = true := by
  induction depth generalizing value n with
  | zero => cases h
  | succ depth ih =>
    cases value with
    | arr items => cases h
    | obj fields =>
      have hdecodes : Decodes (IsAssembled (decodeWithin depth))
          (decodeWithin (depth + 1) (.obj fields)) :=
        (decodes_anything _).bind fun mark _ => decodes_decodeParts _ fields mark _
      obtain ⟨hraw, hchildren⟩ := hdecodes n h
      refine ⟨.intro (fun value hv => absurd hv (hraw value)) fun c hc => ?_,
        Node.nestsWithin_succ.2 fun c hc => ?_⟩
      all_goals obtain ⟨part, hpart⟩ := hchildren c hc
      · exact (ih hpart).1
      · exact (ih hpart).2
    | _ =>
      cases h
      exact ⟨.intro (by rintro _ ⟨⟩; trivial) (List.forall_mem_nil _), rfl⟩

/-! ## Trees that are parsed -/

section Parsing

variable {n : Node}

theorem isWritable_absent : Node.absent.Everywhere Node.IsWritable :=
  .intro (by rintro _ ⟨⟩; trivial) (List.forall_mem_nil _)

theorem isWritable_of_isPath (h : IsPath n) : n.Everywhere Node.IsWritable := by
  induction h with
  | identifier => exact .intro nofun (List.forall_mem_nil _)
  | field _ _ _ ih => exact .intro nofun (List.forall_mem_singleton.2 ih)

theorem isWritable_of_isSegment (h : IsSegment n) : n.Everywhere Node.IsWritable := by
  obtain ⟨text, rfl⟩ | hpath := h
  · exact .intro (by rintro _ ⟨⟩; trivial) (List.forall_mem_nil _)
  · exact isWritable_of_isPath hpath

theorem isWritable_of_isExpression (h : IsExpression n) : n.Everywhere Node.IsWritable := by
  induction h with
  | number | nilLiteral | identifier => exact .intro nofun (List.forall_mem_nil _)
  | string _ hsegments => exact .intro nofun fun c hc => isWritable_of_isSegment (hsegments c hc)
  | array _ _ ih | call _ _ _ ih => exact .intro nofun ih
  | unary _ _ _ ih | assignment _ _ _ ih | field _ _ _ ih =>
    exact .intro nofun (List.forall_mem_singleton.2 ih)
  | range _ _ _ ih ih' | binary _ _ _ _ ih ih' | index _ _ _ ih ih' =>
    exact .intro nofun (List.forall_mem_cons.2 ⟨ih, List.forall_mem_singleton.2 ih'⟩)

theorem isWritable_of_isOptionalExpression (h : IsOptionalExpression n) :
    n.Everywhere Node.IsWritable := by
  obtain rfl | hn := h
  · exact isWritable_absent
  · exact isWritable_of_isExpression hn

theorem isWritable_block {statements : List Node} (mark : Option Mark)
    (h : ∀ n ∈ statements, n.Everywhere Node.IsWritable) :
    (Node.block statements mark).Everywhere Node.IsWritable :=
  .intro nofun h

theorem isWritable_of_isStatement {inFunction inLoop : Bool} (h : IsStatement inFunction inLoop n) :
    n.Everywhere Node.IsWritable := by
  induction h with
  | letDecl _ _ _ hexpr | expression _ hexpr =>
    exact .intro nofun (List.forall_mem_singleton.2 (isWritable_of_isExpression hexpr))
  | assignment hexpr => exact isWritable_of_isExpression hexpr
  | printLine _ hexpr | returnWith _ _ hexpr =>
    exact .intro nofun (List.forall_mem_singleton.2 (isWritable_of_isOptionalExpression hexpr))
  | block mark _ ih => exact isWritable_block mark ih
  | ifOnly thenMark _ hcond _ ih =>
    refine .intro nofun (List.forall_mem_cons.2 ⟨isWritable_of_isExpression hcond, ?_⟩)
    exact List.forall_mem_cons.2
      ⟨isWritable_block thenMark ih, List.forall_mem_singleton.2 isWritable_absent⟩
  | ifElse thenMark elseMark _ hcond _ _ ih ih' =>
    refine .intro nofun (List.forall_mem_cons.2 ⟨isWritable_of_isExpression hcond, ?_⟩)
    exact List.forall_mem_cons.2
      ⟨isWritable_block thenMark ih, List.forall_mem_singleton.2 (isWritable_block elseMark ih')⟩
  | ifChain thenMark _ hcond _ _ ih ih' =>
    refine .intro nofun (List.forall_mem_cons.2 ⟨isWritable_of_isExpression hcond, ?_⟩)
    exact List.forall_mem_cons.2 ⟨isWritable_block thenMark ih, List.forall_mem_singleton.2 ih'⟩
  | forIn _ bodyMark _ hexpr _ ih | whileLoop bodyMark _ hexpr _ ih =>
    refine .intro nofun (List.forall_mem_cons.2 ⟨isWritable_of_isExpression hexpr, ?_⟩)
    exact List.forall_mem_singleton.2 (isWritable_block bodyMark ih)
  | breakLoop | continueLoop => exact .intro nofun (List.forall_mem_nil _)

theorem isWritable_of_isFunction (h : IsFunction n) : n.Everywhere Node.IsWritable := by
  obtain ⟨name, params, body, mark, rfl, -, ⟨statements, bodyMark, rfl, hstatements⟩⟩ := h
  have hbody := isWritable_block bodyMark fun c hc => isWritable_of_isStatement (hstatements c hc)
  exact .intro nofun (List.forall_mem_singleton.2 hbody)

theorem isWritable_of_isProgram (h : IsProgram n) : n.Everywhere Node.IsWritable := by
  obtain ⟨functions, globals, length, mark, rfl, hfunctions, hglobals, -⟩ := h
  refine .intro nofun (List.forall_mem_append.2 ⟨fun c hc => ?_, fun c hc => ?_⟩)
  · exact isWritable_of_isFunction (hfunctions c hc)
  · exact isWritable_of_isStatement (hglobals c hc)

theorem isWritable_of_parse {source : String} (h : parse source = .ok n) :
    n.Everywhere Node.IsWritable := by
  obtain ⟨program, hp, hprogram⟩ | ⟨e, he⟩ := Run.parse_cases source
  · cases hp.symm.trans h
    exact isWritable_of_isProgram hprogram
  · cases he.symm.trans h

end Parsing

/-! ## No loss -/

inductive IsRead : Node → Prop where
  | parsed {source : String} {n : Node} : parse source = .ok n → IsRead n
  | decoded {value : Json} {n : Node} : decode value = .ok n → IsRead n

theorem restored_of_isRead {n : Node} (h : IsRead n) (hn : n.nestsWithin nestingLimit = true) :
    Restored encode decode n := by
  cases h with
  | parsed hparse => exact restored_within (isWritable_of_parse hparse) hn
  | decoded hdecode => exact restored_within (isWritable_of_decodeWithin hdecode).1 hn

/-- Every tree that is read and fits in the nesting limit can be written and is read back
as it was. So what an accepted JSON value is rewritten to is rewritten to itself, and a
program runs after writing and reading as it does from its source text. -/
theorem encode_lossless :
    (∀ n, IsRead n → n.nestsWithin nestingLimit = true →
      ∃ value, encode n = .ok value ∧ decode value = .ok n) ∧
    (∀ value n, decode value = .ok n →
      ∃ value', encode n = .ok value' ∧ (decode value' >>= encode) = .ok value') ∧
    ∀ (cfg : Run.Config) (mode : Name) source p, parse source = .ok p →
      p.nestsWithin nestingLimit = true →
      ∃ value p', encode p = .ok value ∧ decode value = .ok p' ∧
        Run.run cfg mode p' = Run.simulate cfg mode source := by
  refine ⟨fun n h hn => restored_of_isRead h hn, fun value n h => ?_,
    fun cfg mode source p h hp => ?_⟩
  · have hn := (isWritable_of_decodeWithin h).2
    obtain ⟨value', he, hd⟩ := restored_of_isRead (.decoded h) hn
    exact ⟨value', he, by rw [hd]; exact he⟩
  · obtain ⟨value, he, hd⟩ := restored_of_isRead (.parsed h) hp
    refine ⟨value, p, he, hd, ?_⟩
    rw [Run.simulate, h]

/-- A function with a number for its name, the characters of a text for its parameters and
no place. In its body stand a truth value, a number written as text and a condition whose
second block is left out. -/
def looseTree : Json :=
  .obj [("type", .str "FnDecl"), ("name", .float 1.5), ("params", .str "ab"),
    ("body", .obj [("type", .str "Block"),
      ("position", .obj [("line", .str "x"), ("column", .null)]),
      ("statements", .arr [.bool true,
        .obj [("type", .str "NumberLiteral"), ("value", .str " 1_0 ")],
        .obj [("type", .str "IfStmt"), ("cond", .int 1), ("then_block", .null)]])])]

def failingSource : String :=
  "let n = 1; fn main() \x7b print(\"\x7bx\x7d\"); if n \x7b n = [n][5]; \x7d \x7d"

def fits {ε : Type} : Except ε Node → Bool
  | .ok n => n.nestsWithin nestingLimit
  | .error _ => false

theorem exists_of_fits {ε : Type} {r : Except ε Node} (h : fits r = true) :
    ∃ n, r = .ok n ∧ n.nestsWithin nestingLimit = true := by
  cases r with
  | ok n => exact ⟨n, rfl, h⟩
  | error e => cases h

theorem encode_lossless_looseTree :
    (∃ n, decode looseTree = .ok n ∧
      (∃ value, encode n = .ok value ∧ decode value = .ok n) ∧
      ∃ value, encode n = .ok value ∧ (decode value >>= encode) = .ok value) ∧
    ∃ p, parse failingSource = .ok p ∧ ∃ value p', encode p = .ok value ∧
      decode value = .ok p' ∧
      Run.run {} (.str "debug") p' = Run.simulate {} (.str "debug") failingSource := by
  obtain ⟨n, hn, hfits⟩ := exists_of_fits (r := decode looseTree) (by decide +kernel)
  obtain ⟨p, hp, hfits'⟩ := exists_of_fits (r := parse failingSource) (by decide +kernel)
  obtain ⟨hback, hidempotent, hrun⟩ := encode_lossless
  exact ⟨⟨n, hn, hback n (.decoded hn) hfits, hidempotent looseTree n hn⟩, p, hp,
    hrun {} (.str "debug") failingSource p hp hfits'⟩

end Syntax

end Orus
