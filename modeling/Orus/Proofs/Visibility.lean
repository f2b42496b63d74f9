import Orus.Proofs.Escapes
import Orus.Proofs.FinalScopes
import Orus.Proofs.RaisedLimits

/-! # What the dump shows

The dump shows under each name what `main` has under it, or else what the globals have, and
it leaves functions out of both before it puts them together. That is what a lookup from
`main` gives, with one exception: where a variable of `main` hides a global and is a
function, the dump shows the hidden global.
-/

namespace Orus

open Run

/-! ## Variables put together -/

namespace Frame

theorem find?_putBinding (name : Name) (v : Value) (done : List (Name × Value)) (n : Name) :
    find? ⟨putBinding name v done⟩ n = if Name.same name n then some v else find? ⟨done⟩ n := by
  induction done with
  | nil => rw [putBinding, find?_cons]
  | cons c rest ih =>
    rw [putBinding]
    split
    next hsame =>
      rw [find?_cons, find?_cons, Name.same_congr hsame]
      split <;> rfl
    next hother =>
      rw [find?_cons, ih, find?_cons]
      split
      next hn =>
        have hname : ¬ Name.same name n = true := fun h =>
          hother (Name.same_iff.2 ((Name.same_iff.1 hn).trans (Name.same_iff.1 h).symm))
        rw [if_neg hname]
      · rfl

theorem fst_of_mem_putBinding {name : Name} {v : Value} {done : List (Name × Value)}
    {b : Name × Value} (h : b ∈ putBinding name v done) :
    b.1 = name ∨ ∃ c ∈ done, c.1 = b.1 := by
  induction done with
  | nil =>
    cases List.mem_singleton.1 h
    exact .inl rfl
  | cons c rest ih =>
    rw [putBinding] at h
    split at h <;> rcases List.mem_cons.1 h with rfl | hrest
    · exact .inr ⟨c, List.mem_cons_self, rfl⟩
    · exact .inr ⟨b, List.mem_cons_of_mem c hrest, rfl⟩
    · exact .inr ⟨_, List.mem_cons_self, rfl⟩
    · refine (ih hrest).imp_right ?_
      rintro ⟨d, hd, hdb⟩
      exact ⟨d, List.mem_cons_of_mem c hd, hdb⟩

theorem IsDistinct.putBinding {done : List (Name × Value)} (h : IsDistinct ⟨done⟩) (name : Name)
    (v : Value) : IsDistinct ⟨putBinding name v done⟩ := by
  induction done with
  | nil => exact List.pairwise_singleton _ _
  | cons c rest ih =>
    obtain ⟨hc, hrest⟩ := List.pairwise_cons.1 h
    rw [Run.putBinding]
    split
    · exact List.pairwise_cons.2 ⟨hc, hrest⟩
    next hother =>
      refine List.pairwise_cons.2 ⟨fun b hb => ?_, ih hrest⟩
      rcases fst_of_mem_putBinding hb with hname | ⟨d, hd, hdb⟩
      · rw [hname]
        exact Bool.eq_false_iff.2 hother
      · rw [← hdb]
        exact hc d hd

/-- Later variables hide earlier ones of the same name. -/
theorem IsDistinct.find?_foldl {own : List (Name × Value)} (h : IsDistinct ⟨own⟩)
    (done : List (Name × Value)) (n : Name) :
    find? ⟨own.foldl (fun done (name, value) => Run.putBinding name value done) done⟩ n =
      (find? ⟨own⟩ n).or (find? ⟨done⟩ n) := by
  induction own generalizing done with
  | nil => rfl
  | cons c rest ih =>
    obtain ⟨hc, hrest⟩ := List.pairwise_cons.1 h
    rw [List.foldl_cons, ih hrest, find?_putBinding, find?_cons]
    split
    next hsame => rw [find?_eq_none hc hsame]; rfl
    · rfl

theorem IsTextual.data {f : Frame} (h : f.IsTextual) : IsTextual ⟨f.data⟩ where
  distinct := h.distinct.sublist List.filter_sublist
  text b hb := h.text b (List.mem_filter.1 hb).1

theorem IsTextual.foldl {own done : List (Name × Value)} (hown : ∀ b ∈ own, ∃ t, b.1 = .str t)
    (hdone : IsTextual ⟨done⟩) :
    IsTextual ⟨own.foldl (fun done (name, value) => Run.putBinding name value done) done⟩ := by
  induction own generalizing done with
  | nil => exact hdone
  | cons c rest ih =>
    obtain ⟨⟨t, hc⟩, hrest⟩ := List.forall_mem_cons.1 hown
    refine ih hrest ⟨hdone.distinct.putBinding c.1 c.2, fun b hb => ?_⟩
    rcases fst_of_mem_putBinding hb with hname | ⟨d, hd, hdb⟩
    · exact ⟨t, hname.trans hc⟩
    · obtain ⟨u, hu⟩ := hdone.text d hd
      exact ⟨u, hdb.symm.trans hu⟩

end Frame

namespace Run

def shown? (globals main : Frame) (name : Name) : Option Value :=
  ((main.find? name).filter fun v => !v.isFunction).or
    ((globals.find? name).filter fun v => !v.isFunction)

theorem mem_of_mapM_ok {α β : Type} {f : α → Except Fault β} {xs : List α} {ys : List β}
    (h : xs.mapM f = .ok ys) :
    (∀ x ∈ xs, ∃ y ∈ ys, f x = .ok y) ∧ ∀ y ∈ ys, ∃ x ∈ xs, f x = .ok y := by
  induction xs generalizing ys with
  | nil =>
    cases h
    exact ⟨nofun, nofun⟩
  | cons x rest ih =>
    rw [List.mapM_cons] at h
    obtain ⟨y, hx, h⟩ := Limits.bind_eq_ok h
    obtain ⟨more, hrest, h⟩ := Limits.bind_eq_ok h
    cases h
    obtain ⟨hgiven, hfound⟩ := ih hrest
    refine ⟨List.forall_mem_cons.2 ⟨⟨y, List.mem_cons_self, hx⟩, fun z hz => ?_⟩,
      List.forall_mem_cons.2 ⟨⟨x, List.mem_cons_self, hx⟩, fun z hz => ?_⟩⟩
    · obtain ⟨w, hw, hzw⟩ := hgiven z hz
      exact ⟨w, List.mem_cons_of_mem y hw, hzw⟩
    · obtain ⟨w, hw, hwz⟩ := hfound z hz
      exact ⟨w, List.mem_cons_of_mem x hw, hwz⟩

def dumpField (b : Name × Value) : Except Fault (String × Json) := do
  let value ← b.2.toData rejectFunction
  return (dumpKey b.1, value)

theorem of_dumpField {b : Name × Value} {key : String} {data : Json}
    (h : dumpField b = .ok (key, data)) :
    dumpKey b.1 = key ∧ b.2.toData rejectFunction = .ok data := by
  obtain ⟨value, hvalue, h⟩ := Limits.bind_eq_ok h
  cases h
  exact ⟨rfl, hvalue⟩

theorem mapM_of_dumpData {depth : Nat} {globals : Frame} {main : Option Frame} {shown : Json}
    (h : dumpData depth globals main = .ok shown) :
    ∃ fields, shown = .obj fields ∧ (dumpedVariables globals main).mapM dumpField = .ok fields := by
  unfold dumpData at h
  split at h
  · cases h
  · obtain ⟨fields, hfields, h⟩ := Limits.bind_eq_ok h
    cases h
    exact ⟨fields, rfl, hfields⟩

section Dump

variable {globals main : Frame} (hglobals : globals.IsTextual) (hmain : main.IsTextual)
include hglobals hmain

theorem isTextual_dumpedVariables : Frame.IsTextual ⟨dumpedVariables globals (some main)⟩ :=
  .foldl hmain.data.text hglobals.data

theorem find?_dumpedVariables (name : Name) :
    Frame.find? ⟨dumpedVariables globals (some main)⟩ name = shown? globals main name := by
  unfold dumpedVariables ownVariables shown?
  rw [hmain.data.distinct.find?_foldl, hmain.distinct.find?_data, hglobals.distinct.find?_data]

/-- The fields of the dump are the shown values as data, and no shown value is missing. -/
theorem fields_of_dumpData {depth : Nat} {shown : Json}
    (h : dumpData depth globals (some main) = .ok shown) :
    ∃ fields, shown = .obj fields ∧
      (∀ t v, shown? globals main (.str t) = some v →
        ∃ data, (t, data) ∈ fields ∧ v.toData rejectFunction = .ok data) ∧
      ∀ t data, (t, data) ∈ fields →
        ∃ v, shown? globals main (.str t) = some v ∧ v.toData rejectFunction = .ok data := by
  obtain ⟨fields, rfl, hfields⟩ := mapM_of_dumpData h
  obtain ⟨hgiven, hfound⟩ := mem_of_mapM_ok hfields
  have htextual := isTextual_dumpedVariables hglobals hmain
  have hfind := find?_dumpedVariables hglobals hmain
  refine ⟨fields, rfl, fun t v hv => ?_, fun t data hdata => ?_⟩
  · rw [← hfind, ← htextual.mem_iff] at hv
    obtain ⟨⟨key, data⟩, hmem, hdata⟩ := hgiven _ hv
    obtain ⟨rfl, hvalue⟩ := of_dumpField hdata
    exact ⟨data, hmem, hvalue⟩
  · obtain ⟨⟨name, v⟩, hmem, hv⟩ := hfound _ hdata
    obtain ⟨u, rfl⟩ := htextual.text _ hmem
    obtain ⟨rfl, hvalue⟩ := of_dumpField hv
    exact ⟨v, by rwa [← hfind, ← htextual.mem_iff], hvalue⟩

end Dump

variable {cfg : Config}

/-! ## The dump of a run -/

def variableLines (shown : Json) (sourceLength : Int) : List String :=
  ["", "--- Debug Information ---"] ++ Text.lines s!"Variables: {shown.indented}" ++
    [s!"Code size: {sourceLength} characters"]

theorem dumpData_of_resultOf {length : Int} {s : State} {error : Option Error} {r : Result}
    (h : resultOf .debug length s error = .ok r) (hgraceful : r.error.all isGraceful = true) :
    ∃ shown, dumpData nestingLimit s.scopes.globals s.scopes.locals.head? = .ok shown ∧
      r.lines = s.output.toList ++ variableLines shown length := by
  obtain ⟨lines, hlines, h⟩ := Limits.bind_eq_ok h
  have hshown : r.lines = lines ∧ error.all isGraceful = true := by
    cases error with
    | none =>
      cases h
      exact ⟨List.append_nil lines, rfl⟩
    | some e =>
      cases h
      simp only [Option.all_some, isGraceful, cause_placed] at hgraceful
      exact ⟨rfl, hgraceful⟩
  unfold shownLines at hlines
  rw [if_pos ⟨rfl, hshown.2⟩] at hlines
  obtain ⟨dumped, hdumped, hlines⟩ := Limits.bind_eq_ok hlines
  obtain ⟨shown, hdata, hdumped⟩ := Limits.bind_eq_ok hdumped
  cases hdumped
  cases hlines
  exact ⟨shown, hdata, hshown.1⟩

theorem dumpData_of_outcomeOf {length : Int} {e : EStateM.Result Stop State Unit} {r : Result}
    (h : (outcomeOf cfg .debug length e).result = .ok r)
    (hgraceful : r.error.all isGraceful = true) :
    ∃ shown, dumpData nestingLimit (endState e).scopes.globals (endState e).scopes.locals.head? =
        .ok shown ∧
      r.lines = (endState e).output.toList ++ variableLines shown length := by
  cases e with
  | ok a t => exact dumpData_of_resultOf h hgraceful
  | error stop t =>
    cases stop with
    | error e => exact dumpData_of_resultOf h hgraceful
    | _ => cases h

/-- A variable of `main` that is a function hides a global that is not one. -/
def IsHidden (globals main : Frame) (name : Name) : Prop :=
  ∃ f v, main.find? name = some f ∧ f.isFunction = true ∧
    globals.find? name = some v ∧ v.isFunction = false

/-- The fields of a dump show under a name what a lookup from `main` gives, unless it is a
function. -/
structure ShowsLookup (scopes : Chain) (main : Frame) (fields : List (String × Json))
    (t : String) : Prop where
  key : t ∈ fields.map Prod.fst ↔
    (scopes.globals.declares (.str t) = true ∨ main.declares (.str t) = true) ∧
      ∃ v, scopes.lookup? (.str t) = some v ∧ v.isFunction = false
  value : ∀ v data, scopes.lookup? (.str t) = some v → (t, data) ∈ fields →
    v.toData rejectFunction = .ok data

theorem shown?_of_not_isHidden {globals main : Frame} {name : Name}
    (h : ¬ IsHidden globals main name) :
    shown? globals main name =
      ((main.find? name).or (globals.find? name)).filter fun v => !v.isFunction := by
  unfold shown?
  cases hmain : main.find? name with
  | none => rfl
  | some f =>
    cases hf : f.isFunction with
    | false => simp only [Option.filter_some, hf, Bool.not_false, ↓reduceIte, Option.some_or]
    | true =>
      have hglobals : (globals.find? name).filter (fun v => !v.isFunction) = none := by
        refine Option.filter_eq_none_iff.2 fun v hv hkept => h ⟨f, v, hmain, hf, hv, ?_⟩
        rwa [Bool.not_eq_true'] at hkept
      simp only [Option.filter_some, hf, Bool.not_true, Bool.false_eq_true, ↓reduceIte,
        Option.none_or, Option.some_or, hglobals]

theorem shown?_of_isHidden {globals main : Frame} {name : Name} (h : IsHidden globals main name) :
    shown? globals main name = globals.find? name := by
  obtain ⟨f, v, hmain, hf, hglobals, hv⟩ := h
  simp only [shown?, hmain, hglobals, Option.filter_some, hf, hv, Bool.not_true, Bool.not_false,
    Bool.false_eq_true, ↓reduceIte, Option.none_or]

theorem lookup?_of_locals {scopes : Chain} {main : Frame} (h : scopes.locals = [main])
    (name : Name) : scopes.lookup? name =
      ((main.find? name).or (scopes.globals.find? name)).or (scopes.builtins.find? name) := by
  simp only [Chain.lookup?, Chain.frames, h, List.cons_append, List.nil_append,
    List.findSome?_cons, List.findSome?_nil]
  cases main.find? name with
  | some v => rfl
  | none =>
    cases scopes.globals.find? name with
    | some v => rfl
    | none => cases scopes.builtins.find? name <;> rfl

section Fields

variable {scopes : Chain} {main : Frame} {fields : List (String × Json)} {t : String}
  (hlocals : scopes.locals = [main])
  (hgiven : ∀ v, shown? scopes.globals main (.str t) = some v →
    ∃ data, (t, data) ∈ fields ∧ v.toData rejectFunction = .ok data)
  (hfound : ∀ data, (t, data) ∈ fields →
    ∃ v, shown? scopes.globals main (.str t) = some v ∧ v.toData rejectFunction = .ok data)
include hgiven hfound

theorem mem_keys_iff : t ∈ fields.map Prod.fst ↔
    ∃ v, shown? scopes.globals main (.str t) = some v := by
  constructor
  · intro ht
    obtain ⟨⟨_, data⟩, hmem, rfl⟩ := List.mem_map.1 ht
    obtain ⟨v, hv, -⟩ := hfound data hmem
    exact ⟨v, hv⟩
  · rintro ⟨v, hv⟩
    obtain ⟨data, hmem, -⟩ := hgiven v hv
    exact List.mem_map_of_mem hmem

include hlocals in
theorem showsLookup_of_not_isHidden (h : ¬ IsHidden scopes.globals main (.str t)) :
    ShowsLookup scopes main fields t := by
  have hshown := shown?_of_not_isHidden h
  have hlookup := lookup?_of_locals hlocals (.str t)
  have hdeclared : (scopes.globals.declares (.str t) = true ∨ main.declares (.str t) = true) ↔
      ((main.find? (.str t)).or (scopes.globals.find? (.str t))).isSome = true := by
    rw [Frame.declares_eq_isSome, Frame.declares_eq_isSome, Option.isSome_or, Bool.or_eq_true,
      or_comm]
  constructor
  · rw [mem_keys_iff hgiven hfound, hshown, hdeclared, hlookup]
    generalize (main.find? (.str t)).or (scopes.globals.find? (.str t)) = found
    cases found with
    | none => simp
    | some v => simp
  · intro v data hv hdata
    obtain ⟨w, hw, hwdata⟩ := hfound data hdata
    rw [hshown, Option.filter_eq_some_iff] at hw
    rw [hlookup, hw.1] at hv
    cases hv
    exact hwdata

include hlocals in
theorem showsLookup_iff : ShowsLookup scopes main fields t ↔
    ¬ IsHidden scopes.globals main (.str t) := by
  refine ⟨fun hshows hhidden => ?_, showsLookup_of_not_isHidden hlocals hgiven hfound⟩
  have hshown := shown?_of_isHidden hhidden
  obtain ⟨f, v, hmain, hf, hglobals, -⟩ := hhidden
  have hkey : t ∈ fields.map Prod.fst :=
    (mem_keys_iff hgiven hfound).2 ⟨v, hshown.trans hglobals⟩
  obtain ⟨-, w, hw, hwdata⟩ := hshows.key.1 hkey
  rw [lookup?_of_locals hlocals, hmain] at hw
  cases hw
  cases hf.symm.trans hwdata

end Fields

/-- The dump of a run of a source text shows under each name what a lookup from `main` gives,
unless a function hides a global under it, and then it shows the global. -/
theorem dump_shows_lookup_iff (cfg : Config) {source : String} {program : Node} {r : Result}
    (hparse : Syntax.parse source = .ok program)
    (hrun : (simulate cfg (.str "debug") source).result = .ok r)
    (hgraceful : r.error.all isGraceful = true)
    (hbegun : (endState (execute cfg nestingLimit program)).scopes.locals ≠ []) :
    let s := endState (execute cfg nestingLimit program)
    ∃ main fields, s.scopes.locals = [main] ∧
      r.lines = s.output.toList ++ variableLines (.obj fields) (sourceLength program) ∧
      ∀ t, (ShowsLookup s.scopes main fields t ↔ ¬ IsHidden s.scopes.globals main (.str t)) ∧
        (IsHidden s.scopes.globals main (.str t) → ∃ v data,
          s.scopes.globals.find? (.str t) = some v ∧ v.toData rejectFunction = .ok data ∧
            (t, data) ∈ fields) := by
  intro s
  have hprogram : IsProgram program := by
    rcases parse_cases source with ⟨_, hok, hshape⟩ | ⟨e, herror⟩
    · cases hparse.symm.trans hok
      exact hshape
    · cases hparse.symm.trans herror
  obtain ⟨main, hlocals, hmain, hglobals⟩ := scopes_of_begun cfg nestingLimit hprogram hbegun
  rw [simulate_of_parse cfg rfl hparse] at hrun
  obtain ⟨shown, hdata, hlines⟩ := dumpData_of_outcomeOf hrun hgraceful
  rw [hlocals, List.head?_cons] at hdata
  obtain ⟨fields, rfl, hgiven, hfound⟩ := fields_of_dumpData hglobals hmain hdata
  refine ⟨main, fields, hlocals, hlines, fun t => ⟨?_, fun hhidden => ?_⟩⟩
  · exact showsLookup_iff hlocals (hgiven t) (hfound t)
  · have hshown := shown?_of_isHidden hhidden
    obtain ⟨-, v, -, -, hv, -⟩ := hhidden
    obtain ⟨data, hmem, hvdata⟩ := hgiven t v (hshown.trans hv)
    exact ⟨v, data, hv, hvdata, hmem⟩

/-- A program whose `main` declares a variable for a function under the name of a global. -/
def hidingSource : String :=
  "let x = \"hidden\";
fn main() \x7b let x = len; \x7d"

/-- Whether a text under a name is hidden by a function, in a scope that is the only local
one. -/
def hidesText (scopes : Chain) (name : Name) (text : String) : Bool :=
  match scopes.locals, scopes.globals.find? name with
  | [main], some (.text s) => s = text && (main.find? name).any Value.isFunction
  | _, _ => false

theorem isHidden_of_hidesText {scopes : Chain} {name : Name} {text : String}
    (h : hidesText scopes name text = true) :
    ∃ main, scopes.locals = [main] ∧ scopes.globals.find? name = some (.text text) ∧
      IsHidden scopes.globals main name := by
  unfold hidesText at h
  split at h
  next main s hlocals hglobals =>
    obtain ⟨hs, hmain⟩ := Bool.and_eq_true_iff.1 h
    cases of_decide_eq_true hs
    obtain ⟨f, hfound, hf⟩ := (Option.any_eq_true _ _).1 hmain
    exact ⟨main, hlocals, hglobals, f, .text text, hfound, hf, hglobals, rfl⟩
  next => cases h

/-- The dump shows a global that `main` does not see. -/
theorem not_showsLookup_hidingSource : ∃ program r main fields,
    Syntax.parse hidingSource = .ok program ∧
    (simulate {} (.str "debug") hidingSource).result = .ok r ∧ r.error = none ∧
    (endState (execute {} nestingLimit program)).scopes.locals = [main] ∧
    r.lines = variableLines (.obj fields) (sourceLength program) ∧
    ("x", .str "hidden") ∈ fields ∧
    ¬ ShowsLookup (endState (execute {} nestingLimit program)).scopes main fields "x" := by
  have hchecked : ((Syntax.parse hidingSource).toOption.any fun program =>
      (simulate {} (.str "debug") hidingSource).result.toOption.any fun r =>
        let s := endState (execute {} nestingLimit program)
        decide (r.error = none ∧ s.output = #[] ∧
          hidesText s.scopes (.str "x") "hidden" = true)) = true := by
    decide +kernel
  cases hparse : Syntax.parse hidingSource with
  | error failure =>
    rw [hparse] at hchecked
    cases hchecked
  | ok program =>
    cases hrun : (simulate {} (.str "debug") hidingSource).result with
    | error fault =>
      rw [hparse, hrun] at hchecked
      cases hchecked
    | ok r =>
      rw [hparse, hrun] at hchecked
      obtain ⟨herror, houtput, hhides⟩ := of_decide_eq_true hchecked
      obtain ⟨main, hlocals, hglobal, hhidden⟩ := isHidden_of_hidesText hhides
      have hgraceful : r.error.all isGraceful = true := by rw [herror, Option.all_none]
      have hbegun : (endState (execute {} nestingLimit program)).scopes.locals ≠ [] := by
        rw [hlocals]
        exact List.cons_ne_nil _ _
      obtain ⟨_, fields, hsame, hlines, hshows⟩ :=
        dump_shows_lookup_iff {} hparse hrun hgraceful hbegun
      cases hlocals.symm.trans hsame
      obtain ⟨v, data, hv, hdata, hmem⟩ := (hshows "x").2 hhidden
      cases hglobal.symm.trans hv
      cases hdata
      rw [houtput] at hlines
      exact ⟨program, r, main, fields, rfl, rfl, herror, hlocals, hlines, hmem,
        fun h => (hshows "x").1.1 h hhidden⟩

end Run

end Orus
