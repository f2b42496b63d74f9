import Orus.Proofs.Lines
import Orus.Proofs.Sharing.Utf8
import Orus.Share.Url

/-! # Queries read back

Names and values are written so that nothing in them cuts a query, and they are read back as
they were. Reading drops what has no value, so a query is compared by all its fields, those
without a value included: writing a query keeps every field, and grouping the fields by name
keeps the values of each name in order.
-/

namespace Orus.Share

open Text

/-! ## Cutting -/

theorem cutAt_append {p : Char → Bool} {before after : List Char}
    (hbefore : ∀ c ∈ before, p c = false) (hafter : ∀ c ∈ after.head?, p c = true) :
    cutAt p (before ++ after) = (before, after) := by
  have hpass : ∀ c ∈ before, (!p c) = true := fun c hc => by simp [hbefore c hc]
  rw [cutAt, List.takeWhile_append_of_pos hpass, List.dropWhile_append_of_pos hpass]
  cases after with
  | nil => simp
  | cons c after => simp [hafter c rfl]

theorem cutAround_append {mark : Char} {before : List Char} (h : mark ∉ before)
    (after : List Char) : cutAround mark (before ++ mark :: after) = (before, after) := by
  have hbefore : ∀ c ∈ before, (c == mark) = false := fun c hc => by
    simpa using ne_of_mem_of_not_mem hc h
  have hcut : cutAt (· == mark) (before ++ mark :: after) = (before, mark :: after) :=
    cutAt_append hbefore (by simp)
  simp only [cutAround, hcut, List.drop_one, List.tail_cons]

theorem cutAround_of_not_mem {mark : Char} {cs : List Char} (h : mark ∉ cs) :
    cutAround mark cs = (cs, []) := by
  have hcs : ∀ c ∈ cs, (c == mark) = false := fun c hc => by
    simpa using ne_of_mem_of_not_mem hc h
  have hcut : cutAt (· == mark) (cs ++ []) = (cs, []) := cutAt_append hcs nofun
  rw [List.append_nil] at hcut
  simp only [cutAround, hcut, List.drop_nil]

/-! ## Escapes -/

theorem unescapeBytes_cons {c : Char} (h : c ≠ '%') (rest : List Char) :
    unescapeBytes (c :: rest) = c.toNat :: unescapeBytes rest := by
  rw [unescapeBytes]
  rintro _ _ _ rfl
  exact absurd rfl h

theorem hexDigit?_upperHex : ∀ n < 16, hexDigit? (upperHex n) = some n := by
  decide

theorem hexByte?_upperHex {b : Nat} (h : b < 256) :
    hexByte? (upperHex (b / 16)) (upperHex (b % 16)) = some b := by
  have hhigh := hexDigit?_upperHex (b / 16) (by omega)
  have hlow := hexDigit?_upperHex (b % 16) (by omega)
  simp only [hexByte?, hhigh, hlow, Option.bind_eq_bind, Option.bind_some, Option.pure_def,
    Option.some.injEq]
  omega

def plusAsSpace (c : Char) : Char :=
  if c == '+' then ' ' else c

theorem plusAsSpace_upperHex : ∀ n < 16, plusAsSpace (upperHex n) = upperHex n := by
  decide

theorem of_isPlainByte {b : Nat} (h : isPlainByte b = true) :
    (Char.ofNat b).toNat = b ∧ Char.ofNat b ≠ '%' ∧ Char.ofNat b ≠ '+' := by
  have hall : ∀ n < 0x80, isPlainByte n = true →
      (Char.ofNat n).toNat = n ∧ Char.ofNat n ≠ '%' ∧ Char.ofNat n ≠ '+' := by
    decide
  have hlt : b < 0x80 := by
    simp only [isPlainByte, Bool.and_eq_true, decide_eq_true_eq] at h
    exact h.1
  exact hall b hlt h

theorem unescapeBytes_quoteByte {b : Nat} (h : b < 256) (rest : List Char) :
    unescapeBytes ((quoteByte b).map plusAsSpace ++ rest) = b :: unescapeBytes rest := by
  unfold quoteByte
  split
  next hplain =>
    obtain ⟨htoNat, hpercent, hplus⟩ := of_isPlainByte hplain
    simp [plusAsSpace, hplus, unescapeBytes_cons hpercent, htoNat]
  split
  next hspace =>
    rw [hspace]
    exact unescapeBytes_cons (by decide) rest
  · have hhigh := plusAsSpace_upperHex (b / 16) (by omega)
    have hlow := plusAsSpace_upperHex (b % 16) (by omega)
    simp only [List.map_cons, List.map_nil, hhigh, hlow, List.cons_append, List.nil_append]
    change unescapeBytes ('%' :: _) = _
    rw [unescapeBytes, hexByte?_upperHex h]

theorem unescapeBytes_flatMap {bytes : List Nat} (h : ∀ b ∈ bytes, b < 256) :
    unescapeBytes ((bytes.flatMap quoteByte).map plusAsSpace) = bytes := by
  induction bytes with
  | nil => rfl
  | cons b bytes ih =>
    rw [List.forall_mem_cons] at h
    rw [List.flatMap_cons, List.map_append, unescapeBytes_quoteByte h.1, ih h.2]

theorem unescapeBytes_eq_nil_iff {cs : List Char} : unescapeBytes cs = [] ↔ cs = [] := by
  fun_induction unescapeBytes cs <;> simp

/-! ## Names and values -/

/-- A seven-bit character that neither ends a name, a value or a query nor is dropped from an
address. -/
def isQuoted (c : Char) : Bool :=
  isSevenBit c && !(['&', '=', '#', '\t', '\n', '\r'].contains c)

theorem isQuoted_of_mem_quoteByte {b : Nat} (hb : b < 256) :
    ∀ c ∈ quoteByte b, isQuoted c = true := by
  have hall : ∀ n < 256, (quoteByte n).all isQuoted = true := by decide +kernel
  exact List.all_eq_true.1 (hall b hb)

theorem isQuoted_of_mem_quotePlus {cs : List Char} : ∀ c ∈ quotePlus cs, isQuoted c = true := by
  intro c hc
  obtain ⟨b, hb, hc⟩ := List.mem_flatMap.1 hc
  exact isQuoted_of_mem_quoteByte (lt_of_mem_utf8 hb) c hc

theorem not_mem_quotePlus {mark : Char} (h : isQuoted mark = false) (cs : List Char) :
    mark ∉ quotePlus cs := by
  intro hmem
  rw [isQuoted_of_mem_quotePlus mark hmem] at h
  cases h

theorem unquote_of_isSevenBit {cs : List Char} (h : ∀ c ∈ cs, isSevenBit c = true) :
    unquote cs = decodeReplacing [] (unescapeBytes cs) := by
  cases cs with
  | nil => simp [unquote, unescapeBytes, decodeReplacing]
  | cons c rest =>
    rw [List.forall_mem_cons] at h
    have htake : (rest ++ []).takeWhile isSevenBit = rest ++ [] :=
      List.takeWhile_append_of_pos h.2
    have hdrop : (rest ++ []).dropWhile isSevenBit = [] := List.dropWhile_append_of_pos h.2
    rw [List.append_nil] at htake hdrop
    rw [unquote, if_pos h.1, htake, hdrop, unquote, List.append_nil]

/-- What is written as a name or a value is read back. -/
theorem unquotePlus_quotePlus (cs : List Char) : unquotePlus (quotePlus cs) = cs := by
  have hbytes : unescapeBytes ((quotePlus cs).map plusAsSpace) = utf8 cs :=
    unescapeBytes_flatMap fun b hb => lt_of_mem_utf8 hb
  have hseven : ∀ c ∈ (quotePlus cs).map plusAsSpace, isSevenBit c = true := by
    intro d hd
    obtain ⟨c, hc, rfl⟩ := List.mem_map.1 hd
    have hquoted := isQuoted_of_mem_quotePlus c hc
    simp only [isQuoted, Bool.and_eq_true] at hquoted
    unfold plusAsSpace
    split
    · decide
    · exact hquoted.1
  change unquote ((quotePlus cs).map plusAsSpace) = cs
  rw [unquote_of_isSevenBit hseven, hbytes, decodeReplacing_utf8]

theorem unquote_eq_nil_iff {cs : List Char} : unquote cs = [] ↔ cs = [] := by
  cases cs with
  | nil => simp [unquote]
  | cons c rest =>
    rw [unquote]
    split
    · simp [decodeReplacing_eq_nil_iff, unescapeBytes_eq_nil_iff]
    · simp

/-- Only nothing is read as nothing. -/
theorem unquotePlus_eq_nil_iff {cs : List Char} : unquotePlus cs = [] ↔ cs = [] :=
  unquote_eq_nil_iff.trans List.map_eq_nil_iff

/-! ## Fields -/

/-- The name and the value that a piece of a query stands for; the value may be missing. -/
def field (piece : List Char) : Parameter :=
  (unquotePlus (cutAround '=' piece).1, unquotePlus (cutAround '=' piece).2)

/-- The fields of a query in order, those with an empty value or without one included. -/
def fields (query : List Char) : List Parameter :=
  ((splitAt '&' query).filter (· ≠ [])).map field

/-- The parameters of a query are its fields with a value. -/
theorem parameters_eq_filter (query : List Char) :
    parameters query = (fields query).filter (·.2 ≠ []) := by
  unfold parameters fields
  induction splitAt '&' query with
  | nil => rfl
  | cons piece pieces ih =>
    by_cases hvalue : (cutAround '=' piece).2 = []
    · have hnone : parameter? piece = none := by simp [parameter?, hvalue]
      have hblank : (field piece).2 = [] := unquotePlus_eq_nil_iff.2 hvalue
      rw [List.filterMap_cons_none hnone, ih]
      by_cases hpiece : piece = []
      · simp [hpiece]
      · simp [hpiece, hblank]
    · have hsome : parameter? piece = some (field piece) := by simp [parameter?, hvalue, field]
      have hpresent : (field piece).2 ≠ [] := fun h => hvalue (unquotePlus_eq_nil_iff.1 h)
      have hpiece : piece ≠ [] := by
        rintro rfl
        exact hvalue rfl
      rw [List.filterMap_cons_some hsome, ih]
      simp [hpiece, hpresent]

def fieldText (p : Parameter) : List Char :=
  quotePlus p.1 ++ '=' :: quotePlus p.2

theorem field_fieldText (p : Parameter) : field (fieldText p) = p := by
  have hcut : cutAround '=' (fieldText p) = (quotePlus p.1, quotePlus p.2) :=
    cutAround_append (not_mem_quotePlus (by decide) p.1) _
  simp [field, hcut, unquotePlus_quotePlus]

theorem not_mem_fieldText {mark : Char} (h : isQuoted mark = false) (hmark : mark ≠ '=')
    (p : Parameter) : mark ∉ fieldText p := by
  simp [fieldText, not_mem_quotePlus h, hmark]

theorem splitAt_queryText {ps : List Parameter} (h : ps ≠ []) :
    splitAt '&' (queryText ps) = ps.map fieldText := by
  rw [splitAt_eq_splitOn]
  refine List.splitOn_intercalate '&' (fun piece hpiece => ?_) (by simpa using h)
  obtain ⟨p, -, rfl⟩ := List.mem_map.1 hpiece
  exact not_mem_fieldText (by decide) (by decide) p

theorem fields_queryText (ps : List Parameter) : fields (queryText ps) = ps := by
  by_cases h : ps = []
  · rw [h]
    rfl
  · have hne : ∀ piece ∈ ps.map fieldText, decide (piece ≠ []) = true := by
      intro piece hpiece
      obtain ⟨p, -, rfl⟩ := List.mem_map.1 hpiece
      simp [fieldText]
    rw [fields, splitAt_queryText h, List.filter_eq_self.2 hne, List.map_map]
    simp [Function.comp_def, field_fieldText]

theorem parameters_queryText (ps : List Parameter) :
    parameters (queryText ps) = ps.filter (·.2 ≠ []) := by
  rw [parameters_eq_filter, fields_queryText]

theorem mem_queryText {ps : List Parameter} {c : Char} (h : c ∈ queryText ps) :
    c = '&' ∨ c = '=' ∨ isQuoted c = true := by
  have hfield (p : Parameter) (hp : c ∈ fieldText p) : c = '=' ∨ isQuoted c = true := by
    rcases List.mem_append.1 hp with hp | hp
    · exact .inr (isQuoted_of_mem_quotePlus c hp)
    · exact (List.mem_cons.1 hp).imp_right (isQuoted_of_mem_quotePlus c)
  change c ∈ ['&'].intercalate (ps.map fieldText) at h
  induction ps with
  | nil => cases h
  | cons p ps ih =>
    by_cases hps : ps = []
    · rw [hps] at h
      exact .inr (hfield p (by simpa using h))
    · rw [List.map_cons, List.intercalate_cons_of_ne_nil (by simpa using hps)] at h
      simp only [List.append_assoc, List.mem_append, List.mem_singleton] at h
      rcases h with h | h | h
      · exact .inr (hfield p h)
      · exact .inl h
      · exact ih h

/-! ## Values by name -/

def valuesOf (name : List Char) (ps : List Parameter) : List (List Char) :=
  (ps.filter (·.1 = name)).map Prod.snd

theorem valuesOf_append (name : List Char) (ps qs : List Parameter) :
    valuesOf name (ps ++ qs) = valuesOf name ps ++ valuesOf name qs := by
  simp [valuesOf]

theorem valuesOf_eq_nil {name : List Char} {ps : List Parameter} (h : ∀ p ∈ ps, p.1 ≠ name) :
    valuesOf name ps = [] := by
  simpa [valuesOf] using h

def ungrouped (groups : List (List Char × List (List Char))) : List Parameter :=
  groups.flatMap fun (name, values) => values.map fun value => (name, value)

theorem fst_of_mem_ungrouped {groups : List (List Char × List (List Char))} {p : Parameter}
    (h : p ∈ ungrouped groups) : p.1 ∈ groups.map Prod.fst := by
  obtain ⟨group, hgroup, hp⟩ := List.mem_flatMap.1 h
  obtain ⟨value, -, rfl⟩ := List.mem_map.1 hp
  exact List.mem_map_of_mem hgroup

theorem mem_names_addToGroup {name value : List Char}
    {groups : List (List Char × List (List Char))} {n : List Char} :
    n ∈ (addToGroup name value groups).map Prod.fst ↔ n = name ∨ n ∈ groups.map Prod.fst := by
  induction groups with
  | nil => simp [addToGroup]
  | cons group groups ih =>
    obtain ⟨m, values⟩ := group
    by_cases hm : m = name
    · simp [addToGroup, hm]
    · simp only [addToGroup, hm, if_false, List.map_cons, List.mem_cons, ih]
      tauto

theorem nodup_addToGroup {groups : List (List Char × List (List Char))}
    (h : (groups.map Prod.fst).Nodup) (name value : List Char) :
    ((addToGroup name value groups).map Prod.fst).Nodup := by
  induction groups with
  | nil => simp [addToGroup]
  | cons group groups ih =>
    obtain ⟨m, values⟩ := group
    by_cases hm : m = name
    · simpa [addToGroup, hm] using h
    · simp only [addToGroup, hm, if_false, List.map_cons, List.nodup_cons] at h ⊢
      exact ⟨fun hmem => (mem_names_addToGroup.1 hmem).elim hm h.1, ih h.2⟩

theorem valuesOf_addToGroup {groups : List (List Char × List (List Char))}
    (h : (groups.map Prod.fst).Nodup) (name value n : List Char) :
    valuesOf n (ungrouped (addToGroup name value groups)) =
      valuesOf n (ungrouped groups ++ [(name, value)]) := by
  induction groups with
  | nil => rfl
  | cons group groups ih =>
    obtain ⟨m, values⟩ := group
    rw [List.map_cons, List.nodup_cons] at h
    have hcons (values : List (List Char)) (groups : List (List Char × List (List Char))) :
        ungrouped ((m, values) :: groups) = values.map (m, ·) ++ ungrouped groups := rfl
    by_cases hm : m = name
    · subst hm
      -- The value moves past the other groups, which have other names.
      have hcomm : valuesOf n [(m, value)] ++ valuesOf n (ungrouped groups) =
          valuesOf n (ungrouped groups) ++ valuesOf n [(m, value)] := by
        by_cases hn : m = n
        · have hnone : valuesOf n (ungrouped groups) = [] :=
            valuesOf_eq_nil fun p hp heq => h.1 ((heq.trans hn.symm) ▸ fst_of_mem_ungrouped hp)
          rw [hnone, List.append_nil, List.nil_append]
        · have hnone : valuesOf n [(m, value)] = [] := valuesOf_eq_nil (by simpa using hn)
          rw [hnone, List.append_nil, List.nil_append]
      have hadd : addToGroup m value ((m, values) :: groups) = (m, values ++ [value]) :: groups :=
        if_pos rfl
      rw [hadd, hcons, hcons, List.map_append]
      simp only [valuesOf_append, List.append_assoc]
      exact congrArg _ hcomm
    · simp only [addToGroup, hm, if_false, hcons, valuesOf_append, ih h.2, List.append_assoc]

theorem valuesOf_foldl {groups : List (List Char × List (List Char))}
    (h : (groups.map Prod.fst).Nodup) (name : List Char) (ps : List Parameter) :
    valuesOf name (ungrouped (ps.foldl (fun done p => addToGroup p.1 p.2 done) groups)) =
      valuesOf name (ungrouped groups ++ ps) := by
  induction ps generalizing groups with
  | nil => simp
  | cons p ps ih =>
    rw [List.foldl_cons, ih (nodup_addToGroup h p.1 p.2), valuesOf_append,
      valuesOf_addToGroup h, ← valuesOf_append, List.append_assoc]
    rfl

/-- Grouping keeps the values of each name in order. -/
theorem valuesOf_grouped (name : List Char) (ps : List Parameter) :
    valuesOf name (ungrouped (grouped ps)) = valuesOf name ps := by
  have hnames : (([] : List (List Char × List (List Char))).map Prod.fst).Nodup := List.nodup_nil
  exact valuesOf_foldl hnames name ps

end Orus.Share
