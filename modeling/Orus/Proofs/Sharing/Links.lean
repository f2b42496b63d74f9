import Orus.Proofs.Sharing.Addresses
import Orus.Proofs.Sharing.Tokens
import Orus.Share.Link

/-! # Links carry their source and keep the other parameters

A link is the address with a new query: the parameters it had, but for the one that holds a
source, and the token after them. So the source is read back from it, whatever the old query
was. Of the other fields those with a value are kept; a field that has none is lost.
-/

namespace Orus.Share

open Text

/-! ## The parts of a link -/

def linkFields (query : List Char) (source : String) : List Parameter :=
  otherParameters query ++ [(codeParameter, (encodeSource source).toList)]

def Url.linked (u : Url) (source : String) : Url :=
  { u with
    path := if u.path.isEmpty then ['/'] else u.path
    query := queryText (linkFields u.query source) }

theorem shareUrl_eq_ok_iff {base source address : String} : shareUrl base source = .ok address ↔
    ∃ u, Url.split base.toList = .ok u ∧ address.toList = (u.linked source).join := by
  have hshare : shareUrl base source =
      (Url.split base.toList).map fun u => String.ofList (u.linked source).join := rfl
  rw [hshare]
  cases Url.split base.toList with
  | error e => simp [Except.map]
  | ok u => simp [Except.map, ← String.toList_inj, eq_comm]

theorem Url.IsRead.linked {u : Url} (h : u.IsRead) (source : String) :
    (u.linked source).IsRead := by
  refine h.withSlash.withQuery fun c hc => ?_
  obtain rfl | rfl | hquoted := mem_queryText hc
  · decide
  · decide
  · constructor
    · rintro rfl
      cases hquoted
    · simp only [isQuoted, Bool.and_eq_true, List.contains_cons, Bool.not_eq_true',
        Bool.or_eq_false_iff] at hquoted
      simp [isRemoved, hquoted]

theorem Url.not_slashes_linked {u : Url} (h : ¬ ['/', '/'] <+: u.path) (source : String) :
    ¬ ['/', '/'] <+: (u.linked source).path := by
  simp only [Url.linked]
  split
  · decide
  · exact h

theorem fields_linked (u : Url) (source : String) :
    fields (u.linked source).query = linkFields u.query source :=
  fields_queryText _

/-! ## The source -/

theorem fst_of_mem_otherParameters {query : List Char} {p : Parameter}
    (h : p ∈ otherParameters query) : p.1 ≠ codeParameter := by
  obtain ⟨group, hgroup, hp⟩ := List.mem_flatMap.1 h
  obtain ⟨value, -, rfl⟩ := List.mem_map.1 hp
  simpa using (List.mem_filter.1 hgroup).2

theorem encodeSource_eq_empty_iff {source : String} :
    encodeSource source = "" ↔ source = "" := by
  have hempty : encodeSource "" = "" := rfl
  rw [← hempty, encodeSource_inj, hempty]

/-- The only parameter with the name is the token. An empty one is none. -/
theorem find?_linked (u : Url) (source : String) :
    (parameters (u.linked source).query).find? (fun (name, _) => name = codeParameter) =
      if source = "" then none else some (codeParameter, (encodeSource source).toList) := by
  have hparameters : parameters (u.linked source).query =
      (linkFields u.query source).filter (·.2 ≠ []) := parameters_queryText _
  have hothers : ((otherParameters u.query).filter (·.2 ≠ [])).find?
      (fun (name, _) => name = codeParameter) = none := by
    refine List.find?_eq_none.2 fun p hp => ?_
    simpa using fst_of_mem_otherParameters (List.mem_of_mem_filter hp)
  rw [hparameters, linkFields, List.filter_append, List.find?_append, hothers, Option.none_or]
  by_cases hsource : source = "" <;> simp [encodeSource_eq_empty_iff, hsource]

theorem sourceFromUrl_of_none {address : String} {u : Url}
    (h : Url.split address.toList = .ok u)
    (hnone : (parameters u.query).find? (fun (name, _) => name = codeParameter) = none) :
    sourceFromUrl address = .ok none := by
  simp only [sourceFromUrl, h, Except.mapError, bind, Except.bind, hnone]
  rfl

theorem sourceFromUrl_of_some {address source : String} {u : Url} {p : Parameter}
    (h : Url.split address.toList = .ok u)
    (hp : (parameters u.query).find? (fun (name, _) => name = codeParameter) = some p)
    (hsource : decodeSource (String.ofList p.2) = .ok source) :
    sourceFromUrl address = .ok (some source) := by
  simp only [sourceFromUrl, h, Except.mapError, bind, Except.bind, hp, hsource]
  rfl

/-- The source of a link is read back, whatever else its address has; of an empty source
nothing is. -/
theorem sourceFromUrl_shareUrl {base address source : String}
    (h : shareUrl base source = .ok address)
    (hpath : ∀ u, Url.split base.toList = .ok u → ¬ ['/', '/'] <+: u.path) :
    sourceFromUrl address = .ok (if source = "" then none else some source) := by
  obtain ⟨u, hu, haddress⟩ := shareUrl_eq_ok_iff.1 h
  have hsplit := ((isRead_of_split hu).linked source).split_join fun _ =>
    u.not_slashes_linked (hpath u hu) source
  rw [← haddress] at hsplit
  have hfind := find?_linked u source
  by_cases hsource : source = ""
  · rw [if_pos hsource] at hfind ⊢
    exact sourceFromUrl_of_none hsplit hfind
  · rw [if_neg hsource] at hfind ⊢
    refine sourceFromUrl_of_some hsplit hfind ?_
    rw [String.ofList_toList]
    exact decodeSource_encodeSource source

/-- A link made of an address without a path that has parameters of the name in two spellings
and something like one in its fragment. -/
theorem sourceFromUrl_shareUrl_manyCodes :
    shareUrl "HTTPS://x.dev?co%64e=old&code=a+b&q=%zz+&code=%ff#?code=b" "é" =
      .ok "https://x.dev/?q=%25zz+&code=w6k#?code=b" ∧
    Url.split "HTTPS://x.dev?co%64e=old&code=a+b&q=%zz+&code=%ff#?code=b".toList =
      .ok ⟨"https".toList, "x.dev".toList, [], "co%64e=old&code=a+b&q=%zz+&code=%ff".toList,
        "?code=b".toList⟩ ∧
    sourceFromUrl "https://x.dev/?q=%25zz+&code=w6k#?code=b" = .ok (some "é") := by
  have hshare : shareUrl "HTTPS://x.dev?co%64e=old&code=a+b&q=%zz+&code=%ff#?code=b" "é" =
      .ok "https://x.dev/?q=%25zz+&code=w6k#?code=b" := by decide +kernel
  have hsplit : Url.split "HTTPS://x.dev?co%64e=old&code=a+b&q=%zz+&code=%ff#?code=b".toList =
      .ok ⟨"https".toList, "x.dev".toList, [], "co%64e=old&code=a+b&q=%zz+&code=%ff".toList,
        "?code=b".toList⟩ := by decide +kernel
  refine ⟨hshare, hsplit, sourceFromUrl_shareUrl hshare fun u hu => ?_⟩
  cases hu.symm.trans hsplit
  decide

/-! ## The other fields -/

theorem valuesOf_ungrouped_filter {name other : List Char} (h : name ≠ other)
    (groups : List (List Char × List (List Char))) :
    valuesOf name (ungrouped (groups.filter fun (n, _) => n ≠ other)) =
      valuesOf name (ungrouped groups) := by
  induction groups with
  | nil => rfl
  | cons group groups ih =>
    obtain ⟨n, values⟩ := group
    have hcons (groups : List (List Char × List (List Char))) :
        ungrouped ((n, values) :: groups) = values.map (n, ·) ++ ungrouped groups := rfl
    by_cases hn : n = other
    · have hnone : valuesOf name (values.map (n, ·)) = [] :=
        valuesOf_eq_nil fun p hp heq => by
          obtain ⟨value, -, rfl⟩ := List.mem_map.1 hp
          exact h (heq.symm.trans hn)
      rw [List.filter_cons_of_neg (by simpa using hn), ih, hcons, valuesOf_append, hnone,
        List.nil_append]
    · rw [List.filter_cons_of_pos (by simpa using hn), hcons, hcons, valuesOf_append, ih,
        valuesOf_append]

theorem valuesOf_parameters (name query : List Char) :
    valuesOf name (parameters query) = (valuesOf name (fields query)).filter (· ≠ []) := by
  rw [parameters_eq_filter, valuesOf, valuesOf, List.filter_map, List.filter_comm]
  rfl

/-- Of every other name a link keeps the values in order, but for the empty ones. -/
theorem valuesOf_linkFields {name : List Char} (hname : name ≠ codeParameter)
    (query : List Char) (source : String) :
    valuesOf name (linkFields query source) = (valuesOf name (fields query)).filter (· ≠ []) := by
  have htoken : valuesOf name [(codeParameter, (encodeSource source).toList)] = [] :=
    valuesOf_eq_nil (by simpa using hname.symm)
  rw [linkFields, valuesOf_append, htoken, List.append_nil, ← valuesOf_parameters,
    ← valuesOf_grouped name (parameters query), ← valuesOf_ungrouped_filter hname]
  rfl

/-- A link keeps the values of every other name, in order, exactly if none of them is empty; the
empty ones are lost. Its query stands where that of any address does, also where the path
looks like a host and the link cannot be cut. -/
theorem shareUrl_keeps_values_iff {base address source : String}
    (h : shareUrl base source = .ok address) :
    ∃ u, Url.split base.toList = .ok u ∧
      ((u.host = [] → ¬ ['/', '/'] <+: u.path) → ∃ v, Url.split address.toList = .ok v) ∧
      (∀ v, Url.split address.toList = .ok v → v.query = queryOf address.toList) ∧
      ∀ name ≠ codeParameter,
        valuesOf name (fields (queryOf address.toList)) =
          (valuesOf name (fields u.query)).filter (· ≠ []) ∧
        (valuesOf name (fields (queryOf address.toList)) = valuesOf name (fields u.query) ↔
          [] ∉ valuesOf name (fields u.query)) := by
  obtain ⟨u, hu, haddress⟩ := shareUrl_eq_ok_iff.1 h
  have hread := (isRead_of_split hu).linked source
  have hfields : fields (queryOf address.toList) = linkFields u.query source := by
    rw [haddress, hread.queryOf_join, fields_linked]
  refine ⟨u, hu, fun hpath => ?_, fun v hv => query_eq_queryOf hv, fun name hname => ?_⟩
  · have hsplit := hread.split_join fun hhost => u.not_slashes_linked (hpath hhost) source
    exact ⟨_, haddress ▸ hsplit⟩
  · rw [hfields, valuesOf_linkFields hname, List.filter_eq_self]
    refine ⟨rfl, ?_⟩
    simp only [decide_eq_true_eq]
    exact ⟨fun hall hmem => hall [] hmem rfl,
      fun hnone value hvalue => ne_of_mem_of_not_mem hvalue hnone⟩

/-- A theme that is there without a value is not there in the link. -/
theorem shareUrl_keeps_values_iff_blankTheme :
    shareUrl "https://x.dev/p?theme=&lang=en" "a" = .ok "https://x.dev/p?lang=en&code=YQ" ∧
    ∃ u, Url.split "https://x.dev/p?theme=&lang=en".toList = .ok u ∧
      valuesOf "theme".toList (fields u.query) = [[]] ∧
      valuesOf "theme".toList (fields (queryOf "https://x.dev/p?lang=en&code=YQ".toList)) = [] := by
  have hshare : shareUrl "https://x.dev/p?theme=&lang=en" "a" =
      .ok "https://x.dev/p?lang=en&code=YQ" := by decide +kernel
  have hsplit : Url.split "https://x.dev/p?theme=&lang=en".toList =
      .ok ⟨"https".toList, "x.dev".toList, "/p".toList, "theme=&lang=en".toList, []⟩ := by
    decide +kernel
  obtain ⟨u, hu, -, -, hvalues⟩ := shareUrl_keeps_values_iff hshare
  obtain rfl := Except.ok.inj (hsplit.symm.trans hu)
  have htheme : valuesOf "theme".toList (fields "theme=&lang=en".toList) = [[]] := by decide +kernel
  refine ⟨hshare, _, hsplit, htheme, ?_⟩
  rw [(hvalues "theme".toList (by decide)).1, htheme]
  rfl

end Orus.Share
