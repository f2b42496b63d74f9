import Orus.Proofs.Sharing.Queries

/-! # Addresses put together and cut again

What cutting an address can give is a structure of facts about the parts; it holds of every
address that can be cut, and it stays true when the query is replaced. Parts with these facts,
put together, are cut into the same parts, unless there is no host and the path starts like
one. The query is found between the first question mark and the fragment in any case.
-/

namespace Orus.Share

open Text

/-! ## Cutting and searching -/

theorem exists_cutAt (p : Char → Bool) (cs : List Char) : ∃ before after,
    cutAt p cs = (before, after) ∧ cs = before ++ after ∧ (∀ c ∈ before, p c = false) ∧
      ∀ c ∈ after.head?, p c = true := by
  refine ⟨_, _, rfl, List.takeWhile_append_dropWhile.symm, fun c hc => ?_, fun c hc => ?_⟩
  · simpa using List.all_eq_true.1 List.all_takeWhile c hc
  · have hhead := List.head?_dropWhile_not (fun c => !p c) cs
    rw [Option.mem_def.1 hc] at hhead
    simpa using hhead

theorem cutAround_cases (mark : Char) (cs : List Char) :
    (mark ∉ cs ∧ cutAround mark cs = (cs, [])) ∨ ∃ before after, cs = before ++ mark :: after ∧
      mark ∉ before ∧ cutAround mark cs = (before, after) := by
  by_cases h : mark ∈ cs
  · obtain ⟨before, after, rfl, hbefore⟩ := List.eq_append_cons_of_mem h
    exact .inr ⟨before, after, rfl, hbefore, cutAround_append hbefore after⟩
  · exact .inl ⟨h, cutAround_of_not_mem h⟩

theorem not_mem_cutAround (mark : Char) (cs : List Char) : mark ∉ (cutAround mark cs).1 := by
  obtain ⟨h, hcut⟩ | ⟨before, after, rfl, h, hcut⟩ := cutAround_cases mark cs <;> rwa [hcut]

theorem fst_cutAround_prefix_self (mark : Char) (cs : List Char) :
    (cutAround mark cs).1 <+: cs := by
  obtain ⟨-, hcut⟩ | ⟨before, after, rfl, -, hcut⟩ := cutAround_cases mark cs
  · exact hcut ▸ List.prefix_refl cs
  · exact hcut ▸ List.prefix_append before _

theorem snd_cutAround_suffix_self (mark : Char) (cs : List Char) :
    (cutAround mark cs).2 <:+ cs := by
  obtain ⟨-, hcut⟩ | ⟨before, after, rfl, -, hcut⟩ := cutAround_cases mark cs
  · exact hcut ▸ List.nil_suffix
  · exact hcut ▸ ⟨before ++ [mark], by simp⟩

theorem cutAround_append_left {mark : Char} {front : List Char} (h : mark ∉ front)
    (cs : List Char) : cutAround mark (front ++ cs) =
      (front ++ (cutAround mark cs).1, (cutAround mark cs).2) := by
  obtain ⟨hcs, hcut⟩ | ⟨before, after, rfl, hbefore, hcut⟩ := cutAround_cases mark cs <;> rw [hcut]
  · exact cutAround_of_not_mem (by simp [h, hcs])
  · rw [← List.append_assoc]
    exact cutAround_append (by simp [h, hbefore]) after

/-! ## Blanks and line breaks -/

theorem isLeading_of_isRemoved {c : Char} (h : isRemoved c = true) : isLeading c = true := by
  simp only [isRemoved, Bool.or_eq_true, beq_iff_eq] at h
  rcases h with (rfl | rfl) | rfl <;> decide

theorem isRemoved_eq_false {c : Char} (h : isLeading c = false) : isRemoved c = false := by
  cases hremoved : isRemoved c with
  | false => rfl
  | true =>
    rw [isLeading_of_isRemoved hremoved] at h
    cases h

theorem isRemoved_of_mem_cleanAddress {c : Char} {cs : List Char} (h : c ∈ cleanAddress cs) :
    isRemoved c = false := by
  simpa using (List.mem_filter.1 h).2

theorem isLeading_head_cleanAddress {cs : List Char} :
    ∀ c ∈ (cleanAddress cs).head?, isLeading c = false := by
  have hhead := List.head?_dropWhile_not isLeading cs
  unfold cleanAddress
  cases hcs : cs.dropWhile isLeading with
  | nil => simp
  | cons d rest =>
    rw [hcs] at hhead
    have hd : isLeading d = false := by simpa using hhead
    simp [isRemoved_eq_false hd, hd]

theorem cleanAddress_eq_self {cs : List Char} (hhead : ∀ c ∈ cs.head?, isLeading c = false)
    (hkept : ∀ c ∈ cs, isRemoved c = false) : cleanAddress cs = cs := by
  have hdrop : cs.dropWhile isLeading = cs := by
    cases cs with
    | nil => rfl
    | cons c cs => simp [hhead c rfl]
  rw [cleanAddress, hdrop, List.filter_eq_self]
  exact fun c hc => by simp [hkept c hc]

/-! ## Schemes -/

structure IsScheme (cs : List Char) : Prop where
  head : cs.head?.any isAsciiLetter = true
  chars : ∀ c ∈ cs, isSchemeChar c = true

def HasScheme (cs : List Char) : Prop :=
  ∃ scheme rest, IsScheme scheme ∧ cs = scheme ++ ':' :: rest

theorem IsScheme.not_mem {mark : Char} {scheme : List Char} (h : IsScheme scheme)
    (hmark : isSchemeChar mark = false) : mark ∉ scheme := by
  intro hmem
  rw [h.chars mark hmem] at hmark
  cases hmark

theorem IsScheme.ne_nil {scheme : List Char} (h : IsScheme scheme) : scheme ≠ [] := by
  rintro rfl
  cases h.head

theorem cutScheme_append {scheme : List Char} (h : IsScheme scheme) (rest : List Char) :
    cutScheme (scheme ++ ':' :: rest) = (scheme.map Char.toLower, rest) := by
  have hnone : ':' ∉ scheme := h.not_mem (by decide)
  have hcolon : ∀ c ∈ scheme, (c == ':') = false := fun c hc => by
    simpa using ne_of_mem_of_not_mem hc hnone
  have hcut : cutAt (· == ':') (scheme ++ ':' :: rest) = (scheme, ':' :: rest) :=
    cutAt_append hcolon (by simp)
  have hchars : scheme.all isSchemeChar = true := List.all_eq_true.2 h.chars
  simp [cutScheme, hcut, h.head, hchars]

theorem cutScheme_eq_self {cs : List Char} (h : ¬ HasScheme cs) : cutScheme cs = ([], cs) := by
  obtain ⟨before, after, hcut, hcs, -, hafter⟩ := exists_cutAt (· == ':') cs
  simp only [cutScheme, hcut]
  refine if_neg fun hscheme => h ?_
  simp only [Bool.and_eq_true] at hscheme
  obtain ⟨⟨hhead, hchars⟩, hne⟩ := hscheme
  cases after with
  | nil => cases hne
  | cons c after =>
    obtain rfl : c = ':' := by simpa using hafter c rfl
    exact ⟨before, after, ⟨hhead, List.all_eq_true.1 hchars⟩, hcs⟩

theorem HasScheme.append {cs : List Char} (h : HasScheme cs) (rest : List Char) :
    HasScheme (cs ++ rest) := by
  obtain ⟨scheme, after, hscheme, rfl⟩ := h
  exact ⟨scheme, after ++ rest, hscheme, by simp⟩

theorem not_hasScheme_of_head {c : Char} (h : isAsciiLetter c = false) (cs : List Char) :
    ¬ HasScheme (c :: cs) := by
  rintro ⟨scheme, rest, hscheme, heq⟩
  cases scheme with
  | nil => exact hscheme.ne_nil rfl
  | cons d scheme =>
    cases heq
    simpa [h] using hscheme.head

theorem not_hasScheme_nil : ¬ HasScheme [] := by
  rintro ⟨scheme, rest, -, heq⟩
  simp at heq

/-- What follows a path does not make a scheme of it. -/
theorem not_hasScheme_append {path after : List Char} (h : ¬ HasScheme path)
    (hafter : ∀ c ∈ after.head?, c = '?' ∨ c = '#') : ¬ HasScheme (path ++ after) := by
  rintro ⟨scheme, rest, hscheme, heq⟩
  obtain ⟨more, rfl, hmore⟩ | ⟨more, rfl, hmore⟩ := List.append_eq_append_iff.1 heq
  · cases more with
    | nil =>
      rw [List.nil_append] at hmore
      have hcolon := hafter ':' (by rw [hmore]; rfl)
      simp at hcolon
    | cons c more =>
      have hc : isSchemeChar c = true := hscheme.chars c (by simp)
      rw [hmore] at hafter
      rcases hafter c rfl with rfl | rfl <;> exact absurd hc (by decide)
  · cases more with
    | nil =>
      rw [List.nil_append] at hmore
      have hcolon := hafter ':' (by rw [← hmore]; rfl)
      simp at hcolon
    | cons c more =>
      cases hmore
      exact h ⟨scheme, more, hscheme, rfl⟩

theorem toNat_lt_of_isSchemeChar {c : Char} (h : isSchemeChar c = true) : c.toNat < 128 := by
  have hle {d : Char} (hd : c ≤ d) : c.toNat ≤ d.toNat := hd
  simp only [isSchemeChar, isAsciiLetter, isAsciiDigit, Bool.or_eq_true, Bool.and_eq_true,
    decide_eq_true_eq, beq_iff_eq] at h
  rcases h with (((((h | h) | h) | rfl) | rfl) | rfl)
  · exact Nat.lt_of_le_of_lt (hle h.2) (by decide)
  · exact Nat.lt_of_le_of_lt (hle h.2) (by decide)
  · exact Nat.lt_of_le_of_lt (hle h.2) (by decide)
  all_goals decide

theorem of_isSchemeChar {p : Char → Prop}
    (hp : ∀ n < 128, isSchemeChar (Char.ofNat n) = true → p (Char.ofNat n)) {c : Char}
    (h : isSchemeChar c = true) : p c :=
  of_toNat_lt (p := fun c => isSchemeChar c = true → p c) hp (toNat_lt_of_isSchemeChar h) h

theorem toLower_of_isSchemeChar {c : Char} (h : isSchemeChar c = true) :
    isSchemeChar c.toLower = true ∧ c.toLower.toLower = c.toLower ∧
      (isAsciiLetter c = true → isAsciiLetter c.toLower = true) :=
  of_isSchemeChar (p := fun c => isSchemeChar c.toLower = true ∧ c.toLower.toLower = c.toLower ∧
    (isAsciiLetter c = true → isAsciiLetter c.toLower = true)) (by decide) h

theorem isLeading_of_isSchemeChar {c : Char} (h : isSchemeChar c = true) : isLeading c = false :=
  of_isSchemeChar (p := fun c => isLeading c = false) (by decide) h

theorem IsScheme.map_toLower {scheme : List Char} (h : IsScheme scheme) :
    IsScheme (scheme.map Char.toLower) where
  head := by
    cases scheme with
    | nil => exact h.head
    | cons c scheme =>
      exact (toLower_of_isSchemeChar (h.chars c List.mem_cons_self)).2.2 h.head
  chars := by
    intro d hd
    obtain ⟨c, hc, rfl⟩ := List.mem_map.1 hd
    exact (toLower_of_isSchemeChar (h.chars c hc)).1

theorem IsScheme.map_toLower_map {scheme : List Char} (h : IsScheme scheme) :
    (scheme.map Char.toLower).map Char.toLower = scheme.map Char.toLower := by
  rw [List.map_map]
  exact List.map_congr_left fun c hc => (toLower_of_isSchemeChar (h.chars c hc)).2.1

theorem cutScheme_cases (cs : List Char) :
    (¬ HasScheme cs ∧ cutScheme cs = ([], cs)) ∨ ∃ scheme rest, IsScheme scheme ∧
      cs = scheme ++ ':' :: rest ∧ cutScheme cs = (scheme.map Char.toLower, rest) := by
  by_cases h : HasScheme cs
  · obtain ⟨scheme, rest, hscheme, rfl⟩ := h
    exact .inr ⟨scheme, rest, hscheme, rfl, cutScheme_append hscheme rest⟩
  · exact .inl ⟨h, cutScheme_eq_self h⟩

/-! ## Hosts -/

def endsHost (c : Char) : Bool :=
  c == '/' || c == '?' || c == '#'

/-- A host: nothing in it ends it, and it has brackets of both kinds or none. -/
structure IsHost (host : List Char) : Prop where
  whole : ∀ c ∈ host, endsHost c = false
  brackets : host.contains '[' = host.contains ']'

theorem cutHost_slashes (cs : List Char) : cutHost ('/' :: '/' :: cs) =
    if (cutAt endsHost cs).1.contains '[' != (cutAt endsHost cs).1.contains ']' then
      .error .brackets
    else .ok (cutAt endsHost cs) := rfl

/-- A host is cut off exactly where there is one. -/
theorem cutHost_eq_ok_iff {cs host rest : List Char} : cutHost cs = .ok (host, rest) ↔
    (cs = '/' :: '/' :: (host ++ rest) ∧ IsHost host ∧ ∀ c ∈ rest.head?, endsHost c = true) ∨
      (¬ ['/', '/'] <+: cs ∧ host = [] ∧ rest = cs) := by
  by_cases hslashes : ['/', '/'] <+: cs
  · obtain ⟨cs, rfl⟩ := hslashes
    obtain ⟨before, after, hcut, rfl, hbefore, hafter⟩ := exists_cutAt endsHost cs
    simp only [List.cons_append, List.nil_append, cutHost_slashes, hcut]
    constructor
    · intro h
      split at h
      · cases h
      next hbrackets =>
        cases h
        exact .inl ⟨rfl, ⟨hbefore, by simpa using hbrackets⟩, hafter⟩
    · rintro (⟨hcs, hhost, hrest⟩ | ⟨hnone, -⟩)
      · have hsame : cutAt endsHost (before ++ after) = (host, rest) := by
          rw [List.cons.inj (List.cons.inj hcs).2 |>.2]
          exact cutAt_append hhost.whole hrest
        cases hcut.symm.trans hsame
        simp only [hhost.brackets, bne_self_eq_false, Bool.false_eq_true, if_false]
      · exact absurd ⟨_, rfl⟩ hnone
  · have hcut : cutHost cs = .ok ([], cs) := by
      unfold cutHost
      split
      next tail => exact absurd ⟨tail, rfl⟩ hslashes
      · rfl
    rw [hcut]
    constructor
    · intro h
      cases h
      exact .inr ⟨hslashes, rfl, rfl⟩
    · rintro (⟨rfl, -⟩ | ⟨-, rfl, rfl⟩)
      · exact absurd ⟨_, rfl⟩ hslashes
      · rfl

/-- Nor does it make a host of it. -/
theorem not_slashes_append {path after : List Char} (h : ¬ ['/', '/'] <+: path)
    (hafter : ∀ c ∈ after.head?, c = '?' ∨ c = '#') : ¬ ['/', '/'] <+: path ++ after := by
  rintro ⟨rest, hrest⟩
  have hslash : '/' ∉ after.head? := fun hmem => by simpa using hafter '/' hmem
  match path with
  | [] => exact hslash (by rw [← show _ = after from hrest]; rfl)
  | [c] =>
    obtain ⟨-, htail⟩ := List.cons.inj hrest
    exact hslash (by rw [← show _ = after from htail]; rfl)
  | c :: d :: path =>
    cases hrest
    exact h ⟨path, rfl⟩

/-! ## Cutting an address -/

def IsUnmistakable (host : List Char) : Prop :=
  (host.any fun c => lookalikes.contains c.toNat) = false

theorem split_eq_ok_iff {address : List Char} {u : Url} : Url.split address = .ok u ↔
    ∃ rest, u.scheme = (cutScheme (cleanAddress address)).1 ∧
      cutHost (cutScheme (cleanAddress address)).2 = .ok (u.host, rest) ∧
      IsUnmistakable u.host ∧ u.path = (cutAround '?' (cutAround '#' rest).1).1 ∧
      u.query = (cutAround '?' (cutAround '#' rest).1).2 ∧
      u.fragment = (cutAround '#' rest).2 := by
  have hsplit : Url.split address =
      (cutHost (cutScheme (cleanAddress address)).2).bind fun cut =>
        if cut.1.any fun c => lookalikes.contains c.toNat then
          .error (.lookalike (String.ofList cut.1))
        else .ok ⟨(cutScheme (cleanAddress address)).1, cut.1,
          (cutAround '?' (cutAround '#' cut.2).1).1, (cutAround '?' (cutAround '#' cut.2).1).2,
          (cutAround '#' cut.2).2⟩ := rfl
  rw [hsplit]
  constructor
  · intro h
    cases hhost : cutHost (cutScheme (cleanAddress address)).2 with
    | error e =>
      rw [hhost] at h
      cases h
    | ok cut =>
      obtain ⟨host, rest⟩ := cut
      simp only [hhost, Except.bind] at h
      split at h
      · cases h
      next hplain =>
        cases h
        exact ⟨rest, rfl, rfl, Bool.eq_false_iff.2 hplain, rfl, rfl, rfl⟩
  · rintro ⟨rest, hscheme, hhost, hplain, hpath, hquery, hfragment⟩
    simp only [hhost, Except.bind]
    rw [if_neg (Bool.eq_false_iff.1 hplain), ← hscheme, ← hpath, ← hquery, ← hfragment]

theorem cutScheme_snd_subset (cs : List Char) : (cutScheme cs).2 ⊆ cs := by
  obtain ⟨-, hcut⟩ | ⟨scheme, rest, -, rfl, hcut⟩ := cutScheme_cases cs
  · exact hcut ▸ List.Subset.refl cs
  · exact hcut ▸ fun c hc => List.mem_append_right scheme (List.mem_cons_of_mem _ hc)

theorem of_cutHost {cs host rest : List Char} (h : cutHost cs = .ok (host, rest)) :
    IsHost host ∧ host ++ rest ⊆ cs ∧
      ((∀ c ∈ rest.head?, endsHost c = true) ∨ (host = [] ∧ rest = cs)) := by
  obtain ⟨rfl, hhost, hrest⟩ | ⟨-, rfl, rfl⟩ := cutHost_eq_ok_iff.1 h
  · exact ⟨hhost, fun c hc => List.mem_cons_of_mem _ (List.mem_cons_of_mem _ hc), .inl hrest⟩
  · exact ⟨⟨nofun, rfl⟩, List.Subset.refl _, .inr ⟨rfl, rfl⟩⟩

/-- A path before which a host ends starts with a slash, if it starts at all. -/
theorem path_of_prefix {path rest : List Char} (hpath : path <+: rest) (hquery : '?' ∉ path)
    (hfragment : '#' ∉ path) (hrest : ∀ c ∈ rest.head?, endsHost c = true) :
    ∀ c ∈ path.head?, c = '/' := by
  intro c hc
  obtain ⟨tail, rfl⟩ := hpath
  obtain ⟨path, rfl⟩ := List.head?_eq_some_iff.1 (Option.mem_def.1 hc)
  have hends := hrest c rfl
  simp only [List.mem_cons, not_or] at hquery hfragment
  simpa [endsHost, Ne.symm hquery.1, Ne.symm hfragment.1] using hends

theorem isScheme_of_cutScheme {cs : List Char} (h : (cutScheme cs).1 ≠ []) :
    IsScheme (cutScheme cs).1 ∧ (cutScheme cs).1.map Char.toLower = (cutScheme cs).1 := by
  obtain ⟨-, hcut⟩ | ⟨scheme, after, hscheme, -, hcut⟩ := cutScheme_cases cs <;> rw [hcut] at h ⊢
  · exact absurd rfl h
  · exact ⟨hscheme.map_toLower, hscheme.map_toLower_map⟩

theorem not_hasScheme_of_cutScheme {cs : List Char} (h : (cutScheme cs).1 = []) :
    ¬ HasScheme cs ∧ (cutScheme cs).2 = cs := by
  obtain ⟨hno, hcut⟩ | ⟨scheme, after, hscheme, -, hcut⟩ := cutScheme_cases cs <;> rw [hcut] at h ⊢
  · exact ⟨hno, rfl⟩
  · exact absurd (List.map_eq_nil_iff.1 h) hscheme.ne_nil

def IsStart (path : List Char) : Prop :=
  ¬ HasScheme path ∧ ∀ c ∈ path.head?, isLeading c = false

theorem isStart_of_slash {path : List Char} (h : ∀ c ∈ path.head?, c = '/') : IsStart path := by
  refine ⟨?_, fun c hc => h c hc ▸ rfl⟩
  cases path with
  | nil => exact not_hasScheme_nil
  | cons c path =>
    rw [h c rfl]
    exact not_hasScheme_of_head (by decide) path

theorem isStart_of_prefix {path address : List Char} (h : ¬ HasScheme (cleanAddress address))
    (hpath : path <+: cleanAddress address) : IsStart path := by
  obtain ⟨tail, htail⟩ := hpath
  refine ⟨fun hscheme => h (htail ▸ hscheme.append tail), fun c hc => ?_⟩
  obtain ⟨path, rfl⟩ := List.head?_eq_some_iff.1 (Option.mem_def.1 hc)
  refine isLeading_head_cleanAddress c (?_ : c ∈ (cleanAddress address).head?)
  rw [← htail]
  rfl

structure Url.IsRead (u : Url) : Prop where
  scheme : u.scheme ≠ [] → IsScheme u.scheme ∧ u.scheme.map Char.toLower = u.scheme
  host : IsHost u.host
  unmistakable : IsUnmistakable u.host
  noScheme : u.scheme = [] → IsStart u.path
  rooted : u.host ≠ [] → ∀ c ∈ u.path.head?, c = '/'
  path : '?' ∉ u.path ∧ '#' ∉ u.path
  query : '#' ∉ u.query
  kept : ∀ c ∈ u.host ++ (u.path ++ (u.query ++ u.fragment)), isRemoved c = false

theorem isRead_of_split {address : List Char} {u : Url} (h : Url.split address = .ok u) :
    u.IsRead := by
  obtain ⟨rest, hscheme, hhost, hplain, hpath, hquery, hfragment⟩ := split_eq_ok_iff.1 h
  obtain ⟨hishost, hsubset, hrest⟩ := of_cutHost hhost
  have hpathFront : u.path <+: (cutAround '#' rest).1 := hpath ▸ fst_cutAround_prefix_self '?' _
  have hpathRest : u.path <+: rest := hpathFront.trans (fst_cutAround_prefix_self '#' rest)
  have hqueryFront : u.query <:+ (cutAround '#' rest).1 := hquery ▸ snd_cutAround_suffix_self '?' _
  have hquestion : '?' ∉ u.path := hpath ▸ not_mem_cutAround '?' _
  have hhash : '#' ∉ u.path := fun hmem => not_mem_cutAround '#' rest (hpathFront.subset hmem)
  have hroot (hends : ∀ c ∈ rest.head?, endsHost c = true) : ∀ c ∈ u.path.head?, c = '/' :=
    path_of_prefix hpathRest hquestion hhash hends
  refine ⟨fun hne => ?_, hishost, hplain, fun hnone => ?_, fun hne => ?_, ⟨hquestion, hhash⟩,
    fun hmem => not_mem_cutAround '#' rest (hqueryFront.subset hmem), fun c hc => ?_⟩
  · rw [hscheme] at hne ⊢
    exact isScheme_of_cutScheme hne
  · obtain ⟨hno, hself⟩ := not_hasScheme_of_cutScheme (hscheme.symm.trans hnone)
    rcases hrest with hends | ⟨-, rfl⟩
    · exact isStart_of_slash (hroot hends)
    · exact isStart_of_prefix hno (hself ▸ hpathRest)
  · exact hrest.elim hroot fun ⟨hnone, _⟩ => absurd hnone hne
  · have hparts : u.host ++ (u.path ++ (u.query ++ u.fragment)) ⊆ u.host ++ rest := by
      simp only [List.append_subset]
      refine ⟨List.subset_append_left _ _, ?_, ?_, ?_⟩ <;>
        refine List.Subset.trans ?_ (List.subset_append_right _ _)
      · exact hpathRest.subset
      · exact List.Subset.trans hqueryFront.subset (fst_cutAround_prefix_self '#' rest).subset
      · exact hfragment ▸ (snd_cutAround_suffix_self '#' rest).subset
    exact isRemoved_of_mem_cleanAddress (cutScheme_snd_subset _ (hsubset (hparts hc)))

theorem Url.IsRead.withSlash {u : Url} (h : u.IsRead) :
    { u with path := if u.path.isEmpty then ['/'] else u.path : Url }.IsRead := by
  split
  next hpath =>
    have hkept := h.kept
    rw [List.isEmpty_iff.1 hpath] at hkept
    refine ⟨h.scheme, h.host, h.unmistakable, fun _ => isStart_of_slash ?_, fun _ => ?_, ?_,
      h.query, ?_⟩
    · simp
    · simp
    · simp
    · intro c hc
      rcases List.mem_append.1 hc with hc | hc
      · exact hkept c (List.mem_append_left _ hc)
      · rcases List.mem_cons.1 hc with rfl | hc
        · rfl
        · exact hkept c (List.mem_append_right _ hc)
  · exact h

theorem Url.IsRead.withQuery {u : Url} (h : u.IsRead) {query : List Char}
    (hquery : ∀ c ∈ query, c ≠ '#' ∧ isRemoved c = false) :
    { u with query : Url }.IsRead := by
  refine ⟨h.scheme, h.host, h.unmistakable, h.noScheme, h.rooted, h.path,
    fun hmem => (hquery '#' hmem).1 rfl, fun c hc => ?_⟩
  have hkept := h.kept c
  simp only [List.mem_append] at hc hkept
  rcases hc with hc | hc | hc | hc
  · exact hkept (.inl hc)
  · exact hkept (.inr (.inl hc))
  · exact (hquery c hc).2
  · exact hkept (.inr (.inr (.inr hc)))

/-! ## Putting an address together -/

/-- Whether an address shows where its host is or would be. -/
def Url.showsHost (u : Url) : Bool :=
  !u.host.isEmpty ||
    (hostSchemes.contains (String.ofList u.scheme) && !(u.path.take 2 == ['/', '/']))

/-- The path as it stands in an address: after a host it starts with a slash. -/
def Url.shownPath (u : Url) : List Char :=
  if u.showsHost && !(u.path.isEmpty || u.path.head? == some '/') then '/' :: u.path else u.path

def Url.schemeText (u : Url) : List Char :=
  if u.scheme.isEmpty then [] else u.scheme ++ [':']

def Url.hostText (u : Url) : List Char :=
  if u.showsHost then '/' :: '/' :: u.host else []

def Url.tail (u : Url) : List Char :=
  (if u.query.isEmpty then [] else '?' :: u.query) ++
    (if u.fragment.isEmpty then [] else '#' :: u.fragment)

theorem Url.join_eq (u : Url) :
    u.join = u.schemeText ++ (u.hostText ++ (u.shownPath ++ u.tail)) := by
  unfold Url.join Url.schemeText Url.hostText Url.shownPath Url.tail
  change (_ ++ (if u.showsHost then _ else _) ++ _ ++ _ : List Char) = _
  cases u.showsHost with
  | false => simp
  | true => by_cases h : u.path.isEmpty || u.path.head? == some '/' <;> simp [h]

theorem cutAround_optional {mark : Char} {front : List Char} (h : mark ∉ front)
    (rest : List Char) :
    cutAround mark (front ++ if rest.isEmpty then [] else mark :: rest) = (front, rest) := by
  cases rest with
  | nil => simpa using cutAround_of_not_mem h
  | cons c rest => exact cutAround_append h _

/-- The query and the fragment are cut off from what has no marks of theirs. -/
theorem Url.cutAround_tail {u : Url} {front : List Char} (hquestion : '?' ∉ front)
    (hhash : '#' ∉ front) (hquery : '#' ∉ u.query) :
    cutAround '?' (cutAround '#' (front ++ u.tail)).1 = (front, u.query) ∧
      (cutAround '#' (front ++ u.tail)).2 = u.fragment := by
  have hmark : '#' ∉ front ++ if u.query.isEmpty then [] else '?' :: u.query := by
    cases hu : u.query with
    | nil => simpa using hhash
    | cons c query => simpa [hhash, hu] using hquery
  rw [Url.tail, ← List.append_assoc, cutAround_optional hmark]
  exact ⟨cutAround_optional hquestion u.query, rfl⟩

theorem Url.head_tail (u : Url) : ∀ c ∈ u.tail.head?, c = '?' ∨ c = '#' := by
  unfold Url.tail
  cases u.query <;> cases u.fragment <;> simp

theorem Url.mem_tail {u : Url} {c : Char} (h : c ∈ u.tail) :
    c = '?' ∨ c = '#' ∨ c ∈ u.query ∨ c ∈ u.fragment := by
  unfold Url.tail at h
  revert h
  cases u.query <;> cases u.fragment <;> simp <;> tauto

theorem Url.mem_shownPath {u : Url} {c : Char} (h : c ∈ u.shownPath) : c = '/' ∨ c ∈ u.path := by
  unfold Url.shownPath at h
  split at h
  · exact List.mem_cons.1 h
  · exact .inr h

theorem Url.mem_hostText {u : Url} {c : Char} (h : c ∈ u.hostText) : c = '/' ∨ c ∈ u.host := by
  unfold Url.hostText at h
  split at h
  · simpa using h
  · cases h

theorem Url.mem_schemeText {u : Url} {c : Char} (h : c ∈ u.schemeText) :
    c = ':' ∨ c ∈ u.scheme := by
  unfold Url.schemeText at h
  split at h
  · cases h
  · simpa [or_comm] using h

theorem Url.shownPath_of_not_showsHost {u : Url} (h : u.showsHost = false) :
    u.shownPath = u.path := by
  simp [Url.shownPath, h]

/-- After a host there is a slash, a query, a fragment or nothing. -/
theorem Url.endsHost_shownPath {u : Url} (h : u.showsHost = true) :
    ∀ c ∈ (u.shownPath ++ u.tail).head?, endsHost c = true := by
  intro c hc
  cases hpath : u.path with
  | nil =>
    have hshown : u.shownPath = [] := by simp [Url.shownPath, hpath]
    rw [hshown, List.nil_append] at hc
    rcases u.head_tail c hc with rfl | rfl <;> rfl
  | cons d path =>
    have hshown : ∃ rest, u.shownPath = '/' :: rest := by
      by_cases hd : d = '/'
      · exact ⟨path, by simp [Url.shownPath, hpath, hd]⟩
      · exact ⟨d :: path, by simp [Url.shownPath, hpath, hd, h]⟩
    obtain ⟨rest, hshown⟩ := hshown
    rw [hshown] at hc
    cases hc
    rfl

theorem IsHost.not_mem {mark : Char} {host : List Char} (h : IsHost host)
    (hmark : endsHost mark = true) : mark ∉ host := by
  intro hmem
  rw [h.whole mark hmem] at hmark
  cases hmark

namespace Url.IsRead

variable {u : Url} (h : u.IsRead)
include h

theorem isScheme_of_mem {c : Char} (hc : c ∈ u.scheme) : IsScheme u.scheme :=
  (h.scheme (List.ne_nil_of_mem hc)).1

theorem not_mem_shownPath : '?' ∉ u.shownPath ∧ '#' ∉ u.shownPath := by
  constructor <;> intro hmem
  · exact (mem_shownPath hmem).elim (by decide) h.path.1
  · exact (mem_shownPath hmem).elim (by decide) h.path.2

theorem not_mem_front : '?' ∉ u.schemeText ++ (u.hostText ++ u.shownPath) ∧
    '#' ∉ u.schemeText ++ (u.hostText ++ u.shownPath) := by
  have hscheme {mark : Char} (hmark : isSchemeChar mark = false) (hcolon : mark ≠ ':') :
      mark ∉ u.schemeText := fun hmem =>
    (mem_schemeText hmem).elim hcolon fun hc => (h.isScheme_of_mem hc).not_mem hmark hc
  have hhost {mark : Char} (hmark : endsHost mark = true) (hslash : mark ≠ '/') :
      mark ∉ u.hostText := fun hmem =>
    (mem_hostText hmem).elim hslash (h.host.not_mem hmark)
  simp only [List.mem_append, not_or]
  exact ⟨⟨hscheme (by decide) (by decide), hhost (by decide) (by decide), h.not_mem_shownPath.1⟩,
    hscheme (by decide) (by decide), hhost (by decide) (by decide), h.not_mem_shownPath.2⟩

theorem isLeading_head_join : ∀ c ∈ u.join.head?, isLeading c = false := by
  rw [join_eq]
  intro c hc
  cases hscheme : u.scheme with
  | cons d scheme =>
    have hd : d ∈ u.scheme := by simp [hscheme]
    obtain rfl : d = c := by simpa [schemeText, hscheme] using hc
    exact isLeading_of_isSchemeChar ((h.isScheme_of_mem hd).chars d hd)
  | nil =>
    simp only [schemeText, hscheme, List.isEmpty_nil, if_true, List.nil_append, hostText] at hc
    split at hc
    · cases hc
      rfl
    next hshows =>
      rw [List.nil_append, shownPath_of_not_showsHost (Bool.eq_false_iff.2 hshows)] at hc
      cases hpath : u.path with
      | nil =>
        rw [hpath] at hc
        rcases u.head_tail c hc with rfl | rfl <;> rfl
      | cons d path =>
        rw [hpath] at hc
        cases hc
        exact (h.noScheme hscheme).2 c (by rw [hpath]; rfl)

theorem cleanAddress_join : cleanAddress u.join = u.join := by
  refine cleanAddress_eq_self h.isLeading_head_join fun c hc => ?_
  simp only [join_eq, List.mem_append] at hc
  have hkept := h.kept c
  simp only [List.mem_append] at hkept
  rcases hc with hc | hc | hc | hc
  · obtain rfl | hc := mem_schemeText hc
    · rfl
    · exact isRemoved_eq_false (isLeading_of_isSchemeChar ((h.isScheme_of_mem hc).chars c hc))
  · exact (mem_hostText hc).elim (fun hslash => hslash ▸ rfl) fun hc => hkept (.inl hc)
  · exact (mem_shownPath hc).elim (fun hslash => hslash ▸ rfl) fun hc => hkept (.inr (.inl hc))
  · obtain rfl | rfl | hc | hc := mem_tail hc
    · rfl
    · rfl
    · exact hkept (.inr (.inr (.inl hc)))
    · exact hkept (.inr (.inr (.inr hc)))

/-- Nothing after a missing scheme looks like one. -/
theorem not_hasScheme (hnone : u.scheme = []) :
    ¬ HasScheme (u.hostText ++ (u.shownPath ++ u.tail)) := by
  unfold Url.hostText
  split
  · exact not_hasScheme_of_head (by decide) _
  next hshows =>
    rw [List.nil_append, shownPath_of_not_showsHost (Bool.eq_false_iff.2 hshows)]
    exact not_hasScheme_append (h.noScheme hnone).1 u.head_tail

theorem cutScheme_join :
    cutScheme u.join = (u.scheme, u.hostText ++ (u.shownPath ++ u.tail)) := by
  rw [join_eq]
  by_cases hnone : u.scheme = []
  · rw [schemeText, hnone]
    exact cutScheme_eq_self (h.not_hasScheme hnone)
  · obtain ⟨hscheme, hlower⟩ := h.scheme hnone
    have happend := cutScheme_append hscheme (u.hostText ++ (u.shownPath ++ u.tail))
    rw [hlower] at happend
    simpa [schemeText, hnone] using happend

theorem cutHost_join (hpath : u.host = [] → ¬ ['/', '/'] <+: u.path) :
    cutHost (u.hostText ++ (u.shownPath ++ u.tail)) = .ok (u.host, u.shownPath ++ u.tail) := by
  refine cutHost_eq_ok_iff.2 ?_
  unfold Url.hostText
  split
  next hshows => exact .inl ⟨rfl, h.host, endsHost_shownPath hshows⟩
  next hshows =>
    have hhost : u.host = [] := by
      simp only [showsHost, Bool.not_eq_true, Bool.or_eq_false_iff] at hshows
      simpa using hshows.1
    rw [List.nil_append, shownPath_of_not_showsHost (Bool.eq_false_iff.2 hshows)]
    exact .inr ⟨not_slashes_append (hpath hhost) u.head_tail, hhost, rfl⟩

/-- Parts that are put together are cut again, with a slash before the path if one was put
there. -/
theorem split_join (hpath : u.host = [] → ¬ ['/', '/'] <+: u.path) :
    Url.split u.join = .ok { u with path := u.shownPath } := by
  obtain ⟨hquestion, hhash⟩ := h.not_mem_shownPath
  obtain ⟨hquery, hfragment⟩ := cutAround_tail hquestion hhash h.query
  refine split_eq_ok_iff.2 ⟨u.shownPath ++ u.tail, ?_⟩
  rw [h.cleanAddress_join, h.cutScheme_join, hquery]
  exact ⟨rfl, h.cutHost_join hpath, h.unmistakable, rfl, rfl, hfragment.symm⟩

end Url.IsRead

/-! ## The query of an address -/

/-- What stands between the first question mark and the fragment. -/
def queryOf (address : List Char) : List Char :=
  (cutAround '?' (cutAround '#' (cleanAddress address)).1).2

theorem exists_of_cutScheme (cs : List Char) : ∃ front, cs = front ++ (cutScheme cs).2 ∧
    '?' ∉ front ∧ '#' ∉ front := by
  obtain ⟨-, hcut⟩ | ⟨scheme, rest, hscheme, rfl, hcut⟩ := cutScheme_cases cs <;> rw [hcut]
  · exact ⟨[], rfl, by simp, by simp⟩
  · have hquestion : '?' ∉ scheme := hscheme.not_mem (by decide)
    have hhash : '#' ∉ scheme := hscheme.not_mem (by decide)
    exact ⟨scheme ++ [':'], by simp, by simp [hquestion], by simp [hhash]⟩

theorem exists_of_cutHost {cs host rest : List Char} (h : cutHost cs = .ok (host, rest)) :
    ∃ front, cs = front ++ rest ∧ '?' ∉ front ∧ '#' ∉ front := by
  obtain ⟨rfl, hhost, -⟩ | ⟨-, -, rfl⟩ := cutHost_eq_ok_iff.1 h
  · have hquestion : '?' ∉ host := hhost.not_mem (by decide)
    have hhash : '#' ∉ host := hhost.not_mem (by decide)
    exact ⟨'/' :: '/' :: host, rfl, by simp [hquestion], by simp [hhash]⟩
  · exact ⟨[], rfl, by simp, by simp⟩

/-- The query that cutting an address gives stands where it is looked for in any address. -/
theorem query_eq_queryOf {address : List Char} {u : Url} (h : Url.split address = .ok u) :
    u.query = queryOf address := by
  obtain ⟨rest, -, hhost, -, -, hquery, -⟩ := split_eq_ok_iff.1 h
  obtain ⟨scheme, hscheme, hquestion, hhash⟩ := exists_of_cutScheme (cleanAddress address)
  obtain ⟨host, hrest, hquestion', hhash'⟩ := exists_of_cutHost hhost
  rw [hquery, queryOf, hscheme, hrest, cutAround_append_left hhash,
    cutAround_append_left hquestion, cutAround_append_left hhash',
    cutAround_append_left hquestion']

theorem Url.IsRead.queryOf_join {u : Url} (h : u.IsRead) : queryOf u.join = u.query := by
  obtain ⟨hquestion, hhash⟩ := h.not_mem_front
  have hjoin : u.join = u.schemeText ++ (u.hostText ++ u.shownPath) ++ u.tail := by
    rw [Url.join_eq, List.append_assoc, List.append_assoc]
  rw [queryOf, h.cleanAddress_join, hjoin, (Url.cutAround_tail hquestion hhash h.query).1]

end Orus.Share
