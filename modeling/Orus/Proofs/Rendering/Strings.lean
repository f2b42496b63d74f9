import Orus.Proofs.Layout.Trees
import Orus.Proofs.Rendering.Canonical
import Orus.Proofs.Shape

/-! # Reading rendered strings back

The raw body that the segments of a string are rendered to is split into the same
segments again: escapes keep plain text apart from markers.
-/

namespace Orus.Span

def codes (spans : List Span) : List Nat :=
  spans.flatMap fun span => (List.range (span.2 + 1 - span.1)).map (· + span.1)

theorem mem_codes {spans : List Span} {n : Nat} (h : covers spans n = true) :
    n ∈ codes spans := by
  induction spans with
  | nil => cases h
  | cons span spans ih =>
    simp only [covers, Bool.and_eq_true, Bool.or_eq_true, decide_eq_true_eq] at h
    simp only [codes, List.flatMap_cons, List.mem_append, List.mem_map, List.mem_range]
    rcases h with ⟨hlo, hhi | hrest⟩
    · exact .inl ⟨n - span.1, by omega, by omega⟩
    · exact .inr (ih hrest)

end Orus.Span

namespace Orus.Syntax

open Text

/-! ## Characters -/

theorem toNat_of_isMarkerStart {c : Char} (h : isMarkerStart c = true) :
    65 ≤ c.toNat ∧ c.toNat ≤ 122 := by
  simp only [isMarkerStart, isAsciiLetter, Bool.or_eq_true, Bool.and_eq_true, decide_eq_true_eq,
    beq_iff_eq, Char.le_def, UInt32.le_iff_toNat_le] at h
  change ((97 ≤ c.toNat ∧ c.toNat ≤ 122) ∨ (65 ≤ c.toNat ∧ c.toNat ≤ 90)) ∨ c = '_' at h
  obtain (h | h) | rfl := h
  · omega
  · omega
  · decide

theorem isBlank_eq_false {c : Char} (h : isMarkerStart c = true) : isBlank c = false := by
  have hc := toNat_of_isMarkerStart h
  simp [isBlank, blankSpans, Span.covers]
  omega

/-- There are few enough blanks to look at each of them. -/
theorem isWordChar_of_isBlank {c : Char} (h : isBlank c = true) : isWordChar c = false := by
  have hall : ∀ n ∈ Span.codes blankSpans, isWordChar (Char.ofNat n) = false := by decide +kernel
  simpa using hall c.toNat (Span.mem_codes h)

/-! ## Markers -/

theorem markerNames_intercalate {names : List (List Char)} (hne : names ≠ [])
    (h : ∀ name ∈ names, IsMarkerName name) (fuel : Nat) (hfuel : names.length ≤ fuel)
    {rest : List Char} (hrest : ∀ c ∈ rest.head?, isWordChar c = false ∧ c ≠ '.') :
    markerNames fuel (['.'].intercalate names ++ rest) = some (names, rest) := by
  induction names generalizing fuel with
  | nil => exact absurd rfl hne
  | cons name names ih =>
    obtain ⟨n, rfl⟩ : ∃ n, fuel = n + 1 := ⟨fuel - 1, by simp at hfuel; omega⟩
    obtain ⟨c, w, rfl, hc, hw⟩ := h name List.mem_cons_self
    have htake (ds : List Char) : (w ++ ds).takeWhile isWordChar = w ++ ds.takeWhile isWordChar :=
      List.takeWhile_append_of_pos hw
    have hdrop (ds : List Char) : (w ++ ds).dropWhile isWordChar = ds.dropWhile isWordChar :=
      List.dropWhile_append_of_pos hw
    have hpoint : isWordChar '.' = false := by decide
    cases names with
    | nil =>
      have hjoin : ['.'].intercalate [c :: w] ++ rest = c :: (w ++ rest) := by
        simp [List.intercalate]
      rw [hjoin, markerNames, if_pos hc, htake, hdrop]
      cases rest with
      | nil => simp
      | cons d rest =>
        obtain ⟨hword, hd⟩ := hrest d rfl
        simp [hword, hd]
    | cons next names =>
      have hnames := ih (by simp) (fun x hx => h x (List.mem_cons_of_mem _ hx)) n
        (by simpa using hfuel)
      have hjoin : ['.'].intercalate ((c :: w) :: next :: names) ++ rest =
          c :: (w ++ '.' :: (['.'].intercalate (next :: names) ++ rest)) := by
        simp [List.intercalate]
      rw [hjoin, markerNames, if_pos hc, htake, hdrop]
      simp [hnames, hpoint]

theorem length_le_intercalate (names : List (List Char)) :
    names.length ≤ (['.'].intercalate names).length + 1 := by
  induction names with
  | nil => exact Nat.zero_le _
  | cons name names ih =>
    cases names with
    | nil => simp
    | cons next names =>
      have hjoin : ['.'].intercalate (name :: next :: names) =
          name ++ '.' :: ['.'].intercalate (next :: names) := by simp [List.intercalate]
      simp only [hjoin, List.length_cons, List.length_append] at ih ⊢
      omega

theorem dropWhile_isBlank_intercalate {names : List (List Char)} (hne : names ≠ [])
    (h : ∀ name ∈ names, IsMarkerName name) (cs : List Char) :
    (['.'].intercalate names ++ cs).dropWhile isBlank = ['.'].intercalate names ++ cs := by
  cases names with
  | nil => exact absurd rfl hne
  | cons name names =>
    obtain ⟨c, w, rfl, hc, -⟩ := h name List.mem_cons_self
    have hblank := isBlank_eq_false hc
    cases names <;> simp [List.intercalate, hblank]

/-- A marker is found after its opening brace, also with blanks around its names. -/
theorem marker?_intercalate {names : List (List Char)} (hne : names ≠ [])
    (h : ∀ name ∈ names, IsMarkerName name) {before after : List Char}
    (hbefore : ∀ c ∈ before, isBlank c = true) (hafter : ∀ c ∈ after, isBlank c = true)
    (cs : List Char) :
    marker? (before ++ (['.'].intercalate names ++ (after ++ '}' :: cs))) =
      some (names, (before ++ (['.'].intercalate names ++ after)).length + 1) := by
  have hlength := length_le_intercalate names
  have hstop : ∀ c ∈ (after ++ '}' :: cs).head?, isWordChar c = false ∧ c ≠ '.' := by
    cases after with
    | nil => simp; decide
    | cons d after =>
      have hd := hafter d List.mem_cons_self
      have hpoint : d ≠ '.' := by
        rintro rfl
        cases hd
      simpa [hpoint] using isWordChar_of_isBlank hd
  have hnames := markerNames_intercalate hne h
    ((before ++ (['.'].intercalate names ++ (after ++ '}' :: cs))).length + 1)
    (by simp only [List.length_append]; omega) hstop
  have hbrace : isBlank '}' = false := by decide
  rw [marker?, List.dropWhile_append_of_pos hbefore, dropWhile_isBlank_intercalate hne h, hnames]
  simp [List.dropWhile_append_of_pos hafter, hbrace]
  omega

theorem markerPath_ne_nil {n : Node} (h : WellFormedMarker n) : markerPath n ≠ [] := by
  cases h <;> simp [markerPath]

theorem isMarkerName_of_mem_markerPath {n : Node} (h : WellFormedMarker n) :
    ∀ name ∈ markerPath n, IsMarkerName name := by
  induction h with
  | identifier hname => simpa [markerPath] using hname
  | field _ hname ih =>
    intro name hmem
    simp only [markerPath, List.mem_append, List.mem_singleton] at hmem
    obtain hmem | rfl := hmem
    · exact ih name hmem
    · exact hname

theorem markerNode_append (m : Option Mark) {names : List (List Char)} (hne : names ≠ [])
    (name : List Char) : markerNode m (names ++ [name]) =
      .field (markerNode m names) (.str (String.ofList name)) m := by
  cases names with
  | nil => exact absurd rfl hne
  | cons first names => simp [markerNode]

theorem markerNode_markerPath (m : Option Mark) {n : Node} (h : WellFormedMarker n) :
    markerNode m (markerPath n) = n.marked m := by
  induction h with
  | identifier _ => simp [markerPath, markerNode, Node.marked]
  | field htarget _ ih =>
    rw [markerPath, markerNode_append m (markerPath_ne_nil htarget), ih]
    simp [Node.marked]

/-! ## Segments -/

variable (m : Option Mark)

theorem segmentsFrom_escape (text : List Char) (done : List Node) (c : Char) (cs : List Char) :
    segmentsFrom m text done (escape c ++ cs) = segmentsFrom m (c :: text) done cs := by
  unfold escape
  split
  · rw [List.cons_append, List.cons_append, segmentsFrom]
    rfl
  · rw [List.cons_append, List.cons_append, segmentsFrom]
    rfl
  · rw [List.cons_append, List.cons_append, segmentsFrom]
    rfl
  next hbackslash _ hbrace =>
    rw [List.cons_append, List.nil_append, segmentsFrom]
    · rw [if_neg (by simpa using hbrace)]
    · intro d rest hc _
      exact hbackslash hc

/-- Text is read in one go if each of its characters is read back from how it is written. -/
theorem segmentsFrom_flatMap {f : Char → List Char} {done : List Node}
    (hf : ∀ text c cs, segmentsFrom m text done (f c ++ cs) = segmentsFrom m (c :: text) done cs)
    (s text cs : List Char) :
    segmentsFrom m text done (s.flatMap f ++ cs) = segmentsFrom m (s.reverse ++ text) done cs := by
  induction s generalizing text with
  | nil => rfl
  | cons c s ih =>
    rw [List.flatMap_cons, List.append_assoc, hf, ih]
    simp

theorem segmentsFrom_text (s text : List Char) (done : List Node) (cs : List Char) :
    segmentsFrom m text done (s.flatMap escape ++ cs) =
      segmentsFrom m (s.reverse ++ text) done cs :=
  segmentsFrom_flatMap m (fun text => segmentsFrom_escape m text done) s text cs

theorem segmentsFrom_names {names : List (List Char)} (hne : names ≠ [])
    (h : ∀ name ∈ names, IsMarkerName name) {before after : List Char}
    (hbefore : ∀ c ∈ before, isBlank c = true) (hafter : ∀ c ∈ after, isBlank c = true)
    (text : List Char) (done : List Node) (cs : List Char) :
    segmentsFrom m text done
        ('{' :: (before ++ (['.'].intercalate names ++ (after ++ '}' :: cs)))) =
      segmentsFrom m [] (markerNode m names :: flush text done) cs := by
  have hassoc : before ++ (['.'].intercalate names ++ (after ++ '}' :: cs)) =
      (before ++ (['.'].intercalate names ++ after)) ++ '}' :: cs := by simp
  rw [segmentsFrom, if_pos (beq_self_eq_true '{'), marker?_intercalate hne h hbefore hafter]
  · dsimp only
    rw [hassoc, List.drop_length_add_append, List.drop_one, List.tail_cons]
  · intro d rest hc _
    exact absurd hc (by decide)

theorem segmentsFrom_marker {n : Node} (h : WellFormedMarker n) (text : List Char)
    (done : List Node) (cs : List Char) :
    segmentsFrom m text done ('{' :: (['.'].intercalate (markerPath n) ++ '}' :: cs)) =
      segmentsFrom m [] (n.marked m :: flush text done) cs := by
  have hmarker := segmentsFrom_names m (markerPath_ne_nil h) (isMarkerName_of_mem_markerPath h)
    (List.forall_mem_nil _) (List.forall_mem_nil _) text done cs
  rwa [markerNode_markerPath m h] at hmarker

theorem renderSegment_of_marker {n : Node} (h : WellFormedMarker n) :
    renderSegment n = '{' :: (['.'].intercalate (markerPath n) ++ ['}']) := by
  cases h <;> rfl

theorem eq_raw_of_isText {n : Node} (h : isText n = true) : ∃ s, n = .raw (.str s) := by
  unfold isText at h
  split at h
  · exact ⟨_, rfl⟩
  · cases h

/-- The segment of plain text that has been read, if it is not empty. -/
def pending (text : List Char) : List Node :=
  if text.isEmpty then [] else [.raw (.str (String.ofList text))]

theorem reverse_flush (text : List Char) (done : List Node) :
    (flush text.reverse done).reverse = done.reverse ++ pending text := by
  unfold flush pending
  rw [List.isEmpty_reverse]
  split
  · simp
  · simp

/-- Segments are read back after those that were read already and plain text that was begun,
if no text among them is empty. The next segment is no text if one was begun. -/
theorem segmentsFrom_renderSegments {segments : List Node}
    (hkind : ∀ n ∈ segments, isText n = true ∨ WellFormedMarker n)
    (hapart : segments.IsChain fun n n' => ¬ (isText n = true ∧ isText n' = true))
    (hfilled : ∀ n ∈ segments, n ≠ .raw (.str "")) (text : List Char)
    (hnext : text ≠ [] → ∀ n ∈ segments.head?, isText n = false) (done : List Node)
    (hsome : done ≠ [] ∨ segments ≠ [] ∨ text ≠ []) :
    segmentsFrom m text.reverse done (segments.flatMap renderSegment) =
      done.reverse ++ (pending text ++ Node.markedAll m segments) := by
  induction segments generalizing text done with
  | nil =>
    rw [List.flatMap_nil, segmentsFrom, reverse_flush]
    simp only [Node.markedAll, List.append_nil]
    split
    next hempty =>
      obtain rfl := List.isEmpty_iff.1 hempty
      have htext : text ≠ [] := by simpa using hsome
      simp [pending, htext]
    · rfl
  | cons n ns ih =>
    have hkind' : ∀ x ∈ ns, isText x = true ∨ WellFormedMarker x :=
      fun x hx => hkind x (List.mem_cons_of_mem n hx)
    have hfilled' : ∀ x ∈ ns, x ≠ .raw (.str "") :=
      fun x hx => hfilled x (List.mem_cons_of_mem n hx)
    obtain htext | hmarker := hkind n List.mem_cons_self
    · -- a text: nothing was begun before it, and no text follows it
      obtain ⟨s, rfl⟩ := eq_raw_of_isText htext
      have hnil : text = [] := by
        by_contra hne
        exact absurd (hnext hne _ rfl) (by simp [isText])
      have hs : s.toList ≠ [] := by
        intro h
        apply hfilled _ List.mem_cons_self
        rw [String.toList_eq_nil_iff.1 h]
      have hafter : s.toList ≠ [] → ∀ x ∈ ns.head?, isText x = false := by
        intro _ x hx
        have hpair := (List.isChain_cons.1 hapart).1 x hx
        simpa [isText] using hpair
      subst hnil
      rw [List.flatMap_cons, renderSegment, segmentsFrom_text, List.reverse_nil, List.append_nil,
        ih hkind' hapart.tail hfilled' s.toList hafter done (.inr (.inr hs))]
      simp [pending, hs, Node.markedAll, Node.marked]
    · rw [List.flatMap_cons, renderSegment_of_marker hmarker]
      have hassoc : ('{' :: (['.'].intercalate (markerPath n) ++ ['}'])) ++
          ns.flatMap renderSegment =
          '{' :: (['.'].intercalate (markerPath n) ++ '}' :: ns.flatMap renderSegment) := by simp
      rw [hassoc, segmentsFrom_marker m hmarker]
      have hrest := ih hkind' hapart.tail hfilled' [] (fun h => absurd rfl h)
        (n.marked m :: flush text.reverse done) (.inl (by simp))
      rw [List.reverse_nil] at hrest
      rw [hrest, List.reverse_cons, reverse_flush]
      simp [pending, Node.markedAll]

/-- The literal of rendered segments is the literal they are the segments of. -/
theorem stringLiteral_renderSegments {segments : List Node} (h : WellFormedSegments segments) :
    stringLiteral (String.ofList (segments.flatMap renderSegment)) m =
      .string (Node.markedAll m segments) m := by
  unfold stringLiteral
  rw [String.toList_ofList]
  congr 1
  by_cases hempty : (.raw (.str "") : Node) ∈ segments
  · rw [h.filled _ hempty rfl, List.flatMap_singleton]
    simp [renderSegment, segmentsFrom, Node.markedAll, Node.marked]
  · have hfilled : ∀ n ∈ segments, n ≠ .raw (.str "") := by
      rintro n hn rfl
      exact hempty hn
    have hsegments := segmentsFrom_renderSegments m h.kind h.apart hfilled []
      (fun hne => absurd rfl hne) [] (.inr (.inl h.nonempty))
    simpa [pending] using hsegments

end Orus.Syntax
