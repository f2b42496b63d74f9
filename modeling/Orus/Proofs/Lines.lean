import Orus.Text.Blank
import Orus.Text.Lines

/-! # Lines and blank ends

A text is its lines with a separator between each two, and none of them holds one. Trimming
takes the blanks at both ends of a text and nothing else, which tells a trimmed text from the
blanks around it.
-/

namespace Orus.Text

/-! ## Lines -/

theorem splitAt_cons (separator c : Char) (cs : List Char) :
    splitAt separator (c :: cs) =
      if c = separator then [] :: splitAt separator cs
      else match splitAt separator cs with
        | [] => [[c]]
        | piece :: rest => (c :: piece) :: rest := rfl

theorem splitAt_eq_splitOn (separator : Char) (cs : List Char) :
    splitAt separator cs = cs.splitOn separator := by
  induction cs with
  | nil => rfl
  | cons c cs ih =>
    rw [List.splitOn, List.splitOnP_cons_eq_if_modifyHead, ← List.splitOn, ← ih, splitAt_cons]
    simp only [beq_iff_eq]
    split
    · rfl
    · cases hpieces : splitAt separator cs with
      | nil => exact absurd (ih.symm.trans hpieces) (List.splitOn_ne_nil separator cs)
      | cons piece pieces => rfl

theorem splitAt_ne_nil (separator : Char) (cs : List Char) : splitAt separator cs ≠ [] := by
  rw [splitAt_eq_splitOn]
  exact List.splitOn_ne_nil separator cs

theorem intercalate_splitAt (separator : Char) (cs : List Char) :
    [separator].intercalate (splitAt separator cs) = cs := by
  rw [splitAt_eq_splitOn, List.intercalate_splitOn]

theorem splitAt_intercalate {separator : Char} {pieces : List (List Char)} (hne : pieces ≠ [])
    (h : ∀ piece ∈ pieces, separator ∉ piece) :
    splitAt separator ([separator].intercalate pieces) = pieces := by
  rw [splitAt_eq_splitOn, List.splitOn_intercalate separator h hne]

theorem not_mem_of_mem_splitAt {separator : Char} {cs piece : List Char}
    (h : piece ∈ splitAt separator cs) : separator ∉ piece := by
  induction cs generalizing piece with
  | nil =>
    obtain rfl := List.mem_singleton.1 h
    exact List.not_mem_nil
  | cons c cs ih =>
    rw [splitAt_cons] at h
    split at h
    · rcases List.mem_cons.1 h with rfl | h
      · exact List.not_mem_nil
      · exact ih h
    next hc =>
      cases hpieces : splitAt separator cs with
      | nil => exact absurd hpieces (splitAt_ne_nil separator cs)
      | cons first rest =>
        simp only [hpieces, List.forall_mem_cons] at h ih
        rcases List.mem_cons.1 h with rfl | h
        · exact List.not_mem_cons_of_ne_of_not_mem (Ne.symm hc) ih.1
        · exact ih.2 piece h

/-! ## Trimming -/

def AreBlank (cs : List Char) : Prop :=
  ∀ c ∈ cs, isBlank c = true

theorem areBlank_nil : AreBlank [] :=
  List.forall_mem_nil _

theorem areBlank_cons {c : Char} {cs : List Char} :
    AreBlank (c :: cs) ↔ isBlank c = true ∧ AreBlank cs :=
  List.forall_mem_cons

theorem areBlank_append {cs ds : List Char} : AreBlank (cs ++ ds) ↔ AreBlank cs ∧ AreBlank ds :=
  List.forall_mem_append

theorem areBlank_replicate (n : Nat) : AreBlank (List.replicate n ' ') :=
  fun _ hc => List.eq_of_mem_replicate hc ▸ rfl

structure IsTrimmed (cs : List Char) : Prop where
  head : ∀ c ∈ cs.head?, isBlank c = false
  last : ∀ c ∈ cs.getLast?, isBlank c = false

theorem dropWhile_append_stop {p : Char → Bool} {before after : List Char}
    (hbefore : ∀ c ∈ before, p c = true) (hafter : ∀ c ∈ after.head?, p c = false) :
    (before ++ after).dropWhile p = after := by
  rw [List.dropWhile_append_of_pos hbefore]
  cases after with
  | nil => rfl
  | cons c after => simp [hafter c rfl]

theorem exists_trim (cs : List Char) : ∃ before after,
    cs = before ++ (trim cs ++ after) ∧ AreBlank before ∧ AreBlank after := by
  refine ⟨cs.takeWhile isBlank, ((cs.dropWhile isBlank).reverse.takeWhile isBlank).reverse, ?_,
    List.all_eq_true.1 List.all_takeWhile, fun c hc => ?_⟩
  · rw [trim, trimWith, ← List.reverse_append, List.takeWhile_append_dropWhile,
      List.reverse_reverse, List.takeWhile_append_dropWhile]
  · exact List.all_eq_true.1 List.all_takeWhile c (List.mem_reverse.1 hc)

theorem head?_dropWhile (p : Char → Bool) (cs : List Char) :
    ∀ c ∈ (cs.dropWhile p).head?, p c = false := by
  intro c hc
  have hhead := List.head?_dropWhile_not p cs
  rw [Option.mem_def.1 hc] at hhead
  simpa using hhead

theorem isTrimmed_trim (cs : List Char) : IsTrimmed (trim cs) := by
  refine ⟨fun c hc => head?_dropWhile isBlank cs c ?_, fun c hc => ?_⟩
  · have hprefix : trim cs <+: cs.dropWhile isBlank := by
      rw [trim, trimWith, ← List.reverse_suffix, List.reverse_reverse]
      exact List.dropWhile_suffix _
    obtain ⟨after, hafter⟩ := hprefix
    rw [← hafter, List.head?_append, Option.mem_def.1 hc]
    rfl
  · rw [trim, trimWith, List.getLast?_reverse] at hc
    exact head?_dropWhile isBlank _ c hc

theorem IsTrimmed.trim_eq {before cs after : List Char} (h : IsTrimmed cs)
    (hbefore : AreBlank before) (hafter : AreBlank after) :
    trim (before ++ (cs ++ after)) = cs := by
  cases cs with
  | nil =>
    have hall : AreBlank (before ++ after) := areBlank_append.2 ⟨hbefore, hafter⟩
    have hdrop : (before ++ after ++ []).dropWhile isBlank = [] := dropWhile_append_stop hall nofun
    rw [List.append_nil] at hdrop
    rw [List.nil_append, trim, trimWith, hdrop]
    rfl
  | cons c cs =>
    have hreverse : ∀ d ∈ after.reverse, isBlank d = true := fun d hd =>
      hafter d (List.mem_reverse.1 hd)
    have hlast : ∀ d ∈ (c :: cs).reverse.head?, isBlank d = false := by
      rw [List.head?_reverse]
      exact h.last
    rw [trim, trimWith, dropWhile_append_stop hbefore (by simpa using h.head), List.reverse_append,
      dropWhile_append_stop hreverse hlast, List.reverse_reverse]

end Orus.Text
