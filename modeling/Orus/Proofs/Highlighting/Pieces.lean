import Orus.Editor.Highlight

/-! # The pieces of a text

The pieces of a text are its first piece and the pieces of what is left after it, whatever was
found before. No piece is empty, and together they are the text, which makes the colouring of a
text a way of cutting it up.
-/

namespace Orus.Editor

def pieces (cs : List Char) : List Piece :=
  (piecesFrom #[] cs).toList

theorem highlight_eq_pieces (source : String) : highlight source = pieces source.toList := rfl

theorem toList_piecesFrom (done : Array Piece) (cs : List Char) :
    (piecesFrom done cs).toList = done.toList ++ pieces cs := by
  match cs with
  | [] => simp [pieces, piecesFrom]
  | c :: rest =>
    rw [pieces, piecesFrom, piecesFrom, toList_piecesFrom _ (rest.drop _),
      toList_piecesFrom _ (rest.drop _)]
    simp
termination_by cs.length
decreasing_by all_goals simp only [List.length_drop, List.length_cons]; omega

@[simp] theorem pieces_nil : pieces [] = [] := by
  simp [pieces, piecesFrom]

theorem pieces_cons (c : Char) (rest : List Char) : pieces (c :: rest) =
    ⟨(pieceAt c rest).1, String.ofList (c :: rest.take (pieceAt c rest).2)⟩ ::
      pieces (rest.drop (pieceAt c rest).2) := by
  rw [pieces, piecesFrom, toList_piecesFrom]
  rfl

theorem pieces_append {c : Char} {cs after : List Char} {kind : PieceClass}
    (h : pieceAt c (cs ++ after) = (kind, cs.length)) :
    pieces (c :: (cs ++ after)) = ⟨kind, String.ofList (c :: cs)⟩ :: pieces after := by
  rw [pieces_cons, h, List.take_left, List.drop_left]

theorem text_ne_empty_of_mem_pieces {p : Piece} (cs : List Char) (hp : p ∈ pieces cs) :
    p.text ≠ "" := by
  match cs with
  | [] => simp at hp
  | c :: rest =>
    rw [pieces_cons] at hp
    rcases List.mem_cons.1 hp with rfl | hp
    · simp
    · exact text_ne_empty_of_mem_pieces _ hp
termination_by cs.length
decreasing_by simp only [List.length_drop, List.length_cons]; omega

theorem flatMap_pieces (cs : List Char) : (pieces cs).flatMap (·.text.toList) = cs := by
  match cs with
  | [] => simp
  | c :: rest =>
    rw [pieces_cons, List.flatMap_cons, flatMap_pieces (rest.drop _)]
    simp
termination_by cs.length
decreasing_by simp only [List.length_drop, List.length_cons]; omega

theorem join_map_text (source : String) :
    String.join ((highlight source).map Piece.text) = source := by
  rw [← String.toList_inj, String.toList_join, List.flatMap_map]
  exact flatMap_pieces source.toList

end Orus.Editor
