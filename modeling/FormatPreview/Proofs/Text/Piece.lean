import FormatPreview.Text.Line

/-!
Pieces between line feeds. Joined again they are the text, and a text that is put together from rows,
each followed by a line feed, has these rows as its pieces and an empty one at the end.
-/
namespace FormatPreview.Text

theorem charPieces_eq_splitOn (cs : List Char) : charPieces cs = cs.splitOn '\n' := by
  fun_induction charPieces cs with
  | case1 => rfl
  | case2 rest ih => simp [List.splitOn_cons_eq_if_modifyHead, ih]
  | case3 c rest inner empty ih => simp [empty] at ih
  | case4 c rest inner piece more cut ih =>
    simp [List.splitOn_cons_eq_if_modifyHead, inner, ← ih, cut]

theorem joinWith_pieces (text : String) : joinWith "\n" (pieces text) = text := by
  rw [← String.toList_inj, joinWith, String.toList_intercalate, pieces, List.map_map,
    charPieces_eq_splitOn]
  simp

theorem pieces_ne_nil (text : String) : pieces text ≠ [] := by
  simp [pieces, charPieces_eq_splitOn]

/-- A joined text between two others is joined with them. -/
theorem joinWith_between (first : String) {texts : List String} (some : texts ≠ []) (last : String) :
    joinWith "\n" [first, joinWith "\n" texts, last] = joinWith "\n" (first :: texts ++ [last]) := by
  have more : texts ++ [last] ≠ [] := by simp
  simp only [joinWith]
  rw [List.cons_append, String.intercalate_cons_of_ne_nil more,
    String.intercalate_append_of_ne_nil some (by simp), String.intercalate_cons_cons,
    String.intercalate_cons_cons, String.append_assoc]

theorem charPieces_append {cs rest first : List Char} {more : List (List Char)}
    (inner : '\n' ∉ cs) (cut : charPieces rest = first :: more) :
    charPieces (cs ++ rest) = (cs ++ first) :: more := by
  induction cs with
  | nil => exact cut
  | cons c cs ih =>
    obtain ⟨apart, inner⟩ := not_or.1 (mt List.mem_cons.2 inner)
    rw [List.cons_append, charPieces, if_neg (Ne.symm apart), ih inner, List.cons_append]

theorem pieces_feed {row : String} (inner : '\n' ∉ row.toList) (rest : String) :
    pieces (row ++ "\n" ++ rest) = row :: pieces rest := by
  have chars : (row ++ "\n" ++ rest).toList = row.toList ++ '\n' :: rest.toList := by simp
  have cut : charPieces ('\n' :: rest.toList) = [] :: charPieces rest.toList := by
    rw [charPieces, if_pos rfl]
  rw [pieces, chars, charPieces_append inner cut, List.append_nil, List.map_cons,
    String.ofList_toList]
  rfl

theorem pieces_plain {row : String} (inner : '\n' ∉ row.toList) : pieces row = [row] := by
  have cut : charPieces (row.toList ++ []) = [row.toList ++ []] := charPieces_append inner rfl
  rw [List.append_nil] at cut
  rw [pieces, cut, List.map_singleton, String.ofList_toList]

/-- Rows with a line feed after each have themselves as pieces, and an empty one at the end. -/
theorem pieces_join {rows : List String} (inner : ∀ row ∈ rows, '\n' ∉ row.toList) :
    pieces (String.join (rows.map (· ++ "\n"))) = rows ++ [""] := by
  induction rows with
  | nil => rfl
  | cons row rows ih =>
    obtain ⟨here, later⟩ := List.forall_mem_cons.1 inner
    rw [List.map_cons, String.join_cons, pieces_feed here, ih later, List.cons_append]

end FormatPreview.Text
