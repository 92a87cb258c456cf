import SplTyping.Proofs.Excerpts

namespace SplTyping

/-!
# Marks in plain and coloured excerpts

A coloured excerpt cuts a covered line in three and styles the middle piece. A
plain one leaves the line as it is and puts carets below it. Both mark the same
characters: the styled piece stands, column by column, above the carets, and the
caret behind the end of a line stands below nothing (`Report.excerpt_marksAlike`).

The cuts are made at byte offsets, which are found by counting characters. A cut
inside of a character would not be possible, and is never tried
(`Report.cutPieces?_eq`).
-/

namespace Report

/-- The byte offsets of some characters, the first of which stands at `start`. -/
def charOffsets (start : Nat) : List Char → List Nat
  | [] => []
  | char :: rest => start :: charOffsets (start + char.utf8Size) rest

/-- A text cut at a byte offset, unless that is inside a character or too large. -/
def splitAtByte? (text : String) (offset : Nat) : Option (String × String) :=
  if isBoundary : String.Pos.Raw.IsValid text ⟨offset⟩ then
    let position := text.pos ⟨offset⟩ isBoundary
    some ((text.sliceTo position).copy, (text.sliceFrom position).copy)
  else
    none

/-- A text cut before one of its characters, or at its end if there are fewer. -/
def splitAtChar? (text : String) (index : Nat) : Option (String × String) :=
  match (charOffsets 0 text.toList)[index]? with
  | some offset => splitAtByte? text offset
  | none => some (text, "")

/-- The three pieces of a line, by a cut in the line and one in what is behind it. -/
def cutPieces?
    (columns : Nat × Nat)
    (text : String) :
    Option (String × String × String) := do
  let (before, rest) ← splitAtChar? text columns.1
  let (marked, behind) ← splitAtChar? rest (columns.2 - columns.1)
  return (before, marked, behind)

theorem splitAtByte?_append
    (before behind : String) :
    splitAtByte? (before ++ behind) before.utf8ByteSize =
      some (before, behind) := by
  have isBoundary :
      String.Pos.Raw.IsValid (before ++ behind) ⟨before.utf8ByteSize⟩ :=
    String.Pos.Raw.isValid_rawEndPos.append_right behind
  rw [splitAtByte?, dif_pos isBoundary]
  have splits :
      ((before ++ behind).pos ⟨before.utf8ByteSize⟩ isBoundary).Splits before
        behind :=
    ⟨rfl, rfl⟩
  obtain ⟨isBefore, isBehind⟩ := (String.Pos.splits _).eq splits
  simp only [isBefore, isBehind]

/-- A character stands behind all bytes of those before it. -/
theorem getElem?_charOffsets
    (start : Nat)
    (chars : List Char)
    (index : Nat) :
    (charOffsets start chars)[index]? =
      if index < chars.length then
        some (start + (String.ofList (chars.take index)).utf8ByteSize)
      else
        none := by
  induction chars generalizing start index with
  | nil => simp [charOffsets]
  | cons char rest inductionHypothesis =>
      cases index with
      | zero => simp [charOffsets]
      | succ index =>
          simp [charOffsets, inductionHypothesis, Nat.add_assoc]

/-- Cutting before a character is possible, and parts the characters there. -/
theorem splitAtChar?_eq
    (text : String)
    (index : Nat) :
    splitAtChar? text index = some (splitChars text index) := by
  rw [splitAtChar?, getElem?_charOffsets, splitChars]
  by_cases isChar : index < text.toList.length
  · have isText :
        text =
          String.ofList (text.toList.take index) ++
            String.ofList (text.toList.drop index) := by
      rw [← String.ofList_append, List.take_append_drop, String.ofList_toList]
    have isCut :=
      splitAtByte?_append (String.ofList (text.toList.take index))
        (String.ofList (text.toList.drop index))
    rw [← isText] at isCut
    simpa only [if_pos isChar, Nat.zero_add] using isCut
  · have isPast : text.toList.length ≤ index := Nat.le_of_not_lt isChar
    simp [if_neg isChar, List.take_of_length_le isPast,
      List.drop_of_length_le isPast]

/-- The cuts at byte offsets give the pieces of a line. -/
theorem cutPieces?_eq
    {columns : Nat × Nat}
    (inOrder : columns.1 ≤ columns.2)
    (text : String) :
    cutPieces? columns text = some (pieces columns text) := by
  simp only [cutPieces?, splitAtChar?_eq, pieces_eq_splits inOrder]
  rfl

/-- The characters of a line that stand above a caret of the line below it. -/
def aboveCarets (line below : String) : List Char :=
  ((line.toList.zip below.toList).filter fun column => column.2 = '^').map
    Prod.fst

/-- What stands in front of the carets: a gutter without a number, and blanks. -/
def caretMargin (pad first : Nat) : List Char :=
  List.replicate pad ' ' ++ [' ', '|', ' '] ++ List.replicate first ' '

theorem toList_caretLine
    (pad : Nat)
    (columns : Nat × Nat) :
    (caretLine pad columns).toList =
      caretMargin pad columns.1 ++
        List.replicate (columns.2 - columns.1) '^' := by
  simp [caretLine, caretMargin, padLeft, repeated, List.leftpad]

theorem length_caretMargin
    (pad first : Nat) :
    (caretMargin pad first).length = pad + 3 + first := by
  simp [caretMargin, Nat.add_assoc, Nat.add_comm 3]

theorem not_mem_caretMargin
    (pad first : Nat) :
    '^' ∉ caretMargin pad first := by
  simp [caretMargin]

/-- The carets stand at the marked columns, behind the gutter. -/
theorem getElem?_caretLine
    {columns : Nat × Nat}
    (inOrder : columns.1 ≤ columns.2)
    (pad column : Nat) :
    (caretLine pad columns).toList[column]? = some '^' ↔
      pad + 3 + columns.1 ≤ column ∧ column < pad + 3 + columns.2 := by
  rw [toList_caretLine, List.getElem?_append, length_caretMargin]
  split
  · rename_i inMargin
    constructor
    · intro isCaret
      exact absurd (List.mem_of_getElem? isCaret) (not_mem_caretMargin _ _)
    · omega
  · rw [List.getElem?_replicate]
    simp only [Option.ite_none_right_eq_some, and_true]
    omega

theorem map_fst_zip_replicate
    (text : List Char)
    (count : Nat) :
    (text.zip (List.replicate count '^')).map Prod.fst = text.take count := by
  induction text generalizing count with
  | nil => simp
  | cons char rest inductionHypothesis =>
      cases count with
      | zero => rfl
      | succ count => simp [List.replicate_succ, inductionHypothesis]

/--
Below a line whose marked columns start behind `front`, the carets start where
`front` ends.
-/
theorem aboveCarets_eq
    {line : String}
    {front text : List Char}
    {pad : Nat}
    {columns : Nat × Nat}
    (isLine : line.toList = front ++ text)
    (isFront : front.length = pad + 3 + columns.1) :
    aboveCarets line (caretLine pad columns) =
      text.take (columns.2 - columns.1) := by
  have sameLength : front.length = (caretMargin pad columns.1).length := by
    rw [isFront, length_caretMargin]
  have noneBefore :
      (front.zip (caretMargin pad columns.1)).filter
        (fun column => column.2 = '^') = [] := by
    rw [List.filter_eq_nil_iff]
    intro column isColumn isCaret
    rw [decide_eq_true_iff] at isCaret
    have inMargin := (List.of_mem_zip isColumn).2
    rw [isCaret] at inMargin
    exact not_mem_caretMargin _ _ inMargin
  have allBehind :
      (text.zip (List.replicate (columns.2 - columns.1) '^')).filter
          (fun column => column.2 = '^') =
        text.zip (List.replicate (columns.2 - columns.1) '^') := by
    rw [List.filter_eq_self]
    intro column isColumn
    rw [decide_eq_true_iff]
    exact List.eq_of_mem_replicate (List.of_mem_zip isColumn).2
  rw [aboveCarets, isLine, toList_caretLine, List.zip_append sameLength,
    List.filter_append, noneBefore, allBehind, List.nil_append,
    map_fst_zip_replicate]

/--
A line is marked alike in a plain and in a coloured excerpt. The plain one prints
the line and the carets below it, the coloured one prints the pieces of the line.
They are cut at byte offsets, and make up the line. Of the plain line, the
columns above a caret are those of the middle piece.
-/
structure MarkedAlike
    (span : Span)
    (pad : Nat)
    (line : String × Nat)
    (columns : Nat × Nat)
    (before marked behind : String) :
    Prop where
  isMarked : columns? span line.2 line.1.length = some columns
  isCut : cutPieces? columns line.1 = some (before, marked, behind)
  plain :
    ∀ paint, excerptLine paint false pad span line.2 line.1 =
      [gutter pad line.2 ++ " " ++ line.1, caretLine pad columns]
  colored :
    ∀ paint, excerptLine paint true pad span line.2 line.1 =
      [paint .frame (gutter pad line.2) ++ " " ++ before ++
        paint .marked marked ++ behind]
  joined : before ++ marked ++ behind = line.1
  above :
    marked.toList =
      aboveCarets (gutter pad line.2 ++ " " ++ line.1) (caretLine pad columns)
  above_iff :
    ∀ column,
      (column < (gutter pad line.2 ++ " " ++ line.1).length ∧
          (caretLine pad columns).toList[column]? = some '^') ↔
        (gutter pad line.2 ++ " " ++ before).length ≤ column ∧
          column < (gutter pad line.2 ++ " " ++ before ++ marked).length

/-- A piece in front of marks that start within the line. -/
theorem length_pieces_before
    {columns : Nat × Nat}
    {text : String}
    (startsInLine : columns.1 ≤ text.length) :
    (pieces columns text).1.length = columns.1 := by
  rw [pieces, String.length_ofList, List.length_take, String.length_toList,
    Nat.min_eq_left startsInLine]

theorem length_pieces_marked
    (columns : Nat × Nat)
    (text : String) :
    (pieces columns text).2.1.length =
      min (columns.2 - columns.1) (text.length - columns.1) := by
  rw [pieces, String.length_ofList, List.length_take, List.length_drop,
    String.length_toList]

/-- A covered line is marked alike if its number fits into the gutter. -/
theorem markedAlike_of_covered
    {span : Span}
    {pad : Nat}
    {line : String × Nat}
    (isCovered :
      span.start.line ≤ line.2 ∧ line.2 ≤ max span.start.line span.stop.line)
    (fits : (toString line.2).length ≤ pad) :
    ∃ columns before marked behind,
      MarkedAlike span pad line columns before marked behind := by
  obtain ⟨columns, isMarked⟩ :=
    Option.isSome_iff_exists.mp
      ((columns?_isSome_iff span line.2 line.1.length).mpr isCovered)
  obtain ⟨startsInLine, isNotEmpty, _⟩ := columns?_bounds isMarked
  have inOrder := Nat.le_of_lt isNotEmpty
  have leadWidth : (gutter pad line.2 ++ " ").length = pad + 3 := by
    rw [String.length_append, length_gutter fits]
    rfl
  have beforeWidth := length_pieces_before startsInLine
  have markedWidth := length_pieces_marked columns line.1
  refine ⟨columns, (pieces columns line.1).1, (pieces columns line.1).2.1,
    (pieces columns line.1).2.2, ?_⟩
  exact {
    isMarked
    isCut := cutPieces?_eq inOrder line.1
    plain := fun paint => by
      simp only [excerptLine, isMarked]
      rfl
    colored := fun paint => by
      simp only [excerptLine, isMarked]
      rfl
    joined := pieces_join inOrder line.1
    above := by
      -- The carets start below the first character that is not in front of them.
      have isLine :
          (gutter pad line.2 ++ " " ++ line.1).toList =
            (gutter pad line.2 ++ " " ++ (pieces columns line.1).1).toList ++
              line.1.toList.drop columns.1 := by
        simp [pieces]
      rw [aboveCarets_eq isLine
        (by rw [String.length_toList, String.length_append, leadWidth, beforeWidth])]
      exact String.toList_ofList
    above_iff := fun column => by
      rw [getElem?_caretLine inOrder]
      simp only [String.length_append, beforeWidth, markedWidth] at leadWidth ⊢
      omega
  }

/--
A line of the source that a span covers is shown by its excerpt, and the plain
and the coloured excerpt mark the same characters of it. Both show the same
lines, each with its number in a field of the same width.
-/
theorem excerpt_marksAlike
    (source : List String)
    (span : Span)
    {line : String × Nat}
    (isLine : line ∈ source.zipIdx 1)
    (isCovered :
      span.start.line ≤ line.2 ∧ line.2 ≤ max span.start.line span.stop.line) :
    line ∈ shownSource source span ∧
      ∃ pad columns before marked behind,
        (∀ paint color,
          excerpt paint color source span =
            if span.isUnknown then
              []
            else
              ("  " ++ paintIf paint color .frame "-->" ++ " " ++
                  toString span.start.line ++ ":" ++
                  toString span.start.column) ::
                (shownSource source span).flatMap fun shown =>
                  excerptLine paint color pad span shown.2 shown.1) ∧
          MarkedAlike span pad line columns before marked behind := by
  have inSource := List.mem_zipIdx isLine
  have isShown : line ∈ shownSource source span := by
    rw [shownSource_eq_filter, List.mem_filter, decide_eq_true_iff]
    exact ⟨isLine, Nat.le_succ_of_le isCovered.1, Nat.le_succ_of_le isCovered.2⟩
  have isBeforeLast : line.2 ≤ (shownLines span source.length).2 := by
    simp only [shownLines]
    omega
  refine ⟨isShown, (toString (shownLines span source.length).2).length, ?_⟩
  obtain ⟨columns, before, marked, behind, alike⟩ :=
    markedAlike_of_covered isCovered (length_toString_le isBeforeLast)
  refine ⟨columns, before, marked, behind, fun paint color => ?_, alike⟩
  have startsInSource : ¬ source.length < span.start.line := by omega
  simp only [excerpt, startsInSource, or_false]

/--
Marks from a character of four bytes to the end of its line, and a single caret
behind the end of an empty line.
-/
theorem excerpt_marksAlike_wide :
    let source := lines "é = 1;\n ü😀^;\n\n"
    let span : Span := ⟨⟨2, 3⟩, ⟨3, 40⟩⟩
    ((" ü😀^;", 2) ∈ source.zipIdx 1 ∧
      (span.start.line ≤ 2 ∧ 2 ≤ max span.start.line span.stop.line) ∧
      ∃ pad before marked behind,
        MarkedAlike span pad (" ü😀^;", 2) (2, 5) before marked behind ∧
          before = " ü" ∧ marked = "😀^;" ∧ behind = "") ∧
    (("", 3) ∈ source.zipIdx 1 ∧
      (span.start.line ≤ 3 ∧ 3 ≤ max span.start.line span.stop.line) ∧
      ∃ pad before marked behind,
        MarkedAlike span pad ("", 3) (0, 1) before marked behind ∧
          before = "" ∧ marked = "" ∧ behind = "") := by
  intro source span
  have isWide : (" ü😀^;", 2) ∈ source.zipIdx 1 := by decide
  have isEmpty : ("", 3) ∈ source.zipIdx 1 := by decide
  refine ⟨⟨isWide, by decide, ?_⟩, isEmpty, by decide, ?_⟩
  · obtain ⟨_, pad, columns, before, marked, behind, _, alike⟩ :=
      excerpt_marksAlike source span isWide (by decide)
    cases (show columns? span 2 5 = some (2, 5) by decide).symm.trans alike.isMarked
    cases (cutPieces?_eq (by decide) _).symm.trans alike.isCut
    exact ⟨pad, _, _, _, alike, by decide, by decide, by decide⟩
  · obtain ⟨_, pad, columns, before, marked, behind, _, alike⟩ :=
      excerpt_marksAlike source span isEmpty (by decide)
    cases (show columns? span 3 0 = some (0, 1) by decide).symm.trans alike.isMarked
    cases (cutPieces?_eq (by decide) _).symm.trans alike.isCut
    exact ⟨pad, _, _, _, alike, by decide, by decide, by decide⟩

end Report

end SplTyping
