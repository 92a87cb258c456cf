import SplTyping.Report.Diagnostics

namespace SplTyping

/-!
# Excerpts stay within the source

An excerpt is put together from lines that are looked up by number and from
stretches of columns that are found by subtraction. `excerpt?` does both in a
way that can fail: there is no line outside of the source and no difference
below zero. It never does fail (`excerpt?_eq`), whatever the span is: its end
may come before its start, and its lines and columns may lie behind the end of
the text.

What an excerpt shows are the lines of the source in the span and next to it,
and the marks keep to the columns of a line and the one behind its end
(`Diagnostics.entry_in_range`).
-/

namespace Report

/-- A difference that is not below zero. -/
def minus? (whole part : Nat) : Option Nat :=
  if part ≤ whole then some (whole - part) else none

/-- The line with a given number. -/
def line? (source : List String) (number : Nat) : Option String := do
  let index ← minus? number 1
  source[index]?

/-- A text up to some character, and from that character on. -/
def splitChars (text : String) (position : Nat) : String × String :=
  (String.ofList (text.toList.take position),
    String.ofList (text.toList.drop position))

/-- One source line of an excerpt, looked up by its number. -/
def excerptLine?
    (paint : Painter)
    (color : Bool)
    (source : List String)
    (pad : Nat)
    (span : Span)
    (number : Nat) :
    Option (List String) := do
  let text ← line? source number
  let leading := paintIf paint color .frame (gutter pad number) ++ " "
  match columns? span number text.length with
  | none => return [leading ++ text]
  | some (first, past) =>
      let count ← minus? past first
      if color then
        let (before, rest) := splitChars text first
        let (marked, behind) := splitChars rest count
        return [leading ++ before ++ paint .marked marked ++ behind]
      else
        return [leading ++ text,
          padLeft pad "" ++ " | " ++ repeated ' ' first ++ repeated '^' count]

/-- The lines of an excerpt, from the first to the last line that is shown. -/
def excerpt?
    (paint : Painter)
    (color : Bool)
    (source : List String)
    (span : Span) :
    Option (List String) :=
  if span.isUnknown ∨ source.length < span.start.line then
    some []
  else do
    let (first, last) := shownLines span source.length
    let pad := (toString last).length
    let shown ←
      (List.range' first (last + 1 - first)).mapM
        (excerptLine? paint color source pad span)
    return ("  " ++ paintIf paint color .frame "-->" ++ " " ++
        toString span.start.line ++ ":" ++ toString span.start.column) ::
      shown.flatten

/-- The marks start within the line or right behind it, and are not empty. -/
theorem columns?_bounds
    {span : Span}
    {number width : Nat}
    {columns : Nat × Nat}
    (marked : columns? span number width = some columns) :
    columns.1 ≤ width ∧
      columns.1 < columns.2 ∧
      columns.2 ≤ max width (columns.1 + 1) := by
  simp only [columns?] at marked
  split at marked
  · cases marked
  · cases marked
    omega

/-- A line is marked exactly if the span covers it. -/
theorem columns?_isSome_iff
    (span : Span)
    (number width : Nat) :
    (columns? span number width).isSome = true ↔
      span.start.line ≤ number ∧
        number ≤ max span.start.line span.stop.line := by
  simp only [columns?]
  split
  · simp only [Option.isSome_none, Bool.false_eq_true, false_iff]
    omega
  · simp only [Option.isSome_some, true_iff]
    omega

/-- Lines are numbered in order, so those between two numbers stand together. -/
theorem filter_zipIdx
    {α : Type}
    (items : List α)
    (start first last : Nat) :
    (items.zipIdx start).filter
        (fun item => decide (first ≤ item.2 ∧ item.2 ≤ last)) =
      ((items.zipIdx start).drop (first - start)).take
        (last + 1 - max first start) := by
  induction items generalizing start with
  | nil => simp
  | cons item rest inductionHypothesis =>
      rw [List.zipIdx_cons, List.filter_cons, inductionHypothesis]
      by_cases isBefore : start < first
      -- The item comes before the first one that is kept, and is dropped.
      · rw [if_neg (by simp; omega)]
        have oneLess : first - start = first - (start + 1) + 1 := by omega
        rw [oneLess, List.drop_succ_cons, Nat.max_eq_left isBefore,
          Nat.max_eq_left (Nat.le_of_lt isBefore)]
      -- From here on nothing is dropped, and what counts is the last number.
      · have isReached : first ≤ start := Nat.le_of_not_lt isBefore
        rw [Nat.sub_eq_zero_of_le isReached,
          Nat.sub_eq_zero_of_le (Nat.le_succ_of_le isReached),
          Nat.max_eq_right isReached,
          Nat.max_eq_right (Nat.le_succ_of_le isReached),
          List.drop_zero, List.drop_zero]
        by_cases isKept : start ≤ last
        · rw [if_pos (by simp; omega)]
          have oneMore : last + 1 - start = last + 1 - (start + 1) + 1 := by
            omega
          rw [oneMore, List.take_succ_cons]
        · rw [if_neg (by simp; omega)]
          have isPast : last + 1 ≤ start := Nat.lt_of_not_le isKept
          rw [Nat.sub_eq_zero_of_le isPast,
            Nat.sub_eq_zero_of_le (Nat.le_succ_of_le isPast),
            List.take_zero, List.take_zero]

/-- No line comes before the first one. -/
theorem one_le_shownLines
    (span : Span)
    (lineCount : Nat) :
    1 ≤ (shownLines span lineCount).1 :=
  Nat.le_max_right _ _

/-- The shown lines end with the source. -/
theorem shownLines_le
    (span : Span)
    (lineCount : Nat) :
    (shownLines span lineCount).2 ≤ lineCount :=
  Nat.min_le_right _ _

/-- The shown lines are those of the source in and next to the span. -/
theorem shownSource_eq_filter
    (source : List String)
    (span : Span) :
    shownSource source span =
      (source.zipIdx 1).filter fun line =>
        span.start.line ≤ line.2 + 1 ∧
          line.2 ≤ max span.start.line span.stop.line + 1 := by
  have isWindow :=
    filter_zipIdx source 1 (shownLines span source.length).1
      (shownLines span source.length).2
  rw [Nat.max_eq_left (one_le_shownLines span source.length)] at isWindow
  simp only [shownSource]
  rw [← isWindow]
  apply List.filter_congr
  intro line isLine
  have inSource := List.mem_zipIdx isLine
  rw [decide_eq_decide]
  simp only [shownLines]
  omega

/-- The shown lines have the numbers from the first to the last one. -/
theorem map_snd_shownSource
    (source : List String)
    (span : Span) :
    (shownSource source span).map Prod.snd =
      List.range' (shownLines span source.length).1
        ((shownLines span source.length).2 + 1 -
          (shownLines span source.length).1) := by
  have fromOne := one_le_shownLines span source.length
  have inSource := shownLines_le span source.length
  simp only [shownSource]
  generalize (shownLines span source.length).1 = first at *
  generalize (shownLines span source.length).2 = last at *
  rw [List.map_take, List.map_drop, List.zipIdx_map_snd, List.drop_range']
  have isFirst : 1 + (first - 1) * 1 = first := by omega
  have isEnough :
      source.length - (first - 1) =
        (last + 1 - first) +
          (source.length - (first - 1) - (last + 1 - first)) := by
    omega
  rw [isFirst, isEnough, ← List.range'_append_1]
  exact List.take_left' List.length_range'

/-- A shown line is found in the source by its number. -/
theorem line?_of_shown
    {source : List String}
    {span : Span}
    {line : String × Nat}
    (isShown : line ∈ shownSource source span) :
    line? source line.2 = some line.1 := by
  rw [shownSource_eq_filter] at isShown
  obtain ⟨isNumbered, isFound⟩ :=
    List.mem_zipIdx_iff_le_and_getElem?_sub.mp (List.mem_filter.mp isShown).1
  rw [line?, minus?, if_pos isNumbered]
  exact isFound

/-- Numbers before the first line and behind the last one have no line. -/
example : line? ["x"] 0 = none ∧ line? ["x"] 2 = none := by decide

/-- A larger number has no fewer digits. -/
theorem length_toString_le
    {small large : Nat}
    (isLess : small ≤ large) :
    (toString small).length ≤ (toString large).length := by
  have inDigits : large < 10 ^ large.repr.length :=
    (Nat.length_repr_le_iff Nat.length_repr_pos).mp (Nat.le_refl _)
  exact
    (Nat.length_repr_le_iff Nat.length_repr_pos).mpr
      (Nat.lt_of_le_of_lt isLess inDigits)

/-- A gutter is as wide as its field if the number fits into it. -/
theorem length_gutter
    {pad number : Nat}
    (fits : (toString number).length ≤ pad) :
    (gutter pad number).length = pad + 2 := by
  rw [gutter, padLeft, String.length_append, String.length_ofList,
    List.length_leftpad, String.length_toList, Nat.max_eq_left fits]
  rfl

/-- Two splits, one behind the other, cut a text into its pieces. -/
theorem pieces_eq_splits
    {columns : Nat × Nat}
    (inOrder : columns.1 ≤ columns.2)
    (text : String) :
    pieces columns text =
      ((splitChars text columns.1).1,
        splitChars (splitChars text columns.1).2 (columns.2 - columns.1)) := by
  simp only [pieces, splitChars, String.toList_ofList, List.drop_drop]
  rw [Nat.add_sub_cancel' inOrder]

/-- The pieces of a text make up the text. -/
theorem pieces_join
    {columns : Nat × Nat}
    (inOrder : columns.1 ≤ columns.2)
    (text : String) :
    (pieces columns text).1 ++ (pieces columns text).2.1 ++
        (pieces columns text).2.2 =
      text := by
  have isBehind :
      text.toList.drop columns.2 =
        (text.toList.drop columns.1).drop (columns.2 - columns.1) := by
    rw [List.drop_drop, Nat.add_sub_cancel' inOrder]
  rw [← String.toList_inj]
  simp only [pieces, String.toList_append, String.toList_ofList]
  rw [isBehind, List.append_assoc, List.take_append_drop,
    List.take_append_drop]

/-- A shown line is rendered. -/
theorem excerptLine?_of_shown
    (paint : Painter)
    (color : Bool)
    {source : List String}
    (pad : Nat)
    {span : Span}
    {line : String × Nat}
    (isShown : line ∈ shownSource source span) :
    excerptLine? paint color source pad span line.2 =
      some (excerptLine paint color pad span line.2 line.1) := by
  simp only [excerptLine?, line?_of_shown isShown, Option.bind_eq_bind,
    Option.bind_some, excerptLine]
  cases isMarked : columns? span line.2 line.1.length with
  | none => rfl
  | some columns =>
      -- At least one column is marked, so the number of marks is a difference.
      have inOrder := Nat.le_of_lt (columns?_bounds isMarked).2.1
      simp only [minus?, if_pos inOrder, Option.bind_some, caretLine,
        pieces_eq_splits inOrder]
      cases color <;> rfl

/-- Lines that are all rendered are rendered one after the other. -/
theorem mapM_map_of_some
    {α β γ : Type}
    {key : α → β}
    {step : β → Option γ}
    {result : α → γ}
    (items : List α)
    (succeeds : ∀ item ∈ items, step (key item) = some (result item)) :
    (items.map key).mapM step = some (items.map result) := by
  induction items with
  | nil => rfl
  | cons item rest inductionHypothesis =>
      rw [List.forall_mem_cons] at succeeds
      rw [List.map_cons, List.mapM_cons, succeeds.1,
        inductionHypothesis succeeds.2]
      rfl

/-- Every line of an excerpt is in the source, and no difference is negative. -/
theorem excerpt?_eq
    (paint : Painter)
    (color : Bool)
    (source : List String)
    (span : Span) :
    excerpt? paint color source span =
      some (excerpt paint color source span) := by
  rw [excerpt?, excerpt]
  split
  · rfl
  · simp only [← map_snd_shownSource]
    rw [mapM_map_of_some _ fun line isShown =>
      excerptLine?_of_shown paint color _ isShown]
    rfl

/-- A line of an excerpt whose gutters are `pad` and two characters wide. -/
structure LineInRange
    (span : Span)
    (pad : Nat)
    (line : String × Nat) :
    Prop where
  gutterWidth : (gutter pad line.2).length = pad + 2
  marked_iff :
    (columns? span line.2 line.1.length).isSome = true ↔
      span.start.line ≤ line.2 ∧
        line.2 ≤ max span.start.line span.stop.line
  bounds :
    ∀ columns, columns? span line.2 line.1.length = some columns →
      columns.1 ≤ line.1.length ∧
        columns.1 < columns.2 ∧
        columns.2 ≤ max line.1.length (columns.1 + 1)
  joined :
    ∀ columns, columns? span line.2 line.1.length = some columns →
      (pieces columns line.1).1 ++ (pieces columns line.1).2.1 ++
          (pieces columns line.1).2.2 =
        line.1

/-- The shown lines are in range if the last number gives the width. -/
theorem lineInRange_of_shown
    {source : List String}
    {span : Span}
    {line : String × Nat}
    (isShown : line ∈ shownSource source span) :
    LineInRange span (toString (shownLines span source.length).2).length
      line := by
  have isNumber : line.2 ∈ (shownSource source span).map Prod.snd :=
    List.mem_map_of_mem isShown
  rw [map_snd_shownSource, List.mem_range'_1] at isNumber
  have isBeforeLast : line.2 ≤ (shownLines span source.length).2 := by omega
  exact {
    gutterWidth := length_gutter (length_toString_le isBeforeLast)
    marked_iff := columns?_isSome_iff span line.2 line.1.length
    bounds := fun _ isMarked => columns?_bounds isMarked
    joined := fun _ isMarked =>
      pieces_join (Nat.le_of_lt (columns?_bounds isMarked).2.1) line.1
  }

end Report

namespace Diagnostics

/-- The lines of one error or warning, with an excerpt that could fail. -/
def entryLines?
    (paint : Report.Painter)
    (color : Bool)
    (source : List String)
    (label message : String)
    (span : Span) :
    Option (List String) := do
  let excerpt ← Report.excerpt? paint color source span
  return (label ++ ": " ++ message) :: excerpt

/--
The entry of any span is rendered. If the span starts in the source, the entry
shows the lines from the one before the start to the one behind the later end,
as far as they exist, and marks those between the ends.
-/
theorem entry_in_range
    (paint : Report.Painter)
    (color : Bool)
    (source : List String)
    (label message : String)
    (span : Span) :
    entryLines? paint color source label message span =
        some (entry paint color source label message span) ∧
      (span.isUnknown = false →
        span.start.line ≤ source.length →
        ∃ pad shown,
          shown =
              (source.zipIdx 1).filter (fun line =>
                span.start.line ≤ line.2 + 1 ∧
                  line.2 ≤ max span.start.line span.stop.line + 1) ∧
            entry paint color source label message span =
              (label ++ ": " ++ message) ::
                ("  " ++ Report.paintIf paint color .frame "-->" ++ " " ++
                  toString span.start.line ++ ":" ++
                  toString span.start.column) ::
                shown.flatMap (fun line =>
                  Report.excerptLine paint color pad span line.2 line.1) ∧
            ∀ line ∈ shown, Report.LineInRange span pad line) := by
  constructor
  · rw [entryLines?, Report.excerpt?_eq]
    rfl
  · intro isKnown startsInSource
    have hasExcerpt :
        ¬(span.isUnknown = true ∨ source.length < span.start.line) := by
      rintro (isUnknown | startsBehind)
      · rw [isKnown] at isUnknown
        cases isUnknown
      · exact Nat.not_lt_of_le startsInSource startsBehind
    refine ⟨(toString (Report.shownLines span source.length).2).length,
      Report.shownSource source span,
      Report.shownSource_eq_filter source span, ?_,
      fun line isShown => Report.lineInRange_of_shown isShown⟩
    rw [entry, Report.excerpt, if_neg hasExcerpt]

/-- A span that ends a line before it starts, with a column behind the text. -/
theorem entry_in_range_reversed :
    let source := Report.lines "a = 1;\n  x = y;\nreturn;\n\n"
    let span : Span := ⟨⟨2, 30⟩, ⟨1, 3⟩⟩
    let paint : Report.Painter := fun _ text => text
    let shown := [("a = 1;", 1), ("  x = y;", 2), ("return;", 3)]
    span.isUnknown = false ∧
      span.start.line ≤ source.length ∧
      ∃ pad,
        entry paint false source "error" "text" span =
            "error: text" :: "  --> 2:30" ::
              shown.flatMap (fun line =>
                Report.excerptLine paint false pad span line.2 line.1) ∧
          ∀ line ∈ shown, Report.LineInRange span pad line := by
  intro source span paint shown
  refine ⟨by decide, by decide, ?_⟩
  obtain ⟨pad, lines, areFiltered, isEntry, inRange⟩ :=
    (entry_in_range paint false source "error" "text" span).2 (by decide)
      (by decide)
  have areShown : lines = shown := areFiltered.trans (by decide)
  have isTitle : "error" ++ ": " ++ "text" = "error: text" := by decide
  have isPlace :
      "  " ++ Report.paintIf paint false .frame "-->" ++ " " ++
          toString span.start.line ++ ":" ++ toString span.start.column =
        "  --> 2:30" := by
    decide
  rw [areShown] at isEntry inRange
  rw [isTitle, isPlace] at isEntry
  exact ⟨pad, isEntry, inRange⟩

end Diagnostics

end SplTyping
