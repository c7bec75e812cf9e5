import Mathlib.Data.List.Infix

/-!
# Comma separated records

A text is a sequence of pieces of fields, commas and line breaks; quoting is left out. A writer
puts a row and a line break behind whatever there is; a reader takes pieces with nothing between
them as one field. What is written behind a line break, or into an empty text, is read as the
row written; behind anything else it is read together with the record before.
-/

namespace MonitoringRobot.Base.Csv

universe u

variable {α : Type u}

/-- A part of a text: one that belongs to a field, or a separator. -/
inductive Token (α : Type u) where
  | piece (f : α)
  | comma
  | lineBreak
  deriving DecidableEq

/-- The fields of a row as they are read back: each one a single piece. -/
def written (row : List α) : List (List (Token α)) := row.map fun f ↦ [.piece f]

/-- `csv.writer(f).writerow(row)`: what is put behind the text. -/
def writerow (row : List α) : List (Token α) :=
  [.comma].intercalate (written row) ++ [.lineBreak]

/-- A text that is empty or ends with a line break. -/
def Ended (text : List (Token α)) : Prop := text = [] ∨ ∃ front, text = front ++ [.lineBreak]

theorem ended_append_writerow (text : List (Token α)) (row : List α) :
    Ended (text ++ writerow row) := by
  right
  exact ⟨_, (List.append_assoc _ _ _).symm⟩

theorem ended_writerow (row : List α) : Ended (writerow row) := .inr ⟨_, rfl⟩

/-- A text that has not ended has a last line, which is not empty. -/
theorem exists_of_not_ended {text : List (Token α)} (h : ¬ Ended text) :
    ∃ front line, text = front ++ line ∧ Ended front ∧ line ≠ [] ∧ Token.lineBreak ∉ line := by
  induction text with
  | nil => exact absurd (.inl rfl) h
  | cons t text ih =>
    by_cases htext : Ended text
    · rcases htext with rfl | ⟨front, rfl⟩
      · refine ⟨[], [t], rfl, .inl rfl, List.cons_ne_nil _ _, ?_⟩
        rintro hmem
        rw [← List.mem_singleton.mp hmem] at h
        exact h (.inr ⟨[], rfl⟩)
      · exact absurd (.inr ⟨t :: front, rfl⟩) h
    · obtain ⟨front, line, rfl, hfront, hline, hbreak⟩ := ih htext
      rcases hfront with rfl | ⟨front, rfl⟩
      · by_cases ht : t = .lineBreak
        · exact ⟨[t], line, rfl, .inr ⟨[], by rw [ht]; rfl⟩, hline, hbreak⟩
        · refine ⟨[], t :: line, rfl, .inl rfl, List.cons_ne_nil _ _, ?_⟩
          rw [List.mem_cons, not_or]
          exact ⟨fun heq ↦ ht heq.symm, hbreak⟩
      · exact ⟨t :: (front ++ [.lineBreak]), line, rfl, .inr ⟨t :: front, rfl⟩, hline, hbreak⟩

private theorem lineBreak_not_mem (row : List α) :
    Token.lineBreak ∉ [Token.comma].intercalate (written row) := by
  induction row with
  | nil => simp [written]
  | cons f row ih =>
    cases row with
    | nil => simp [written]
    | cons g row => simpa [written, List.intercalate_cons_cons] using ih

variable [DecidableEq α]

/-- The lines of a text. A line break ends one; what stands behind the last is one more, unless
nothing does. -/
def lines (text : List (Token α)) : List (List (Token α)) :=
  if (text.splitOn .lineBreak).getLast? = some [] then (text.splitOn .lineBreak).dropLast
  else text.splitOn .lineBreak

/-- The fields of a line; an empty line has none. -/
def fields (line : List (Token α)) : List (List (Token α)) :=
  if line = [] then [] else line.splitOn .comma

/-- `csv.reader(f)`: the records of a text. -/
def reader (text : List (Token α)) : List (List (List (Token α))) := (lines text).map fields

@[simp] theorem reader_nil : reader ([] : List (Token α)) = [] := by
  simp [reader, lines]

private theorem lines_lineBreak (front text : List (Token α)) :
    lines (front ++ .lineBreak :: text) = front.splitOn .lineBreak ++ lines text := by
  have hlast : (front.splitOn .lineBreak ++ text.splitOn .lineBreak).getLast? =
      (text.splitOn .lineBreak).getLast? :=
    List.getLast?_append_of_ne_nil _ (List.splitOn_ne_nil _ _)
  unfold lines
  rw [List.splitOn_append_cons_self, hlast]
  split
  · exact List.dropLast_append_of_ne_nil (List.splitOn_ne_nil _ _)
  · rfl

theorem reader_append {text : List (Token α)} (h : Ended text) (more : List (Token α)) :
    reader (text ++ more) = reader text ++ reader more := by
  rcases h with rfl | ⟨front, rfl⟩
  · rw [List.nil_append, reader_nil, List.nil_append]
  · rw [reader, List.append_assoc, List.singleton_append, lines_lineBreak, reader,
      lines_lineBreak, reader, List.map_append, List.map_append]
    simp [lines]

theorem reader_line {line : List (Token α)} (h : Token.lineBreak ∉ line) :
    reader (line ++ [.lineBreak]) = [fields line] := by
  rw [reader, lines_lineBreak, List.splitOn_eq_singleton h]
  simp [lines]

/-- What stands behind the last line break is one record. -/
theorem reader_unended {line : List (Token α)} (hline : line ≠ [])
    (hbreak : Token.lineBreak ∉ line) : reader line = [fields line] := by
  have hlast : [line].getLast? ≠ some [] := by simpa using hline
  rw [reader, lines, List.splitOn_eq_singleton hbreak, if_neg hlast]
  rfl

private theorem splitOn_written {row : List α} (h : row ≠ []) :
    ([Token.comma].intercalate (written row)).splitOn .comma = written row := by
  apply List.splitOn_intercalate
  · intro field hfield
    obtain ⟨f, -, rfl⟩ := List.mem_map.mp hfield
    simp
  · simpa [written] using h

/-- A row that was written is read back. -/
theorem reader_writerow (row : List α) : reader (writerow row) = [written row] := by
  rw [writerow, reader_line (lineBreak_not_mem row), fields]
  cases row with
  | nil => rfl
  | cons f row =>
    have hline : [Token.comma].intercalate (written (f :: row)) ≠ [] := by
      cases row <;> simp [written, List.intercalate_cons_cons]
    rw [if_neg hline, splitOn_written (List.cons_ne_nil f row)]

private theorem length_splitOn_concat (line : List (Token α)) (f : α) :
    ((line ++ [Token.piece f]).splitOn .comma).length = (line.splitOn .comma).length := by
  induction line with
  | nil => simp [List.splitOn_cons_eq_if_modifyHead]
  | cons t line ih =>
    rw [List.cons_append, List.splitOn_cons_eq_if_modifyHead, List.splitOn_cons_eq_if_modifyHead]
    split
    · rw [List.length_cons, List.length_cons, ih]
    · rw [List.length_modifyHead, List.length_modifyHead, ih]

/-- A row written behind a line that has not ended is read as one record with it: the first field
of the row belongs to the last one of the line. -/
theorem length_reader_joined {line : List (Token α)} (hline : line ≠ [])
    (hbreak : Token.lineBreak ∉ line) (f : α) (row : List α) :
    ∃ record, reader (line ++ writerow (f :: row)) = [record] ∧
      record.length = (fields line).length + row.length := by
  have hmem : Token.lineBreak ∉ line ++ [Token.comma].intercalate (written (f :: row)) := by
    rw [List.mem_append, not_or]
    exact ⟨hbreak, lineBreak_not_mem _⟩
  refine ⟨_, by rw [writerow, ← List.append_assoc, reader_line hmem], ?_⟩
  rw [fields, fields, if_neg hline, if_neg (List.append_ne_nil_of_left_ne_nil hline _)]
  cases row with
  | nil => exact length_splitOn_concat line f
  | cons g row =>
    have hsplit : line ++ [Token.comma].intercalate (written (f :: g :: row)) =
        (line ++ [.piece f]) ++ .comma :: [Token.comma].intercalate (written (g :: row)) := by
      simp [written, List.intercalate_cons_cons]
    rw [hsplit, List.splitOn_append_cons_self, List.length_append, length_splitOn_concat,
      splitOn_written (List.cons_ne_nil g row), written, List.length_map]

example : reader (writerow ['a', 'b'] ++ [.piece 'c', .comma, .piece 'd'] ++ writerow ['e', 'f']) =
    [written ['a', 'b'], [[.piece 'c'], [.piece 'd', .piece 'e'], [.piece 'f']]] := by
  decide +kernel

end MonitoringRobot.Base.Csv
