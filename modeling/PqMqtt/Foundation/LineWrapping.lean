import PqMqtt.Foundation.Delimited

/-!
# Wrapping lines

A writer that ends the line after every `width` items, and once more at the end unless a line was
just ended, writes full lines but for the last one, and no empty line.
-/

namespace PqMqtt.LineWrapping

open Delimited

variable {α : Type*}

/-- What was written so far, and the items of it that stand in the open line. -/
structure Writer (α : Type*) where
  text : List α
  column : ℕ

namespace Writer

def empty : Writer α := ⟨[], 0⟩

/-- Write an item; the line ends when it is full. -/
def put (terminator : α) (width : ℕ) (writer : Writer α) (item : α) : Writer α :=
  if writer.column + 1 = width then ⟨writer.text ++ [item] ++ [terminator], 0⟩
  else ⟨writer.text ++ [item], writer.column + 1⟩

/-- End the open line, if there is one. -/
def finish (terminator : α) (writer : Writer α) : List α :=
  if writer.column ≠ 0 then writer.text ++ [terminator] else writer.text

end Writer

/-- The items stand in full lines and in an open line that is not full. -/
def Wrapped (terminator : α) (width : ℕ) (items : List α) (writer : Writer α) : Prop :=
  ∃ lines openLine, writer.text = unlines terminator lines ++ openLine ∧
    lines.flatten ++ openLine = items ∧ (∀ line ∈ lines, line.length = width) ∧
    openLine.length = writer.column ∧ writer.column < width

section Wrapped

variable {terminator : α} {width : ℕ}

theorem unlines_concat (lines : List (List α)) (line : List α) :
    unlines terminator (lines ++ [line]) = unlines terminator lines ++ (line ++ [terminator]) := by
  simp [unlines]

theorem wrapped_empty (h : 0 < width) : Wrapped terminator width [] Writer.empty :=
  ⟨[], [], rfl, rfl, by simp, rfl, h⟩

theorem Wrapped.put {items : List α} {writer : Writer α}
    (h : Wrapped terminator width items writer) (item : α) :
    Wrapped terminator width (items ++ [item]) (writer.put terminator width item) := by
  obtain ⟨lines, openLine, htext, hitems, hlines, hopen, hcolumn⟩ := h
  unfold Writer.put
  split
  · rename_i hfull
    refine ⟨lines ++ [openLine ++ [item]], [], ?_, ?_, ?_, rfl, Nat.zero_lt_of_lt hcolumn⟩
    · rw [htext, unlines_concat]
      simp
    · rw [← hitems]
      simp
    · intro line hline
      rcases List.mem_append.mp hline with hearlier | hlast
      · exact hlines line hearlier
      · rw [List.mem_singleton.mp hlast, List.length_append, hopen]
        exact hfull
  · rename_i hroom
    refine ⟨lines, openLine ++ [item], ?_, ?_, hlines, ?_, ?_⟩
    · rw [htext, List.append_assoc]
    · rw [← hitems, List.append_assoc]
    · rw [List.length_append, hopen]
      rfl
    · change writer.column + 1 < width
      omega

theorem Wrapped.foldl_put {items : List α} {writer : Writer α}
    (h : Wrapped terminator width items writer) (more : List α) :
    Wrapped terminator width (items ++ more)
      (more.foldl (Writer.put terminator width) writer) := by
  induction more generalizing items writer with
  | nil => simpa using h
  | cons item more ih =>
    have hnext := ih (h.put item)
    rwa [List.append_assoc] at hnext

/-- The written text consists of full lines and a last one that is not empty. -/
theorem Wrapped.finish {items : List α} {writer : Writer α}
    (h : Wrapped terminator width items writer) :
    ∃ lines, writer.finish terminator = unlines terminator lines ∧ lines.flatten = items ∧
      (∀ line ∈ lines.dropLast, line.length = width) ∧
      ∀ line ∈ lines, 1 ≤ line.length ∧ line.length ≤ width := by
  obtain ⟨lines, openLine, htext, hitems, hlines, hopen, hcolumn⟩ := h
  have hfull : ∀ line ∈ lines, 1 ≤ line.length ∧ line.length ≤ width := by
    intro line hline
    rw [hlines line hline]
    exact ⟨by omega, le_rfl⟩
  unfold Writer.finish
  split
  · rename_i hopened
    refine ⟨lines ++ [openLine], ?_, ?_, ?_, ?_⟩
    · rw [htext, unlines_concat, List.append_assoc]
    · rw [← hitems]
      simp
    · rw [List.dropLast_concat]
      exact hlines
    · intro line hline
      rcases List.mem_append.mp hline with hearlier | hlast
      · exact hfull line hearlier
      · rw [List.mem_singleton.mp hlast, hopen]
        exact ⟨Nat.one_le_iff_ne_zero.mpr hopened, hcolumn.le⟩
  · rename_i hclosed
    obtain rfl := List.length_eq_zero_iff.mp (hopen.trans (not_not.mp hclosed))
    refine ⟨lines, ?_, ?_, ?_, hfull⟩
    · rw [htext, List.append_nil]
    · rw [← hitems, List.append_nil]
    · intro line hline
      exact hlines line (List.mem_of_mem_dropLast hline)

/-- A text of lines without the terminator is the lines, one after the other. -/
theorem filter_unlines [DecidableEq α] {lines : List (List α)}
    (h : ∀ line ∈ lines, terminator ∉ line) :
    (unlines terminator lines).filter (· ≠ terminator) = lines.flatten := by
  induction lines with
  | nil => rfl
  | cons line lines ih =>
    rw [List.forall_mem_cons] at h
    have hline : line.filter (· ≠ terminator) = line := by
      rw [List.filter_eq_self]
      intro item hitem
      exact decide_eq_true fun heq ↦ h.1 (heq ▸ hitem)
    rw [unlines_cons, List.filter_append, hline, List.filter_cons_of_neg (by simp), ih h.2,
      List.flatten_cons]

end Wrapped

end PqMqtt.LineWrapping
