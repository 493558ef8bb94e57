import PqMqtt.Foundation.Base64
import PqMqtt.Foundation.Delimited

/-!
# Blocks of base 64

A block has a label in its first and last line, and base 64 between them.  The reader skips the
lines before the first line of the block and those behind its last one.
-/

namespace PqMqtt.Pem

open Delimited

/-- The first or the last line of a block. -/
def boundary (word label : List Char) : List Char :=
  List.replicate 5 '-' ++ word ++ ' ' :: label ++ List.replicate 5 '-'

/-- The octets of the first block with a label. -/
def read (label text : List Char) : Option (List UInt8) :=
  let block := ((text.splitOn '\n').dropWhile (· ≠ boundary "BEGIN".toList label)).tail
  let last := boundary "END".toList label
  if block.contains last then
    Base64.decode Base64.standard (block.takeWhile (· ≠ last)).flatten
  else none

theorem notMem_boundary {c : Char} {word label : List Char} (hdash : c ≠ '-') (hblank : c ≠ ' ')
    (hword : c ∉ word) (hlabel : c ∉ label) : c ∉ boundary word label := by
  have hdashes : c ∉ List.replicate 5 '-' := fun h ↦ hdash (List.mem_replicate.mp h).2
  simp only [boundary, List.mem_append, List.mem_cons, not_or]
  exact ⟨⟨⟨hdashes, hword⟩, hblank, hlabel⟩, hdashes⟩

theorem dash_mem_boundary (word label : List Char) : '-' ∈ boundary word label :=
  List.mem_append_right _ (List.mem_replicate.mpr ⟨by decide, rfl⟩)

/-- Terminated lines are separated lines with an empty one at the end. -/
theorem splitOn_unlines {lines : List (List Char)} (h : ∀ line ∈ lines, '\n' ∉ line) :
    (unlines '\n' lines).splitOn '\n' = lines ++ [[]] := by
  have hlines : ∀ line ∈ lines ++ [[]], '\n' ∉ line := by
    intro line hline
    rcases List.mem_append.mp hline with hearlier | hlast
    · exact h line hearlier
    · rw [List.mem_singleton.mp hlast]
      exact List.not_mem_nil
  have hseparated : unlines '\n' lines = ['\n'].intercalate (lines ++ [[]]) := by
    clear h hlines
    induction lines with
    | nil => rfl
    | cons line lines ih =>
      rw [unlines_cons, List.cons_append, intercalate_cons '\n' line (by simp), ih]
  rw [hseparated]
  exact List.splitOn_intercalate '\n' hlines (by simp)

/-- A block that is written in lines is read back, whatever the length of its lines. -/
theorem read_block {label : List Char} (hlabel : '\n' ∉ label) {lines : List (List Char)}
    (hbreaks : ∀ line ∈ lines, '\n' ∉ line) (hdashes : ∀ line ∈ lines, '-' ∉ line) :
    read label (unlines '\n' (boundary "BEGIN".toList label :: lines ++
        [boundary "END".toList label])) =
      Base64.decode Base64.standard lines.flatten := by
  have hends : ∀ word, '\n' ∉ word → '\n' ∉ boundary word label :=
    fun word hword ↦ notMem_boundary (by decide) (by decide) hword hlabel
  have hall : ∀ line ∈ boundary "BEGIN".toList label :: lines ++ [boundary "END".toList label],
      '\n' ∉ line := by
    intro line hline
    rcases List.mem_append.mp hline with hearlier | hlast
    · rcases List.mem_cons.mp hearlier with rfl | hbody
      · exact hends _ (by decide)
      · exact hbreaks line hbody
    · rw [List.mem_singleton.mp hlast]
      exact hends _ (by decide)
  have hbody : ∀ line ∈ lines, decide (line ≠ boundary "END".toList label) = true := by
    intro line hline
    apply decide_eq_true
    rintro rfl
    exact hdashes _ hline (dash_mem_boundary _ _)
  unfold read
  rw [splitOn_unlines hall]
  generalize boundary "BEGIN".toList label = first
  generalize boundary "END".toList label = last at hbody
  simp only [List.cons_append, List.append_assoc]
  rw [List.dropWhile_cons_of_neg (by simp), List.tail_cons, if_pos (by simp),
    List.takeWhile_append_of_pos hbody, List.takeWhile_cons_of_neg (by simp), List.append_nil]

end PqMqtt.Pem
