import Mathlib.Data.List.Infix
import Mathlib.Data.List.TakeDrop

/-!
# Cutting delimited text

A text of terminated lines that is cut anywhere is the text of its first lines followed by a
piece of the next line, without its terminator.  A line of separated fields that is cut anywhere
is the line of its first fields and a piece of the next one.
-/

namespace PqMqtt.Delimited

variable {α : Type*}

/-! ## Terminated lines -/

/-- Every line followed by its terminator. -/
def unlines (terminator : α) (lines : List (List α)) : List α :=
  lines.flatMap (· ++ [terminator])

@[simp]
theorem unlines_nil (terminator : α) : unlines terminator [] = [] := rfl

@[simp]
theorem unlines_cons (terminator : α) (line : List α) (lines : List (List α)) :
    unlines terminator (line :: lines) = line ++ terminator :: unlines terminator lines := by
  simp [unlines]

/-- Line `index` is contained in the first `size` items together with its terminator. -/
def Complete (terminator : α) (lines : List (List α)) (size index : ℕ) : Prop :=
  index < lines.length ∧ (unlines terminator (lines.take (index + 1))).length ≤ size

/-- A cut keeps the first lines and a piece of the next one; the lines it keeps are the complete
ones. -/
theorem take_unlines (terminator : α) (lines : List (List α)) (size : ℕ) :
    ∃ (count : ℕ) (rest : List α),
      (unlines terminator lines).take size = unlines terminator (lines.take count) ++ rest ∧
      (rest = [] ∨ ∃ line, lines[count]? = some line ∧ rest <+: line) ∧
      ∀ index, Complete terminator lines size index ↔ index < count := by
  induction lines generalizing size with
  | nil => exact ⟨0, [], by simp, Or.inl rfl, fun index ↦ by simp [Complete]⟩
  | cons line lines ih =>
    rcases Nat.lt_or_ge line.length size with hlonger | hshorter
    · -- The first line is complete, and the cut is made in the others.
      obtain ⟨count, rest, htake, hrest, hcomplete⟩ := ih (size - (line.length + 1))
      refine ⟨count + 1, rest, ?_, hrest, fun index ↦ ?_⟩
      · obtain ⟨extra, rfl⟩ := Nat.exists_eq_add_of_le hlonger
        have hextra : line.length.succ + extra - (line.length + 1) = extra := by omega
        rw [hextra] at htake
        rw [List.take_succ_cons, unlines_cons, unlines_cons, List.append_assoc, List.cons_append,
          ← htake, show line.length.succ + extra = line.length + (extra + 1) by omega,
          List.take_length_add_append, List.take_succ_cons]
      · cases index with
        | zero => simp [Complete, unlines]; omega
        | succ index =>
          have hindex := hcomplete index
          unfold Complete at hindex ⊢
          simp only [List.length_cons, List.take_succ_cons, unlines_cons, List.length_append]
          omega
    · refine ⟨0, line.take size, ?_, Or.inr ⟨line, rfl, List.take_prefix size line⟩, fun index ↦ ?_⟩
      · simp [List.take_append_of_le_length hshorter]
      · simp only [Complete, List.take_succ_cons, unlines_cons, List.length_append,
          List.length_cons]
        omega

/-! ## Separated fields -/

theorem intercalate_cons (separator : α) (field : List α) {fields : List (List α)}
    (h : fields ≠ []) :
    [separator].intercalate (field :: fields)
      = field ++ separator :: [separator].intercalate fields := by
  rw [List.intercalate_cons_of_ne_nil h, List.append_assoc, List.singleton_append]

theorem intercalate_append (separator : α) {first second : List (List α)} (hfirst : first ≠ [])
    (hsecond : second ≠ []) :
    [separator].intercalate (first ++ second)
      = [separator].intercalate first ++ separator :: [separator].intercalate second := by
  induction first with
  | nil => exact absurd rfl hfirst
  | cons field fields ih =>
    rcases eq_or_ne fields [] with hlast | hmore
    · subst hlast
      rw [List.singleton_append, intercalate_cons separator field hsecond,
        List.intercalate_singleton]
    · rw [List.cons_append, intercalate_cons separator field (by simp [hmore]), ih hmore,
        intercalate_cons separator field hmore, List.append_assoc, List.cons_append]

/-- The items of a line of separated fields are those of its fields, and the separator. -/
theorem mem_intercalate (separator : α) {fields : List (List α)} {item : α}
    (h : item ∈ [separator].intercalate fields) :
    (∃ field ∈ fields, item ∈ field) ∨ item = separator := by
  induction fields with
  | nil => simp at h
  | cons field fields ih =>
    rcases eq_or_ne fields [] with hlast | hmore
    · subst hlast
      rw [List.intercalate_singleton] at h
      exact Or.inl ⟨field, List.mem_cons_self .., h⟩
    · rw [intercalate_cons separator field hmore, List.mem_append, List.mem_cons] at h
      rcases h with hhere | hseparator | hthere
      · exact Or.inl ⟨field, List.mem_cons_self .., hhere⟩
      · exact Or.inr hseparator
      · exact (ih hthere).imp_left fun ⟨other, hother, hitem⟩ ↦
          ⟨other, List.mem_cons_of_mem field hother, hitem⟩

/-- A prefix of separated fields consists of its first fields and a piece of the next one. -/
theorem prefix_intercalate (separator : α) {fields : List (List α)} (hfields : fields ≠ [])
    {text : List α} (h : text <+: [separator].intercalate fields) :
    ∃ (count : ℕ) (piece field : List α), fields[count]? = some field ∧ piece <+: field ∧
      text = [separator].intercalate (fields.take count ++ [piece]) := by
  induction fields generalizing text with
  | nil => exact absurd rfl hfields
  | cons field fields ih =>
    rcases eq_or_ne fields [] with hlast | hmore
    · subst hlast
      rw [List.intercalate_singleton] at h
      exact ⟨0, text, field, rfl, h, by simp⟩
    rw [intercalate_cons separator field hmore] at h
    rcases List.prefix_or_prefix_of_prefix h (List.prefix_append field _) with hinside | hbeyond
    · exact ⟨0, text, field, rfl, hinside, by simp⟩
    · obtain ⟨beyond, rfl⟩ := hbeyond
      rw [List.prefix_append_right_inj] at h
      cases beyond with
      | nil => exact ⟨0, field, field, rfl, List.prefix_refl field, by simp⟩
      | cons head beyond =>
        obtain ⟨rfl, hbegins⟩ := List.cons_prefix_cons.mp h
        obtain ⟨count, piece, next, hnext, hpiece, hrest⟩ := ih hmore hbegins
        refine ⟨count + 1, piece, next, hnext, hpiece, ?_⟩
        rw [List.take_succ_cons, List.cons_append, intercalate_cons _ _ (by simp), hrest]

/-- The number of separators of a line is one less than its number of fields. -/
theorem count_intercalate [DecidableEq α] (separator : α) {fields : List (List α)}
    (h : ∀ field ∈ fields, separator ∉ field) :
    ([separator].intercalate fields).count separator = fields.length - 1 := by
  induction fields with
  | nil => rfl
  | cons field fields ih =>
    have hfield : field.count separator = 0 :=
      List.count_eq_zero.mpr (h field (List.mem_cons_self ..))
    rcases eq_or_ne fields [] with hlast | hmore
    · subst hlast
      simpa using hfield
    have hlength : 0 < fields.length := List.length_pos_iff.mpr hmore
    rw [intercalate_cons separator field hmore, List.count_append, List.count_cons_self, hfield,
      ih fun other hmem ↦ h other (List.mem_cons_of_mem field hmem), List.length_cons]
    omega

/-- The first separator of a text ends the same piece of it, wherever the text goes on. -/
theorem eq_of_prefix_separator {separator : α} {first second : List α}
    (hsecond : separator ∉ second) (h : first ++ [separator] <+: second ++ [separator]) :
    first = second := by
  rcases List.prefix_concat_iff.mp h with heq | hbegins
  · exact List.append_cancel_right heq
  · exact absurd (hbegins.subset (by simp)) hsecond

/-- A line starts with a name and a separator exactly when the name is its first field, and not
its last one. -/
theorem prefix_append_separator_iff (separator : α) {name : List α} (hname : separator ∉ name)
    {fields : List (List α)} (hfields : ∀ field ∈ fields, separator ∉ field) :
    name ++ [separator] <+: [separator].intercalate fields ↔
      fields.head? = some name ∧ 1 < fields.length := by
  cases fields with
  | nil => simp
  | cons field fields =>
    have hfield : separator ∉ field := hfields field (List.mem_cons_self ..)
    rcases eq_or_ne fields [] with hlast | hmore
    · subst hlast
      rw [List.intercalate_singleton]
      constructor
      · intro h
        exact absurd (h.subset (by simp)) hfield
      · intro h
        simp at h
    have hlength : 0 < fields.length := List.length_pos_iff.mpr hmore
    rw [intercalate_cons separator field hmore]
    constructor
    · intro h
      have hown : field ++ [separator]
          <+: field ++ separator :: [separator].intercalate fields :=
        ⟨[separator].intercalate fields, by simp⟩
      have hname : name = field := by
        rcases List.prefix_or_prefix_of_prefix h hown with hle | hle
        · exact eq_of_prefix_separator hfield hle
        · exact (eq_of_prefix_separator hname hle).symm
      exact ⟨congrArg some hname.symm, by simpa using hlength⟩
    · rintro ⟨hhead, -⟩
      obtain rfl : field = name := Option.some.inj hhead
      exact ⟨[separator].intercalate fields, by simp⟩

end PqMqtt.Delimited
