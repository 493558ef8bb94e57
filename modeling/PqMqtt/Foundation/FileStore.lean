import Mathlib.Data.List.Nodup
import Mathlib.Logic.Function.Basic

/-!
# Writing files one after the other

Files are opened, written and closed one after the other, and the first one that cannot be opened
ends the program.  A file that was opened has its whole text.
-/

namespace PqMqtt.FileStore

/-- Files by path. -/
abbrev Files (κ ν : Type*) := κ → Option ν

variable {κ ν : Type*} [DecidableEq κ]

def create (files : Files κ ν) (path : κ) (text : ν) : Files κ ν :=
  Function.update files path (some text)

/-- Create files in their order; the error is what a program leaves that stops. -/
def createAll (opens : κ → Bool) : List (κ × ν) → Files κ ν → Except (Files κ ν) (Files κ ν)
  | [], files => .ok files
  | (path, text) :: rest, files =>
    if opens path then createAll opens rest (create files path text) else .error files

/-- The files after all were created. -/
def created (texts : List (κ × ν)) (files : Files κ ν) : Files κ ν :=
  texts.foldl (fun files file ↦ create files file.1 file.2) files

theorem createAll_append (opens : κ → Bool) (first second : List (κ × ν)) (files : Files κ ν) :
    createAll opens (first ++ second) files =
      createAll opens first files >>= createAll opens second := by
  induction first generalizing files with
  | nil => rfl
  | cons file first ih =>
    rw [List.cons_append, createAll, createAll]
    split
    · exact ih _
    · rfl

/-- All files are created when all can be opened. -/
theorem createAll_eq_ok_iff {opens : κ → Bool} {texts : List (κ × ν)} {files after : Files κ ν} :
    createAll opens texts files = .ok after ↔
      (∀ file ∈ texts, opens file.1 = true) ∧ after = created texts files := by
  induction texts generalizing files with
  | nil =>
    rw [createAll, Except.ok.injEq, eq_comm]
    exact (and_iff_right (List.forall_mem_nil _)).symm
  | cons file texts ih =>
    unfold createAll
    by_cases hopens : opens file.1 = true
    · rw [if_pos hopens, ih, List.forall_mem_cons, and_iff_right hopens]
      rfl
    · rw [if_neg hopens, List.forall_mem_cons]
      exact iff_of_false (fun h ↦ nomatch h) fun h ↦ hopens h.1.1

/-- Other files stay as they are. -/
theorem created_of_notMem {texts : List (κ × ν)} {files : Files κ ν} {path : κ}
    (h : path ∉ texts.map Prod.fst) : created texts files path = files path := by
  induction texts generalizing files with
  | nil => rfl
  | cons file texts ih =>
    rw [List.map_cons, List.mem_cons, not_or] at h
    calc created (file :: texts) files path
        = create files file.1 file.2 path := ih h.2
      _ = files path := Function.update_of_ne h.1 ..

/-- Under different paths every file has its text. -/
theorem created_of_mem {texts : List (κ × ν)} {files : Files κ ν}
    (hpaths : (texts.map Prod.fst).Nodup) {path : κ} {text : ν} (h : (path, text) ∈ texts) :
    created texts files path = some text := by
  induction texts generalizing files with
  | nil => exact absurd h List.not_mem_nil
  | cons file texts ih =>
    rw [List.map_cons, List.nodup_cons] at hpaths
    rcases List.mem_cons.mp h with rfl | hrest
    · calc created ((path, text) :: texts) files path
          = create files path text path := created_of_notMem hpaths.1
        _ = some text := Function.update_self ..
    · exact ih hpaths.2 hrest

/-- Wherever the program stops, a file is as it was or has its whole text. -/
theorem whole_of_createAll {opens : κ → Bool} {texts : List (κ × ν)} {files left : Files κ ν}
    (h : createAll opens texts files = .error left) (path : κ) :
    left path = files path ∨ ∃ text, (path, text) ∈ texts ∧ left path = some text := by
  induction texts generalizing files with
  | nil => exact nomatch h
  | cons file texts ih =>
    unfold createAll at h
    split at h
    · rcases ih h with hsame | ⟨text, htext, hleft⟩
      · rw [hsame]
        by_cases hpath : path = file.1
        · subst hpath
          exact Or.inr ⟨file.2, List.mem_cons_self, Function.update_self ..⟩
        · exact Or.inl (Function.update_of_ne hpath ..)
      · exact Or.inr ⟨text, List.mem_cons_of_mem _ htext, hleft⟩
    · exact Or.inl (congrFun (Except.error.inj h).symm path)

end PqMqtt.FileStore
