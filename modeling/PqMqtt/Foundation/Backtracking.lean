import Mathlib.Data.List.Basic
import PqMqtt.Foundation.Delimited

/-!
# Patterns that are matched by backtracking

A pattern is a sequence of parts.  A repetition tries the longest piece of text first; the matches
at a position come in the order in which a backtracking matcher finds them, and a search takes the
first match at the first position that has one.  A repetition that what follows it cannot start
inside of takes everything, and the matcher never goes back into it.
-/

namespace PqMqtt.Backtracking

variable {α : Type*}

/-- The start and the end of a line, one symbol, a repetition, and a repetition of at least one
symbol whose text is kept. -/
inductive PatternPart (α : Type*) where
  | lineStart
  | lineEnd
  | one (p : α → Bool)
  | many (p : α → Bool)
  | group (p : α → Bool)

/-- The texts of the groups, the last symbol before the rest of the text, and that rest. -/
structure Found (α : Type*) where
  groups : List (List α)
  before : Option α
  rest : List α

/-- A piece of text in front of the rest, with the last symbol before that. -/
abbrev Taken (α : Type*) := List α × Option α × List α

/-- The pieces that a repetition can take, the longest one first. -/
def splits (p : α → Bool) (before : Option α) : List α → List (Taken α)
  | [] => [([], before, [])]
  | c :: text =>
    if p c then
      (splits p (some c) text).map (fun taken ↦ (c :: taken.1, taken.2)) ++
        [([], before, c :: text)]
    else [([], before, c :: text)]

theorem splits_cons {p : α → Bool} {before : Option α} {c : α} {text : List α} :
    splits p before (c :: text) =
      if p c then (splits p (some c) text).map (fun taken ↦ (c :: taken.1, taken.2)) ++
        [([], before, c :: text)]
      else [([], before, c :: text)] :=
  rfl

section Matcher

variable [DecidableEq α] (newline : α)

/-- The matches at a position, in the order in which they are found. -/
def matchesAt : List (PatternPart α) → Option α → List α → List (Found α)
  | [], before, text => [⟨[], before, text⟩]
  | .lineStart :: parts, before, text =>
    if before = none ∨ before = some newline then matchesAt parts before text else []
  | .lineEnd :: parts, before, text =>
    if text = [] ∨ text.head? = some newline then matchesAt parts before text else []
  | .one _ :: _, _, [] => []
  | .one p :: parts, _, c :: text => if p c then matchesAt parts (some c) text else []
  | .many p :: parts, before, text =>
    (splits p before text).flatMap fun taken ↦ matchesAt parts taken.2.1 taken.2.2
  | .group p :: parts, before, text =>
    (splits p before text).flatMap fun taken ↦
      if taken.1 = [] then []
      else (matchesAt parts taken.2.1 taken.2.2).map fun found ↦
        { found with groups := taken.1 :: found.groups }

/-- The first match, with the text before it. -/
def search (parts : List (PatternPart α)) : Option α → List α → Option (List α × Found α)
  | before, [] => (matchesAt newline parts before []).head?.map fun found ↦ ([], found)
  | before, c :: text =>
    match (matchesAt newline parts before (c :: text)).head? with
    | some found => some ([], found)
    | none => (search parts (some c) text).map fun result ↦ (c :: result.1, result.2)

/-- The pieces of a text between at most `n` matches. -/
def split (parts : List (PatternPart α)) : ℕ → Option α → List α → List (List α)
  | 0, _, text => [text]
  | n + 1, before, text =>
    match search newline parts before text with
    | none => [text]
    | some (skipped, found) => skipped :: split parts n found.before found.rest

variable {newline} {parts : List (PatternPart α)} {before : Option α} {text : List α}

theorem matchesAt_cons_lineStart :
    matchesAt newline (.lineStart :: parts) before text =
      if before = none ∨ before = some newline then matchesAt newline parts before text else [] :=
  rfl

theorem matchesAt_cons_lineEnd :
    matchesAt newline (.lineEnd :: parts) before text =
      if text = [] ∨ text.head? = some newline then matchesAt newline parts before text else [] :=
  rfl

theorem matchesAt_cons_one {p : α → Bool} {c : α} :
    matchesAt newline (.one p :: parts) before (c :: text) =
      if p c then matchesAt newline parts (some c) text else [] :=
  rfl

theorem matchesAt_cons_many {p : α → Bool} :
    matchesAt newline (.many p :: parts) before text =
      (splits p before text).flatMap fun taken ↦ matchesAt newline parts taken.2.1 taken.2.2 :=
  rfl

theorem matchesAt_cons_group {p : α → Bool} :
    matchesAt newline (.group p :: parts) before text =
      (splits p before text).flatMap fun taken ↦
        if taken.1 = [] then []
        else (matchesAt newline parts taken.2.1 taken.2.2).map fun found ↦
          { found with groups := taken.1 :: found.groups } :=
  rfl

theorem search_nil :
    search newline parts before [] =
      (matchesAt newline parts before []).head?.map fun found ↦ ([], found) :=
  rfl

theorem search_cons {c : α} :
    search newline parts before (c :: text) =
      match (matchesAt newline parts before (c :: text)).head? with
      | some found => some ([], found)
      | none =>
        (search newline parts (some c) text).map fun result ↦ (c :: result.1, result.2) :=
  rfl

theorem split_succ {n : ℕ} :
    split newline parts (n + 1) before text =
      match search newline parts before text with
      | none => [text]
      | some (skipped, found) => skipped :: split newline parts n found.before found.rest :=
  rfl

/-- A text that is matched by itself. -/
def literal (word : List α) : List (PatternPart α) := word.map fun c ↦ .one (· = c)

end Matcher

/-! ## Repetitions -/

section Splits

variable {p : α → Bool}

/-- The symbol before a position is the last one of the text before it. -/
def lastOr (before : Option α) (text : List α) : Option α := text.getLast?.or before

theorem lastOr_cons (before : Option α) (c : α) (text : List α) :
    lastOr before (c :: text) = lastOr (some c) text := by
  unfold lastOr
  rw [List.getLast?_cons]
  cases text.getLast? <;> rfl

theorem splits_of_neg {before : Option α} {text : List α} (h : ∀ c ∈ text.head?, p c = false) :
    splits p before text = [([], before, text)] := by
  cases text with
  | nil => rfl
  | cons c text => exact if_neg (Bool.eq_false_iff.mp (h c rfl))

theorem mem_splits_self (before : Option α) (text : List α) :
    ([], before, text) ∈ splits p before text := by
  cases text with
  | nil => exact List.mem_singleton_self _
  | cons c text =>
    rw [splits_cons]
    split_ifs
    · exact List.mem_append_right _ (List.mem_singleton_self _)
    · exact List.mem_singleton_self _

/-- What follows cannot start at a symbol of the repetition. -/
def Blocked [DecidableEq α] (newline : α) (p : α → Bool) (parts : List (PatternPart α)) : Prop :=
  ∀ before c text, p c = true → matchesAt newline parts before (c :: text) = []

end Splits

section Rules

variable {p : α → Bool}

theorem flatMap_splits_of_blocked {β : Type*} {next : Taken α → List β} (run : List α)
    (hrun : ∀ c ∈ run, p c = true) (rest : List α) (hrest : ∀ c ∈ rest.head?, p c = false)
    (hnext : ∀ taken before c text, p c = true → next (taken, before, c :: text) = [])
    (before : Option α) :
    (splits p before (run ++ rest)).flatMap next = next (run, lastOr before run, rest) := by
  induction run generalizing before next with
  | nil => rw [List.nil_append, splits_of_neg hrest, List.flatMap_singleton]; rfl
  | cons c run ih =>
    rw [List.forall_mem_cons] at hrun
    rw [List.cons_append, splits_cons, if_pos hrun.1, List.flatMap_append, List.flatMap_map,
      List.flatMap_singleton, hnext [] before c (run ++ rest) hrun.1, List.append_nil, lastOr_cons]
    exact ih hrun.2 (fun taken before d text hd ↦ hnext (c :: taken) before d text hd) (some c)

variable [DecidableEq α] {newline : α} {parts : List (PatternPart α)}

/-- A repetition that is blocked takes everything. -/
theorem matchesAt_many (hblocked : Blocked newline p parts) {run rest : List α}
    (hrun : ∀ c ∈ run, p c = true) (hrest : ∀ c ∈ rest.head?, p c = false) (before : Option α) :
    matchesAt newline (.many p :: parts) before (run ++ rest) =
      matchesAt newline parts (lastOr before run) rest := by
  rw [matchesAt_cons_many]
  exact flatMap_splits_of_blocked run hrun rest hrest
    (fun _ before c text hc ↦ hblocked before c text hc) before

/-- A repetition at the end of a pattern takes everything first. -/
theorem head?_matchesAt_many {run rest : List α} (hrun : ∀ c ∈ run, p c = true)
    (hrest : ∀ c ∈ rest.head?, p c = false) (before : Option α) :
    (matchesAt newline [.many p] before (run ++ rest)).head? =
      some ⟨[], lastOr before run, rest⟩ := by
  have hhead : (splits p before (run ++ rest)).head? = some (run, lastOr before run, rest) := by
    induction run generalizing before with
    | nil => rw [List.nil_append, splits_of_neg hrest]; rfl
    | cons c run ih =>
      rw [List.forall_mem_cons] at hrun
      rw [List.cons_append, splits_cons, if_pos hrun.1, List.head?_append, List.head?_map,
        ih hrun.2, lastOr_cons]
      rfl
  obtain ⟨others, hsplits⟩ := List.head?_eq_some_iff.mp hhead
  rw [matchesAt_cons_many, hsplits, List.flatMap_cons]
  rfl

theorem matchesAt_group (hblocked : Blocked newline p parts) {run rest : List α} (hne : run ≠ [])
    (hrun : ∀ c ∈ run, p c = true) (hrest : ∀ c ∈ rest.head?, p c = false) (before : Option α) :
    matchesAt newline (.group p :: parts) before (run ++ rest) =
      (matchesAt newline parts (lastOr before run) rest).map fun found ↦
        { found with groups := run :: found.groups } := by
  rw [matchesAt_cons_group, flatMap_splits_of_blocked run hrun rest hrest, if_neg hne]
  intro taken before c text hc
  rw [hblocked before c text hc]
  split_ifs <;> rfl

theorem blocked_one {q : α → Bool} (h : ∀ c, p c = true → q c = false) :
    Blocked newline p (.one q :: parts) := by
  intro before c text hc
  rw [matchesAt_cons_one, h c hc]
  exact if_neg Bool.false_ne_true

theorem blocked_group {q : α → Bool} (h : ∀ c, p c = true → q c = false) :
    Blocked newline p (.group q :: parts) := by
  intro before c text hc
  rw [matchesAt_cons_group, splits_of_neg (by simpa using h c hc), List.flatMap_singleton]
  exact if_pos rfl

theorem blocked_literal {word : List α} (hne : word ≠ []) (h : ∀ c ∈ word, p c = false) :
    Blocked newline p (literal word ++ parts) := by
  cases word with
  | nil => exact absurd rfl hne
  | cons first word =>
    apply blocked_one
    intro c hc
    apply decide_eq_false
    rintro rfl
    exact Bool.false_ne_true ((h c List.mem_cons_self).symm.trans hc)

/-- White space up to the end of a line cannot start at any other symbol. -/
theorem blocked_many_lineEnd {s : α → Bool} (hs : ∀ c, p c = true → s c = false)
    (hnewline : p newline = false) : Blocked newline p [.many s, .lineEnd] := by
  intro before c text hc
  have hother : c ≠ newline := by
    rintro rfl
    exact Bool.false_ne_true (hnewline.symm.trans hc)
  rw [matchesAt_cons_many, splits_of_neg (by simpa using hs c hc), List.flatMap_singleton,
    matchesAt_cons_lineEnd, if_neg (by simpa using hother)]

/-- White space at the end of a line does not keep the end from being found. -/
theorem head?_matchesAt_lineEnd {s : α → Bool} {text : List α}
    (h : text = [] ∨ text.head? = some newline) (before : Option α) :
    ∃ found, (matchesAt newline [.many s, .lineEnd] before text).head? = some found ∧
      found.groups = [] := by
  have hends : ⟨[], before, text⟩ ∈ matchesAt newline [.many s, .lineEnd] before text := by
    rw [matchesAt_cons_many, List.mem_flatMap]
    refine ⟨_, mem_splits_self before text, ?_⟩
    rw [matchesAt_cons_lineEnd, if_pos h]
    exact List.mem_singleton_self _
  obtain ⟨found, others, hfound⟩ := List.exists_cons_of_ne_nil (List.ne_nil_of_mem hends)
  have hmem : found ∈ matchesAt newline [.many s, .lineEnd] before text := by
    rw [hfound]
    exact List.mem_cons_self
  refine ⟨found, by rw [hfound, List.head?_cons], ?_⟩
  rw [matchesAt_cons_many, List.mem_flatMap] at hmem
  obtain ⟨taken, -, hend⟩ := hmem
  rw [matchesAt_cons_lineEnd] at hend
  split_ifs at hend
  · rw [List.mem_singleton.mp hend]
  · exact absurd hend List.not_mem_nil

theorem matchesAt_literal (word text : List α) (before : Option α) :
    matchesAt newline (literal word ++ parts) before (word ++ text) =
      matchesAt newline parts (lastOr before word) text := by
  induction word generalizing before with
  | nil => rfl
  | cons c word ih =>
    rw [lastOr_cons, ← ih]
    exact if_pos (decide_eq_true rfl)

theorem matchesAt_literal_eq_nil {word text : List α} (h : ¬word <+: text) (before : Option α) :
    matchesAt newline (literal word ++ parts) before text = [] := by
  induction word generalizing before text with
  | nil => exact absurd (List.nil_prefix) h
  | cons c word ih =>
    cases text with
    | nil => rfl
    | cons d text =>
      change (if decide (d = c) = true then matchesAt newline (literal word ++ parts) (some d) text
        else []) = []
      split_ifs with hd
      · apply ih
        intro hprefix
        exact h (List.cons_prefix_cons.mpr ⟨(of_decide_eq_true hd).symm, hprefix⟩)
      · rfl

/-- A name, a blank and the sign of an assignment. -/
theorem matchesAt_assignment {s : α → Bool} {equals blank : α} (hblank : s blank = true)
    (hequals : s equals = false) (name text : List α) (before : Option α) :
    matchesAt newline (literal name ++ .many s :: .one (· = equals) :: parts) before
      (name ++ blank :: equals :: text) = matchesAt newline parts (some equals) text := by
  have hsign : Blocked newline s (.one (· = equals) :: parts) := by
    apply blocked_one
    intro c hc
    apply decide_eq_false
    rintro rfl
    exact Bool.false_ne_true (hequals.symm.trans hc)
  have hmany : matchesAt newline (.many s :: .one (· = equals) :: parts) (lastOr before name)
      ([blank] ++ equals :: text) =
        matchesAt newline (.one (· = equals) :: parts) (some blank) (equals :: text) :=
    matchesAt_many hsign (List.forall_mem_singleton.mpr hblank) (by simpa using hequals) _
  rw [matchesAt_literal]
  refine hmany.trans ?_
  rw [matchesAt_cons_one]
  exact if_pos (decide_eq_true rfl)

/-- A word before an assignment matches no other name. -/
theorem matchesAt_name_eq_nil {s : α → Bool} {equals : α} {word name rest : List α}
    (hword : ∀ c ∈ word, s c = false) (hname : ∀ c ∈ name, s c = false ∧ c ≠ equals)
    (hrest : ∃ c ∈ rest.head?, s c = true) (hne : word ≠ name) (before : Option α) :
    matchesAt newline (literal word ++ .many s :: .one (· = equals) :: parts) before (name ++ rest)
      = [] := by
  obtain ⟨blank, hhead, hblank⟩ := hrest
  by_cases hprefix : word <+: name ++ rest
  · have hshort : word <+: name := by
      obtain ⟨tail, heq⟩ := hprefix
      rcases List.append_eq_append_iff.mp heq with ⟨more, rfl, -⟩ | ⟨more, hword', hrest'⟩
      · exact ⟨more, rfl⟩
      · cases more with
        | nil => exact ⟨[], by rw [hword', List.append_nil, List.append_nil]⟩
        | cons c more =>
          rw [hrest'] at hhead
          obtain rfl : c = blank := Option.some.inj hhead
          have hc := hword c (hword' ▸ List.mem_append_right _ List.mem_cons_self)
          exact absurd (hc.symm.trans hblank) Bool.false_ne_true
    obtain ⟨more, rfl⟩ := hshort
    cases more with
    | nil => exact absurd (List.append_nil word).symm hne
    | cons c more =>
      obtain ⟨hspace, hequals⟩ := hname c (List.mem_append_right _ List.mem_cons_self)
      rw [List.append_assoc, matchesAt_literal, matchesAt_cons_many, List.cons_append,
        splits_of_neg (by simpa using hspace), List.flatMap_singleton]
      exact if_neg (by simpa using hequals)
  · exact matchesAt_literal_eq_nil hprefix before

end Rules

/-! ## Searches line by line -/

section Lines

open Delimited

variable [DecidableEq α] {newline : α} {parts : List (PatternPart α)} {before : Option α}
  {text : List α}

theorem search_of_found {found : Found α}
    (h : (matchesAt newline parts before text).head? = some found) :
    search newline parts before text = some ([], found) := by
  cases text with
  | nil => rw [search_nil, h, Option.map_some]
  | cons c text => rw [search_cons, h]

theorem search_cons_of_eq_nil {c : α} (h : matchesAt newline parts before (c :: text) = []) :
    search newline parts before (c :: text) =
      (search newline parts (some c) text).map fun result ↦ (c :: result.1, result.2) := by
  rw [search_cons, h]
  rfl

/-- No match starts at the beginning of the line. -/
def Inert (newline : α) (parts : List (PatternPart α)) (line : List α) : Prop :=
  newline ∉ line ∧ ∀ before text, matchesAt newline parts before (line ++ newline :: text) = []

/-- A pattern for the start of a line finds nothing inside of an inert one. -/
theorem search_line {line : List α} (hline : Inert newline (.lineStart :: parts) line) :
    search newline (.lineStart :: parts) before (line ++ newline :: text) =
      (search newline (.lineStart :: parts) (some newline) text).map fun result ↦
        (line ++ newline :: result.1, result.2) := by
  have hinside (line : List α) (hnewline : newline ∉ line) (before : Option α)
      (hnone : matchesAt newline (.lineStart :: parts) before (line ++ newline :: text) = []) :
      search newline (.lineStart :: parts) before (line ++ newline :: text) =
        (search newline (.lineStart :: parts) (some newline) text).map fun result ↦
          (line ++ newline :: result.1, result.2) := by
    induction line generalizing before with
    | nil => exact search_cons_of_eq_nil hnone
    | cons c line ih =>
      rw [List.mem_cons, not_or] at hnewline
      have hlater :
          matchesAt newline (.lineStart :: parts) (some c) (line ++ newline :: text) = [] :=
        if_neg (by simpa [eq_comm] using hnewline.1)
      rw [List.cons_append] at hnone ⊢
      rw [search_cons_of_eq_nil hnone, ih hnewline.2 (some c) hlater, Option.map_map]
      rfl
  exact hinside line hline.1 before (hline.2 before text)

theorem search_unlines {lines : List (List α)}
    (hlines : ∀ line ∈ lines, Inert newline (.lineStart :: parts) line) :
    search newline (.lineStart :: parts) before (unlines newline lines ++ text) =
      (search newline (.lineStart :: parts) (if lines = [] then before else some newline) text).map
        fun result ↦ (unlines newline lines ++ result.1, result.2) := by
  induction lines generalizing before with
  | nil => exact Option.map_id.symm ▸ rfl
  | cons line lines ih =>
    rw [List.forall_mem_cons] at hlines
    rw [unlines_cons, List.append_assoc, List.cons_append, search_line hlines.1, ih hlines.2,
      Option.map_map, if_neg (List.cons_ne_nil _ _), ite_self]
    simp [Function.comp_def]

end Lines

end PqMqtt.Backtracking
