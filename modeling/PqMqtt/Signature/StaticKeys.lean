import PqMqtt.Analysis.SerialLog
import PqMqtt.Foundation.Backtracking
import PqMqtt.Foundation.CArray

/-!
# Static keys

The images embed their keys as arrays of C.  `kat_to_header.py` and `snova_kat_verify_to_header.py`
take them from a file of known answers, `der_to_header.py` from a DER file, and `gen_hawk512_key.c`
prints those that it generates.
-/

namespace PqMqtt.Signature

open Analysis Backtracking CArray Delimited

/-! ## kat_to_header.py -/

/-- The class `[0-9A-Fa-f]`. -/
def isHexDigit (c : Char) : Bool := (hexValue c).isSome

/-- The pattern `(?m)^name\s*=\s*([0-9A-Fa-f]+)\s*$`. -/
def fieldPattern (name : Text) : List (PatternPart Char) :=
  .lineStart :: (literal name ++ [.many isSpace, .one (· = '='), .many isSpace, .group isHexDigit,
    .many isSpace, .lineEnd])

/-- The pattern `(?m)^\s*count\s*=\s*`. -/
def countPattern : List (PatternPart Char) :=
  .lineStart :: .many isSpace :: (literal "count".toList ++
    [.many isSpace, .one (· = '='), .many isSpace])

def field (text name : Text) : Except PyError (List UInt8) :=
  match search '\n' (fieldPattern name) none text with
  | none => .error .systemExit
  | some (_, found) =>
    match fromHex (found.groups.headD []) with
    | none => .error .valueError
    | some octets => .ok octets

/-- What stands before the size, `static const uint8_t name[`. -/
def declaration (name : Text) : Text := "static const uint8_t ".toList ++ name ++ ['[']

def indent : Text := List.replicate 4 ' '

/-- `c_array` -/
def cArray (name : Text) (data : List UInt8) : Text :=
  declaration name ++ formatU data.length ++ "] = \x7b\n".toList ++
    [',', '\n'].intercalate ((chunks 12 data.length data).map (rowText indent)) ++
    "\n\x7d;\n".toList

/-- The loop over the records: the rest of the first one with the number. -/
def selectFrom (count : ℤ) : List Text → Except PyError Text
  | [] => .error .systemExit
  | record :: records => do
    let number ← pyInt (strip (record.takeWhile (· ≠ '\n')))
    if number = count then .ok (record.dropWhile (· ≠ '\n')).tail
    else selectFrom count records

/-- `selected_record` -/
def selectedRecord (text : Text) (count : ℤ) : Except PyError Text :=
  selectFrom count (split '\n' countPattern text.length none text).tail

/-- The names that the header mentions: the guard, which `re.sub` makes of the name of the output,
and the name of the file of known answers. -/
structure HeaderNames where
  guard : Text
  rsp : Text
  guard_line : '\n' ∉ guard
  rsp_line : '\n' ∉ rsp

/-- `main` of `kat_to_header.py`, up to the text that it writes. -/
def katToHeader (names : HeaderNames) (text : Text) (count : ℤ) : Except PyError Text := do
  let selected ← selectedRecord text count
  let pk ← field selected "pk".toList
  let sk ← field selected "sk".toList
  .ok ("#ifndef ".toList ++ names.guard ++ "\n#define ".toList ++ names.guard ++
    "\n\n#include <stdint.h>\n\n/* Imported from ".toList ++ names.rsp ++ ", count=".toList ++
    formatD count ++ ". */\n".toList ++ cArray "STATIC_PK".toList pk ++ ['\n'] ++
    cArray "STATIC_SK".toList sk ++ "\n#endif /* ".toList ++ names.guard ++ " */\n".toList)

/-- `main` of `snova_kat_verify_to_header.py`, up to the text that it writes. -/
def snovaKatVerifyToHeader (names : HeaderNames) (baseHeader text : Text) (count : ℤ) :
    Except PyError Text := do
  let record ← selectedRecord text count
  let msg ← field record "msg".toList
  let sm ← field record "sm".toList
  if sm.length < msg.length ∨ sm.drop (sm.length - msg.length) ≠ msg then .error .systemExit
  else
    let sig := sm.take (sm.length - msg.length)
    .ok ("#ifndef ".toList ++ names.guard ++ "\n#define ".toList ++ names.guard ++
      "\n\n#include <stdint.h>\n\n#include ".toList ++ [quotechar] ++ baseHeader ++ [quotechar] ++
      "\n\n/* Imported from ".toList ++ names.rsp ++ ", count=".toList ++ formatD count ++
      ". */\n".toList ++ cArray "STATIC_MSG".toList msg ++ ['\n'] ++
      cArray "STATIC_SIG".toList sig ++ "\n#endif /* ".toList ++ names.guard ++ " */\n".toList)

/-! ## Files of known answers -/

/-- A comment before the first record. -/
structure KatComment where
  text : Text
  head : text.head? = some '#'
  line : '\n' ∉ text

/-- The name is a word, but not the one that starts a record, and the value ends with the line. -/
structure KatField.Fits (name value : Text) : Prop where
  ne_nil : name ≠ []
  space : ∀ c ∈ name, isSpace c = false
  equals : '=' ∉ name
  ne_count : name ≠ "count".toList
  value_line : '\n' ∉ value

theorem KatField.Fits.ne_equals {name value : Text} (h : KatField.Fits name value) {c : Char}
    (hc : c ∈ name) : c ≠ '=' := by
  rintro rfl
  exact h.equals hc

/-- A line `name = value` of a record. -/
structure KatField where
  name : Text
  value : Text
  fits : KatField.Fits name value

def KatField.line (field : KatField) : Text := field.name ++ ' ' :: '=' :: ' ' :: field.value

structure KatRecord where
  count : ℕ
  fields : List KatField
  count_lt : count < 2 ^ 31

def KatRecord.lines (record : KatRecord) : List Text :=
  ("count = ".toList ++ formatU record.count) :: record.fields.map KatField.line ++ [[]]

/-- The octets of the field with a name, if its value is such digits. -/
def KatRecord.octets (record : KatRecord) (name : Text) : Option (List UInt8) := do
  let found ← record.fields.find? (·.name = name)
  if found.value = [] then none else fromHex found.value

/-- The file: comments and a blank line, and the records, each with a blank line after it. -/
def katText (comments : List KatComment) (records : List KatRecord) : Text :=
  unlines '\n' (comments.map KatComment.text ++ [] :: records.flatMap KatRecord.lines)

/-! ### Records -/

/-- What a count stands in front of. -/
def countSign : List (PatternPart Char) := [.many isSpace, .one (· = '='), .many isSpace]

/-- A line starts after this symbol. -/
def AtLineStart (before : Option Char) : Prop := before = none ∨ before = some '\n'

theorem atLineStart_ite {before : Option Char} {lines : List Text}
    (h : lines = [] → AtLineStart before) :
    AtLineStart (if lines = [] then before else some '\n') := by
  split_ifs with hlines
  · exact h hlines
  · exact Or.inr rfl

theorem isSpace_newline : isSpace '\n' = true := by decide

theorem isSpace_blank : isSpace ' ' = true := by decide

theorem isSpace_equals : isSpace '=' = false := by decide

/-- The characters of a text are tested one by one. -/
theorem isSpace_of_all {text : Text} (h : (text.all fun c ↦ !isSpace c) = true) :
    ∀ c ∈ text, isSpace c = false :=
  fun c hc ↦ (Bool.not_eq_true' _).mp (List.all_eq_true.mp h c hc)

theorem isSpace_count : ∀ c ∈ "count".toList, isSpace c = false := isSpace_of_all rfl

theorem isSpace_formatU (n : ℕ) : ∀ c ∈ formatU n, isSpace c = false := by
  intro c hc
  exact (isDigit_plain (formatU_isDigit n c hc)).isSpace_eq_false

theorem found_count {before : Option Char} (hbefore : AtLineStart before)
    {rest : Text} (hrest : ∀ c ∈ rest.head?, isSpace c = false) :
    (matchesAt '\n' countPattern before ('\n' :: ("count = ".toList ++ rest))).head? =
      some ⟨[], some ' ', rest⟩ := by
  -- the first repetition takes the blank line
  have hblank : matchesAt '\n' (.many isSpace :: (literal "count".toList ++ countSign)) before
      (['\n'] ++ ("count".toList ++ ' ' :: '=' :: ([' '] ++ rest))) =
        matchesAt '\n' (literal "count".toList ++ countSign) (some '\n')
          ("count".toList ++ ' ' :: '=' :: ([' '] ++ rest)) :=
    matchesAt_many (blocked_literal (by decide) isSpace_count)
      (List.forall_mem_singleton.mpr isSpace_newline) (by simp; decide) before
  have hsign : matchesAt '\n' (literal "count".toList ++ countSign) (some '\n')
      ("count".toList ++ ' ' :: '=' :: ([' '] ++ rest)) =
        matchesAt '\n' [.many isSpace] (some '=') ([' '] ++ rest) :=
    matchesAt_assignment isSpace_blank isSpace_equals _ _ _
  have hend : (matchesAt '\n' [.many isSpace] (some '=') ([' '] ++ rest)).head? =
      some ⟨[], some ' ', rest⟩ :=
    head?_matchesAt_many (List.forall_mem_singleton.mpr isSpace_blank) hrest _
  rw [← hend, ← hsign, ← hblank]
  exact congrArg List.head? (if_pos hbefore)

theorem inert_count {line : Text} (hline : '\n' ∉ line)
    (hhead : ∃ c ∈ line.head?, isSpace c = false)
    (hword : ∀ before text,
      matchesAt '\n' (literal "count".toList ++ countSign) before (line ++ '\n' :: text) = []) :
    Inert '\n' countPattern line := by
  refine ⟨hline, fun before text ↦ ?_⟩
  obtain ⟨c, hc, hspace⟩ := hhead
  obtain ⟨rest, rfl⟩ := List.head?_eq_some_iff.mp hc
  have hnone : matchesAt '\n' (.many isSpace :: (literal "count".toList ++ countSign)) before
      (c :: (rest ++ '\n' :: text)) = [] := by
    rw [matchesAt_cons_many, splits_of_neg (by simpa using hspace), List.flatMap_singleton]
    exact hword before text
  rw [countPattern, matchesAt_cons_lineStart]
  split_ifs
  · exact hnone
  · rfl

theorem inert_comment (comment : KatComment) : Inert '\n' countPattern comment.text := by
  refine inert_count comment.line ⟨'#', comment.head, by decide⟩ fun before text ↦ ?_
  apply matchesAt_literal_eq_nil
  obtain ⟨rest, hrest⟩ := List.head?_eq_some_iff.mp comment.head
  rw [hrest]
  exact fun hprefix ↦ absurd (List.cons_prefix_cons.mp hprefix).1 (by decide)

theorem inert_formatU (n : ℕ) : Inert '\n' countPattern (formatU n) := by
  obtain ⟨c, rest, hdigits⟩ := List.exists_cons_of_ne_nil (formatU_ne_nil n)
  have hmem : c ∈ formatU n := hdigits ▸ List.mem_cons_self
  have hspace := isSpace_formatU n c hmem
  have hdigit := formatU_isDigit n c hmem
  refine inert_count (fun hnewline ↦ ?_) ⟨c, by rw [hdigits]; rfl, hspace⟩ fun before text ↦ ?_
  · exact absurd ((isSpace_formatU n _ hnewline).symm.trans isSpace_newline) Bool.false_ne_true
  · apply matchesAt_literal_eq_nil
    rw [hdigits]
    intro hprefix
    obtain rfl : 'c' = c := (List.cons_prefix_cons.mp hprefix).1
    exact absurd hdigit (by decide)

theorem KatField.notMem_line (field : KatField) : '\n' ∉ field.line := by
  rw [KatField.line, List.mem_append, not_or]
  refine ⟨fun hmem ↦ ?_, ?_⟩
  · exact absurd ((field.fits.space _ hmem).symm.trans isSpace_newline) Bool.false_ne_true
  · simpa using field.fits.value_line

theorem KatField.inert_count (field : KatField) : Inert '\n' countPattern field.line := by
  obtain ⟨c, rest, hname⟩ := List.exists_cons_of_ne_nil field.fits.ne_nil
  have hspace : isSpace c = false := field.fits.space c (hname ▸ List.mem_cons_self)
  have hhead : c ∈ field.line.head? := by
    rw [KatField.line, hname]
    rfl
  refine Signature.inert_count field.notMem_line ⟨c, hhead, hspace⟩ fun before text ↦ ?_
  rw [KatField.line, List.append_assoc]
  exact matchesAt_name_eq_nil isSpace_count
    (fun d hd ↦ ⟨field.fits.space d hd, field.fits.ne_equals hd⟩)
    ⟨' ', rfl, isSpace_blank⟩ field.fits.ne_count.symm before

/-- What the split leaves of a record but for the end of the file. -/
def KatRecord.text (record : KatRecord) : Text :=
  unlines '\n' (formatU record.count :: record.fields.map KatField.line)

theorem KatRecord.inert (record : KatRecord) :
    ∀ line ∈ formatU record.count :: record.fields.map KatField.line,
      Inert '\n' countPattern line := by
  rw [List.forall_mem_cons]
  refine ⟨inert_formatU record.count, fun line hline ↦ ?_⟩
  obtain ⟨field, -, rfl⟩ := List.mem_map.mp hline
  exact field.inert_count

theorem search_lastLine (before : Option Char) : search '\n' countPattern before ['\n'] = none := by
  have hnone : matchesAt '\n' countPattern before ['\n'] = [] := by
    rw [countPattern, matchesAt_cons_lineStart]
    split_ifs <;> rfl
  rw [search_cons, hnone]
  rfl

theorem unlines_records (record : KatRecord) (records : List KatRecord) :
    unlines '\n' ((record :: records).flatMap KatRecord.lines) =
      "count = ".toList ++
        (record.text ++ '\n' :: unlines '\n' (records.flatMap KatRecord.lines)) := by
  simp [KatRecord.lines, KatRecord.text, unlines]

/-- The split finds every record; a blank line is part of the match that follows it. -/
theorem split_records {records : List KatRecord} {n : ℕ} (hn : records.length ≤ n)
    {lines : List Text} (hlines : ∀ line ∈ lines, Inert '\n' countPattern line)
    {before : Option Char} (hbefore : lines = [] → before = none) :
    ∃ ending pieces, split '\n' countPattern n before
        (unlines '\n' lines ++ '\n' :: unlines '\n' (records.flatMap KatRecord.lines)) =
          (unlines '\n' lines ++ ending) :: pieces ∧
      List.Forall₂ (fun record piece ↦ ∃ ending, piece = record.text ++ ending) records pieces := by
  induction records generalizing n lines before with
  | nil =>
    refine ⟨['\n'], [], ?_, List.Forall₂.nil⟩
    cases n with
    | zero => rfl
    | succ n =>
      have hnone : search '\n' countPattern before (unlines '\n' lines ++ ['\n']) = none := by
        rw [countPattern, search_unlines hlines]
        exact Option.map_eq_none_iff.mpr (search_lastLine _)
      change split '\n' countPattern (n + 1) before (unlines '\n' lines ++ ['\n']) = _
      rw [split_succ, hnone]
  | cons record records ih =>
    obtain ⟨n, rfl⟩ : ∃ m, n = m + 1 := Nat.exists_eq_add_one.mpr (by
      rw [List.length_cons] at hn
      omega)
    -- the rest of the split starts behind the blank, in the line of the number
    have hne : formatU record.count :: record.fields.map KatField.line = [] → some ' ' = none :=
      fun h ↦ absurd h (List.cons_ne_nil _ _)
    obtain ⟨ending, pieces, hsplit, hpieces⟩ := ih (Nat.le_of_succ_le_succ hn) record.inert hne
    refine ⟨[], (record.text ++ ending) :: pieces, ?_, List.Forall₂.cons ⟨ending, rfl⟩ hpieces⟩
    have hstart : AtLineStart (if lines = [] then before else some '\n') :=
      atLineStart_ite fun h ↦ Or.inl (hbefore h)
    have hdigit : ∀ c ∈ (record.text ++
        '\n' :: unlines '\n' (records.flatMap KatRecord.lines)).head?, isSpace c = false := by
      obtain ⟨c, rest, hdigits⟩ := List.exists_cons_of_ne_nil (formatU_ne_nil record.count)
      intro d hd
      rw [KatRecord.text, unlines_cons, hdigits] at hd
      obtain rfl : c = d := Option.some.inj hd
      exact isSpace_formatU record.count c (hdigits ▸ List.mem_cons_self)
    rw [unlines_records, split_succ, countPattern, search_unlines hlines, ← countPattern,
      search_of_found (found_count hstart hdigit)]
    exact congrArg (_ :: ·) hsplit

theorem selectFrom_pieces (count : ℤ) {records : List KatRecord} {pieces : List Text}
    (h : List.Forall₂ (fun record piece ↦ ∃ ending, piece = record.text ++ ending) records pieces) :
    match records.find? fun record ↦ (record.count : ℤ) = count with
    | none => selectFrom count pieces = .error .systemExit
    | some record => ∃ ending, selectFrom count pieces =
        .ok (unlines '\n' (record.fields.map KatField.line) ++ ending) := by
  induction h with
  | nil => rfl
  | @cons record _ records pieces hpiece _ ih =>
    obtain ⟨ending, rfl⟩ := hpiece
    have hnumber : ∀ c ∈ formatU record.count, decide (c ≠ '\n') = true := by
      intro c hc
      apply decide_eq_true
      rintro rfl
      exact (inert_formatU record.count).1 hc
    have htext : record.text ++ ending = formatU record.count ++
        '\n' :: (unlines '\n' (record.fields.map KatField.line) ++ ending) := by
      rw [KatRecord.text, unlines_cons, List.append_assoc, List.cons_append]
    have hfirst : pyInt (strip ((record.text ++ ending).takeWhile (· ≠ '\n'))) =
        .ok (record.count : ℤ) := by
      rw [htext, List.takeWhile_append_of_pos hnumber, List.takeWhile_cons_of_neg (by simp),
        List.append_nil, strip_of_forall (isSpace_formatU record.count)]
      exact pyInt_formatU (record.count_lt.trans (by decide))
    have hrest : ((record.text ++ ending).dropWhile (· ≠ '\n')).tail =
        unlines '\n' (record.fields.map KatField.line) ++ ending := by
      rw [htext, List.dropWhile_append_of_pos hnumber, List.dropWhile_cons_of_neg (by simp)]
      rfl
    have hstep : selectFrom count ((record.text ++ ending) :: pieces) =
        if (record.count : ℤ) = count then
          .ok (unlines '\n' (record.fields.map KatField.line) ++ ending)
        else selectFrom count pieces := by
      rw [selectFrom, hfirst, hrest]
      rfl
    rw [hstep]
    by_cases hcount : (record.count : ℤ) = count
    · rw [List.find?_cons_of_pos (by simpa using hcount), if_pos hcount]
      exact ⟨ending, rfl⟩
    · rw [List.find?_cons_of_neg (by simpa using hcount), if_neg hcount]
      exact ih

theorem length_le_unlines (records : List KatRecord) :
    records.length ≤ (unlines '\n' (records.flatMap KatRecord.lines)).length := by
  induction records with
  | nil => exact Nat.zero_le _
  | cons record records ih =>
    rw [unlines_records, List.length_cons]
    simp only [List.length_append, List.length_cons]
    omega

/-- The record is the first one with the number. -/
theorem selectedRecord_katText (comments : List KatComment) (records : List KatRecord) (count : ℤ) :
    match records.find? fun record ↦ (record.count : ℤ) = count with
    | none => selectedRecord (katText comments records) count = .error .systemExit
    | some record => ∃ ending, selectedRecord (katText comments records) count =
        .ok (unlines '\n' (record.fields.map KatField.line) ++ ending) := by
  have htext : katText comments records = unlines '\n' (comments.map KatComment.text) ++
      '\n' :: unlines '\n' (records.flatMap KatRecord.lines) := by
    simp [katText, unlines]
  have hlength : records.length ≤ (katText comments records).length := by
    have := length_le_unlines records
    rw [htext, List.length_append, List.length_cons]
    omega
  have hcomments : ∀ line ∈ comments.map KatComment.text, Inert '\n' countPattern line := by
    intro line hline
    obtain ⟨comment, -, rfl⟩ := List.mem_map.mp hline
    exact inert_comment comment
  obtain ⟨ending, pieces, hsplit, hpieces⟩ := split_records hlength hcomments fun _ ↦ rfl
  have hselected : selectedRecord (katText comments records) count = selectFrom count pieces := by
    rw [← htext] at hsplit
    rw [selectedRecord, hsplit, List.tail_cons]
  rw [hselected]
  exact selectFrom_pieces count hpieces

/-! ### Fields -/

theorem isSpace_of_isHexDigit {c : Char} (h : isHexDigit c = true) : isSpace c = false := by
  have hrange : 48 ≤ c.toNat ∧ c.toNat ≤ 57 ∨ 97 ≤ c.toNat ∧ c.toNat ≤ 102 ∨
      65 ≤ c.toNat ∧ c.toNat ≤ 70 := by
    unfold isHexDigit hexValue at h
    split_ifs at h with hdecimal hlower hupper
    · exact Or.inl hdecimal
    · exact Or.inr (Or.inl hlower)
    · exact Or.inr (Or.inr hupper)
    · exact absurd h Bool.false_ne_true
  simp only [isSpace, Bool.or_eq_false_iff, decide_eq_false_iff_not, List.contains_eq_mem,
    List.mem_cons, List.not_mem_nil, or_false]
  omega

theorem isHexDigit_of_fromHex {value : Text} {octets : List UInt8}
    (h : fromHex value = some octets) : ∀ c ∈ value, isHexDigit c = true := by
  induction value using fromHex.induct generalizing octets with
  | case1 => exact List.forall_mem_nil _
  | case2 c => exact absurd h (by simp [fromHex])
  | case3 high low rest ih =>
    rw [fromHex] at h
    obtain ⟨highValue, hhigh, h⟩ := Option.bind_eq_some_iff.mp h
    obtain ⟨lowValue, hlow, h⟩ := Option.bind_eq_some_iff.mp h
    obtain ⟨others, hothers, -⟩ := Option.bind_eq_some_iff.mp h
    rw [List.forall_mem_cons, List.forall_mem_cons]
    exact ⟨by rw [isHexDigit, hhigh]; rfl, by rw [isHexDigit, hlow]; rfl, ih hothers⟩

/-- What a name stands in front of. -/
def valueParts : List (PatternPart Char) :=
  [.many isSpace, .group isHexDigit, .many isSpace, .lineEnd]

theorem found_field {before : Option Char} (hbefore : AtLineStart before)
    (name rest : Text) {value : Text} (hne : value ≠ [])
    (hvalue : ∀ c ∈ value, isHexDigit c = true) :
    ∃ found, (matchesAt '\n' (fieldPattern name) before
        (name ++ ' ' :: '=' :: ' ' :: (value ++ '\n' :: rest))).head? = some found ∧
      found.groups = [value] := by
  have hsign : matchesAt '\n' (literal name ++ .many isSpace :: .one (· = '=') :: valueParts) before
      (name ++ ' ' :: '=' :: ([' '] ++ (value ++ '\n' :: rest))) =
        matchesAt '\n' valueParts (some '=') ([' '] ++ (value ++ '\n' :: rest)) :=
    matchesAt_assignment isSpace_blank isSpace_equals _ _ _
  have hspace : ∀ c ∈ value, isSpace c = false :=
    fun c hc ↦ isSpace_of_isHexDigit (hvalue c hc)
  have hblank : matchesAt '\n' valueParts (some '=') ([' '] ++ (value ++ '\n' :: rest)) =
      matchesAt '\n' [.group isHexDigit, .many isSpace, .lineEnd] (some ' ')
        (value ++ '\n' :: rest) := by
    apply matchesAt_many _ (List.forall_mem_singleton.mpr isSpace_blank)
    · obtain ⟨c, more, rfl⟩ := List.exists_cons_of_ne_nil hne
      exact fun d hd ↦ (Option.some.inj hd) ▸ hspace c List.mem_cons_self
    · apply blocked_group
      intro c hc
      rw [Bool.eq_false_iff]
      exact fun hhex ↦ Bool.false_ne_true ((isSpace_of_isHexDigit hhex).symm.trans hc)
  -- the repetition before the end of the line may go on into blank lines, but keeps nothing
  have hend : ∃ found, (matchesAt '\n' [.many isSpace, .lineEnd] (lastOr (some ' ') value)
      ('\n' :: rest)).head? = some found ∧ found.groups = [] :=
    head?_matchesAt_lineEnd (Or.inr rfl) _
  have hnewline : isHexDigit '\n' = false := by decide
  have hblocked : Blocked '\n' isHexDigit [.many isSpace, .lineEnd] :=
    blocked_many_lineEnd (fun c hc ↦ isSpace_of_isHexDigit hc) hnewline
  have hgroup : matchesAt '\n' [.group isHexDigit, .many isSpace, .lineEnd] (some ' ')
      (value ++ '\n' :: rest) =
        (matchesAt '\n' [.many isSpace, .lineEnd] (lastOr (some ' ') value) ('\n' :: rest)).map
          fun found ↦ { found with groups := value :: found.groups } :=
    matchesAt_group hblocked hne hvalue (by simpa using hnewline) _
  obtain ⟨found, hfound, hgroups⟩ := hend
  refine ⟨{ found with groups := value :: found.groups }, ?_, by rw [hgroups]⟩
  have hhead := congrArg List.head? (hsign.trans (hblank.trans hgroup))
  rw [List.head?_map, hfound] at hhead
  exact (congrArg List.head? (if_pos hbefore)).trans hhead

theorem KatField.inert (field : KatField) {name : Text} (hname : ∀ c ∈ name, isSpace c = false)
    (hne : field.name ≠ name) : Inert '\n' (fieldPattern name) field.line := by
  refine ⟨field.notMem_line, fun before text ↦ ?_⟩
  have hnone : matchesAt '\n' (literal name ++ .many isSpace :: .one (· = '=') :: valueParts) before
      (field.name ++ (' ' :: '=' :: ' ' :: field.value ++ '\n' :: text)) = [] :=
    matchesAt_name_eq_nil hname
      (fun c hc ↦ ⟨field.fits.space c hc, field.fits.ne_equals hc⟩)
      ⟨' ', rfl, isSpace_blank⟩ hne.symm before
  rw [fieldPattern, matchesAt_cons_lineStart, KatField.line, List.append_assoc]
  split_ifs
  · exact hnone
  · rfl

theorem KatRecord.field_octets (record : KatRecord) {name : Text}
    (hname : ∀ c ∈ name, isSpace c = false) {octets : List UInt8}
    (h : record.octets name = some octets) (ending : Text) :
    field (unlines '\n' (record.fields.map KatField.line) ++ ending) name = .ok octets := by
  obtain ⟨found, hfind, hvalue⟩ := Option.bind_eq_some_iff.mp h
  obtain ⟨hfound, earlier, later, hfields, hearlier⟩ := List.find?_eq_some_iff_append.mp hfind
  split_ifs at hvalue with hne
  have hlines : ∀ line ∈ earlier.map KatField.line, Inert '\n' (fieldPattern name) line := by
    intro line hline
    obtain ⟨other, hother, rfl⟩ := List.mem_map.mp hline
    exact other.inert hname (by simpa using hearlier other hother)
  have htext : unlines '\n' (record.fields.map KatField.line) ++ ending =
      unlines '\n' (earlier.map KatField.line) ++ (name ++ ' ' :: '=' :: ' ' ::
        (found.value ++ '\n' :: (unlines '\n' (later.map KatField.line) ++ ending))) := by
    rw [hfields, ← of_decide_eq_true hfound]
    simp [unlines, KatField.line]
  have hbefore : AtLineStart (if earlier.map KatField.line = [] then none else some '\n') :=
    atLineStart_ite fun _ ↦ Or.inl rfl
  obtain ⟨result, hmatch, hgroups⟩ := found_field hbefore name
    (unlines '\n' (later.map KatField.line) ++ ending) hne (isHexDigit_of_fromHex hvalue)
  rw [htext, field, fieldPattern, search_unlines hlines, ← fieldPattern, search_of_found hmatch]
  simp only [Option.map_some, hgroups, List.headD_cons, hvalue]

/-! ### Headers -/

theorem cArray_eq (name : Text) {data : List UInt8} (hdata : data ≠ []) :
    cArray name data = unlines '\n' (arrayLines (declaration name) indent 12 data) :=
  (unlines_arrayLines (declaration name) indent 12 hdata).symm

theorem notMem_formatD (n : ℤ) : '\n' ∉ formatD n := by
  rcases lt_or_ge n 0 with hneg | hnonneg
  · rw [formatD_neg hneg]
    simpa using (inert_formatU n.natAbs).1
  · obtain ⟨m, rfl⟩ := Int.eq_ofNat_of_zero_le hnonneg
    rw [formatD_natCast]
    exact (inert_formatU m).1

section Arrays

variable {opening between closing : List Text} {first second : Text} {earlier later : List UInt8}

/-- The lines of a header with two arrays. -/
def twoArrays (opening between closing : List Text) (first second : Text)
    (earlier later : List UInt8) : List Text :=
  opening ++ arrayLines (declaration first) indent 12 earlier ++
    (between ++ arrayLines (declaration second) indent 12 later ++ closing)

/-- The line does not declare an array. -/
def Undeclared (line : Text) : Prop := '\n' ∉ line ∧ line.head? ≠ some 's'

theorem twoArrays_are_read
    (hopening : ∀ line ∈ opening, Undeclared line) (hbetween : ∀ line ∈ between, Undeclared line)
    (hclosing : ∀ line ∈ closing, '\n' ∉ line) (hfirst : '\n' ∉ declaration first)
    (hsecond : '\n' ∉ declaration second) (hother : ¬declaration second <+: declaration first)
    (hlength : (declaration second).length ≤ (declaration first).length) (hearlier : earlier ≠ [])
    (hlater : later ≠ []) :
    readArray (declaration first)
        (unlines '\n' (twoArrays opening between closing first second earlier later)) =
          some earlier ∧
      readArray (declaration second)
        (unlines '\n' (twoArrays opening between closing first second earlier later)) =
          some later := by
  have hindent : ∀ c ∈ indent, c = ' ' := fun c hc ↦ List.eq_of_mem_replicate hc
  have hindent_ne : indent ≠ [] := by decide
  have hskip (name : Text) {line : Text} (hline : line.head? ≠ some 's') :
      ¬declaration name <+: line := by
    intro hprefix
    obtain ⟨rest, rfl⟩ := hprefix
    exact hline rfl
  have hself (name : Text) : ∃ c ∈ (declaration name).head?, c ≠ ' ' ∧ c ≠ '\x7d' :=
    ⟨'s', rfl, by decide, by decide⟩
  have hlines (name : Text) {data : List UInt8} (hname : '\n' ∉ declaration name) :
      ∀ line ∈ arrayLines (declaration name) indent 12 data, '\n' ∉ line :=
    notMem_arrayLines hindent hindent_ne hname
  constructor
  · apply readArray_arrayLines (by decide) hindent hindent_ne hfirst hearlier
    · exact fun line hline ↦ ⟨(hopening line hline).1, hskip first (hopening line hline).2⟩
    · rw [List.forall_mem_append, List.forall_mem_append]
      exact ⟨⟨fun line hline ↦ (hbetween line hline).1, hlines second hsecond⟩, hclosing⟩
  · have hsplit : twoArrays opening between closing first second earlier later =
        (opening ++ arrayLines (declaration first) indent 12 earlier ++ between) ++
          arrayLines (declaration second) indent 12 later ++ closing := by
      simp [twoArrays]
    rw [hsplit]
    apply readArray_arrayLines (by decide) hindent hindent_ne hsecond hlater _ hclosing
    rw [List.forall_mem_append, List.forall_mem_append]
    refine ⟨⟨fun line hline ↦ ⟨(hopening line hline).1, hskip second (hopening line hline).2⟩,
      fun line hline ↦ ⟨hlines first hfirst line hline, ?_⟩⟩,
      fun line hline ↦ ⟨(hbetween line hline).1, hskip second (hbetween line hline).2⟩⟩
    exact arrayLines_skipped hindent hindent_ne hother hlength (hself second) line hline

end Arrays

/-! ### What the images embed -/

def headerOpening (names : HeaderNames) (includes : List Text) (count : ℤ) : List Text :=
  ["#ifndef ".toList ++ names.guard, "#define ".toList ++ names.guard, [],
    "#include <stdint.h>".toList, []] ++ includes ++
    ["/* Imported from ".toList ++ (names.rsp ++ ", count=".toList ++ formatD count ++
      ". */".toList)]

/-- The line that names the header of the public key. -/
def includeLine (baseHeader : Text) : Text :=
  "#include ".toList ++ quotechar :: (baseHeader ++ [quotechar])

def headerClosing (names : HeaderNames) : List Text :=
  [[], "#endif /* ".toList ++ names.guard ++ " */".toList]

theorem headerOpening_spec (names : HeaderNames) {includes : List Text} (count : ℤ)
    (hincludes : ∀ line ∈ includes, Undeclared line) :
    ∀ line ∈ headerOpening names includes count, Undeclared line := by
  rw [headerOpening, List.forall_mem_append, List.forall_mem_append, List.forall_mem_singleton]
  refine ⟨⟨?_, hincludes⟩, ?_, ?_⟩
  · simp [Undeclared, names.guard_line]
  · simp [names.rsp_line, notMem_formatD]
  · simp

theorem undeclared_includeLine {baseHeader : Text} (hbase : '\n' ∉ baseHeader) :
    Undeclared (includeLine baseHeader) := by
  have hquote : '\n' ≠ quotechar := by decide
  unfold Undeclared includeLine
  generalize quotechar = quote at hquote ⊢
  simp [hquote, hbase]

theorem undeclared_blank : ∀ line ∈ [([] : Text)], Undeclared line := by
  simp [Undeclared]

theorem headerClosing_spec (names : HeaderNames) :
    ∀ line ∈ headerClosing names, '\n' ∉ line := by
  simp [headerClosing, names.guard_line]

theorem KatRecord.octets_ne_nil {record : KatRecord} {name : Text} {octets : List UInt8}
    (h : record.octets name = some octets) : octets ≠ [] := by
  obtain ⟨found, -, hvalue⟩ := Option.bind_eq_some_iff.mp h
  split_ifs at hvalue with hempty
  rintro rfl
  exact hempty (eq_nil_of_fromHex hvalue)

theorem katToHeader_eq (names : HeaderNames) {text selected : Text} {count : ℤ}
    (hselected : selectedRecord text count = .ok selected) {pk sk : List UInt8}
    (hpk : field selected "pk".toList = .ok pk) (hsk : field selected "sk".toList = .ok sk)
    (hpk_ne : pk ≠ []) (hsk_ne : sk ≠ []) :
    katToHeader names text count = .ok (unlines '\n' (twoArrays (headerOpening names [] count)
      [[]] (headerClosing names) "STATIC_PK".toList "STATIC_SK".toList pk sk)) := by
  simp only [katToHeader, hselected, hpk, hsk, bind, Except.bind]
  refine congrArg Except.ok ?_
  rw [cArray_eq _ hpk_ne, cArray_eq _ hsk_ne]
  simp [twoArrays, headerOpening, headerClosing, unlines]

theorem snovaKatVerifyToHeader_eq (names : HeaderNames) (baseHeader : Text) {text record : Text}
    {count : ℤ} (hselected : selectedRecord text count = .ok record) {msg sm : List UInt8}
    (hmsg : field record "msg".toList = .ok msg) (hsm : field record "sm".toList = .ok sm) :
    (¬msg <:+ sm → snovaKatVerifyToHeader names baseHeader text count = .error .systemExit) ∧
      ∀ sig, sm = sig ++ msg → sig ≠ [] → msg ≠ [] →
        snovaKatVerifyToHeader names baseHeader text count = .ok (unlines '\n' (twoArrays
          (headerOpening names [includeLine baseHeader, []] count) [[]] (headerClosing names)
          "STATIC_MSG".toList "STATIC_SIG".toList msg sig)) := by
  simp only [snovaKatVerifyToHeader, hselected, hmsg, hsm, bind, Except.bind]
  constructor
  · intro hsuffix
    rw [if_pos]
    by_contra hkept
    push Not at hkept
    exact hsuffix (List.suffix_iff_eq_drop.mpr hkept.2.symm)
  · rintro sig rfl hsig_ne hmsg_ne
    have hlength : (sig ++ msg).length - msg.length = sig.length := by
      rw [List.length_append, Nat.add_sub_cancel]
    have hkept : ¬((sig ++ msg).length < msg.length ∨ msg ≠ msg) := by simp
    rw [hlength, List.drop_left, List.take_left, if_neg hkept]
    refine congrArg Except.ok ?_
    rw [cArray_eq _ hmsg_ne, cArray_eq _ hsig_ne]
    unfold includeLine
    generalize quotechar = quote
    simp [twoArrays, headerOpening, headerClosing, unlines]

/-- The keys of the record with the number, octet by octet. -/
theorem known_answers_are_read_back (names : HeaderNames) (comments : List KatComment)
    (records : List KatRecord) (count : ℤ) :
    match records.find? fun record ↦ (record.count : ℤ) = count with
    | none => katToHeader names (katText comments records) count = .error .systemExit
    | some record => ∀ pk sk, record.octets "pk".toList = some pk →
        record.octets "sk".toList = some sk →
        ∃ header, katToHeader names (katText comments records) count = .ok header ∧
          readArray (declaration "STATIC_PK".toList) header = some pk ∧
          readArray (declaration "STATIC_SK".toList) header = some sk := by
  have hselected := selectedRecord_katText comments records count
  split at hselected
  · rw [katToHeader, hselected]
    rfl
  · rename_i record _
    obtain ⟨ending, hselected⟩ := hselected
    intro pk sk hpk hsk
    have hfirst := record.field_octets (isSpace_of_all rfl) hpk ending
    have hsecond := record.field_octets (isSpace_of_all rfl) hsk ending
    refine ⟨_, katToHeader_eq names hselected hfirst hsecond (KatRecord.octets_ne_nil hpk)
      (KatRecord.octets_ne_nil hsk), ?_⟩
    exact twoArrays_are_read (headerOpening_spec names count (List.forall_mem_nil _))
      undeclared_blank (headerClosing_spec names) (by decide) (by decide) (by decide) (by decide)
      (KatRecord.octets_ne_nil hpk) (KatRecord.octets_ne_nil hsk)

theorem sample_count_lt : 7 < 2 ^ 31 := by decide

theorem sample_head : "# SAMPLE".toList.head? = some '#' := rfl

theorem sample_line : '\n' ∉ "# SAMPLE".toList := by decide

theorem sample_msg_fits : KatField.Fits "msg".toList "D8".toList :=
  ⟨by decide, isSpace_of_all rfl, by decide, by decide, by decide⟩

theorem sample_pk_fits : KatField.Fits "pk".toList "0A1b".toList :=
  ⟨by decide, isSpace_of_all rfl, by decide, by decide, by decide⟩

theorem sample_sk_fits : KatField.Fits "sk".toList "C2".toList :=
  ⟨by decide, isSpace_of_all rfl, by decide, by decide, by decide⟩

theorem sample_sm_fits : KatField.Fits "sm".toList "5EE1D8".toList :=
  ⟨by decide, isSpace_of_all rfl, by decide, by decide, by decide⟩

def sampleComment : KatComment := ⟨_, sample_head, sample_line⟩

def sampleRecord : KatRecord where
  count := 7
  fields := [⟨_, _, sample_msg_fits⟩, ⟨_, _, sample_pk_fits⟩, ⟨_, _, sample_sk_fits⟩,
    ⟨_, _, sample_sm_fits⟩]
  count_lt := sample_count_lt

theorem sample_guard : '\n' ∉ "KEYS_H".toList := by decide

theorem sample_rsp : '\n' ∉ "KAT.rsp".toList := by decide

def sampleNames : HeaderNames := ⟨_, _, sample_guard, sample_rsp⟩

theorem sample_keys_are_read_back :
    ∃ header, katToHeader sampleNames (katText [sampleComment] [sampleRecord]) 7 = .ok header ∧
      readArray (declaration "STATIC_PK".toList) header = some [0x0a, 0x1b] ∧
      readArray (declaration "STATIC_SK".toList) header = some [0xc2] := by
  have hfind : [sampleRecord].find? (fun record ↦ (record.count : ℤ) = 7) = some sampleRecord := rfl
  have hpk : sampleRecord.octets "pk".toList = some [0x0a, 0x1b] := by decide
  have hsk : sampleRecord.octets "sk".toList = some [0xc2] := by decide
  have hread := known_answers_are_read_back sampleNames [sampleComment] [sampleRecord] 7
  rw [hfind] at hread
  exact hread _ _ hpk hsk

/-- The signature is what stands before the message; a record where the message does not follow is
refused. -/
theorem known_signatures_are_read_back (names : HeaderNames) {baseHeader : Text}
    (hbase : '\n' ∉ baseHeader) (comments : List KatComment) (records : List KatRecord)
    (count : ℤ) :
    match records.find? fun record ↦ (record.count : ℤ) = count with
    | none => snovaKatVerifyToHeader names baseHeader (katText comments records) count =
        .error .systemExit
    | some record => ∀ msg sm, record.octets "msg".toList = some msg →
        record.octets "sm".toList = some sm →
        (¬msg <:+ sm → snovaKatVerifyToHeader names baseHeader (katText comments records) count =
          .error .systemExit) ∧
        ∀ sig, sm = sig ++ msg → sig ≠ [] →
          ∃ header, snovaKatVerifyToHeader names baseHeader (katText comments records) count =
              .ok header ∧
            readArray (declaration "STATIC_MSG".toList) header = some msg ∧
            readArray (declaration "STATIC_SIG".toList) header = some sig := by
  have hselected := selectedRecord_katText comments records count
  split at hselected
  · rw [snovaKatVerifyToHeader, hselected]
    rfl
  · rename_i record _
    obtain ⟨ending, hselected⟩ := hselected
    intro msg sm hmsg hsm
    have hfirst := record.field_octets (isSpace_of_all rfl) hmsg ending
    have hsecond := record.field_octets (isSpace_of_all rfl) hsm ending
    obtain ⟨hrefused, hheader⟩ :=
      snovaKatVerifyToHeader_eq names baseHeader hselected hfirst hsecond
    have hincludes : ∀ line ∈ [includeLine baseHeader, []], Undeclared line := by
      rw [List.forall_mem_cons]
      exact ⟨undeclared_includeLine hbase, undeclared_blank⟩
    refine ⟨hrefused, fun sig hsig hsig_ne ↦
      ⟨_, hheader sig hsig hsig_ne (KatRecord.octets_ne_nil hmsg), ?_⟩⟩
    exact twoArrays_are_read (headerOpening_spec names count hincludes) undeclared_blank
      (headerClosing_spec names) (by decide) (by decide) (by decide) (by decide)
      (KatRecord.octets_ne_nil hmsg) hsig_ne

theorem sample_signature_is_read_back :
    ∃ header, snovaKatVerifyToHeader sampleNames "keys.h".toList
        (katText [sampleComment] [sampleRecord]) 7 = .ok header ∧
      readArray (declaration "STATIC_MSG".toList) header = some [0xd8] ∧
      readArray (declaration "STATIC_SIG".toList) header = some [0x5e, 0xe1] := by
  have hfind : [sampleRecord].find? (fun record ↦ (record.count : ℤ) = 7) = some sampleRecord := rfl
  have hmsg : sampleRecord.octets "msg".toList = some [0xd8] := by decide
  have hsm : sampleRecord.octets "sm".toList = some [0x5e, 0xe1, 0xd8] := by decide
  have hbase : '\n' ∉ "keys.h".toList := by decide
  have hread := known_signatures_are_read_back sampleNames hbase [sampleComment] [sampleRecord] 7
  rw [hfind] at hread
  exact (hread _ _ hmsg hsm).2 [0x5e, 0xe1] rfl (by decide)

/-! ## der_to_header.py and gen_hawk512_key.c -/

/-- `der_to_header.py`, from the content of its input; the lines of the array are made as in
`c_array`. -/
def derToHeader (data : List UInt8) : Text :=
  "#ifndef STATIC_ECDSA_KEY_DER_H\n#define STATIC_ECDSA_KEY_DER_H\n".toList ++
    "#include <stdint.h>\n".toList ++ cArray "STATIC_KEY_DER".toList data ++ "#endif\n".toList

/-- What stands before an item of `array`. -/
def separatorAt (i : ℕ) : Text :=
  if i = 0 then '\n' :: indent else if i % 12 = 0 then ',' :: '\n' :: indent else [',', ' ']

/-- `array` -/
def hawkArray (name : Text) (data : List UInt8) : Text :=
  declaration name ++ formatU data.length ++ "] = \x7b".toList ++
    (data.zipIdx.flatMap fun octet ↦ separatorAt octet.2 ++ item octet.1) ++ "\n\x7d;\n".toList

/-- An item with what stands before it. -/
def itemAt (octet : UInt8 × ℕ) : Text := separatorAt octet.2 ++ item octet.1

theorem separatorAt_of_ne {i : ℕ} (h : i % 12 ≠ 0) : separatorAt i = [',', ' '] := by
  rw [separatorAt, if_neg (by rintro rfl; exact h rfl), if_neg h]

/-- The items of a row after the first one. -/
theorem flatMap_itemAt {row : List UInt8} {i : ℕ} (h : ∀ k < row.length, (i + k) % 12 ≠ 0)
    (first : UInt8) :
    item first ++ (row.zipIdx i).flatMap itemAt =
      [',', ' '].intercalate ((first :: row).map item) := by
  induction row generalizing i first with
  | nil => simp [List.intercalate]
  | cons octet row ih =>
    have hlater : ∀ k < row.length, (i + 1 + k) % 12 ≠ 0 := by
      intro k hk
      have := h (k + 1) (Nat.succ_lt_succ hk)
      rwa [Nat.add_assoc, Nat.add_comm 1 k]
    have hzero : i % 12 ≠ 0 := h 0 (Nat.succ_pos _)
    rw [List.zipIdx_cons, List.flatMap_cons, itemAt, separatorAt_of_ne hzero, List.append_assoc,
      ih hlater octet]
    simp only [List.map_cons, List.intercalate_cons_cons, List.append_assoc]

theorem zipIdx_row {row : List UInt8} (hrow : row ≠ []) (hlength : row.length ≤ 12) {i : ℕ}
    (hi : i % 12 = 0) :
    (row.zipIdx i).flatMap itemAt =
      separatorAt i ++ [',', ' '].intercalate (row.map item) := by
  obtain ⟨first, row, rfl⟩ := List.exists_cons_of_ne_nil hrow
  have hinside : ∀ k < row.length, (i + 1 + k) % 12 ≠ 0 := by
    intro k hk
    rw [List.length_cons] at hlength
    omega
  rw [List.zipIdx_cons, List.flatMap_cons, itemAt, List.append_assoc, flatMap_itemAt hinside]

/-- The loop breaks the lines where `c_array` does. -/
theorem zipIdx_rows {n : ℕ} {data : List UInt8} (hn : data.length ≤ n) (hdata : data ≠ []) {i : ℕ}
    (hi : i % 12 = 0) :
    (data.zipIdx i).flatMap itemAt =
      (if i = 0 then ['\n'] else [',', '\n']) ++
        [',', '\n'].intercalate ((chunks 12 n data).map (rowText indent)) := by
  have hseparator : separatorAt i = (if i = 0 then ['\n'] else [',', '\n']) ++ indent := by
    unfold separatorAt
    split_ifs
    · rfl
    · rfl
  induction n generalizing data i with
  | zero => exact absurd (List.length_eq_zero_iff.mp (Nat.le_zero.mp hn)) hdata
  | succ n ih =>
    obtain ⟨octet, octets, rfl⟩ := List.exists_cons_of_ne_nil hdata
    generalize hall : octet :: octets = data at hn hdata
    have hrow : data.take 12 ≠ [] := by
      rw [← hall]
      exact List.cons_ne_nil _ _
    have hchunks : chunks 12 (n + 1) data = data.take 12 :: chunks 12 n (data.drop 12) := by
      rw [← hall]
      rfl
    have hlength : (data.take 12).length ≤ 12 := List.length_take_le 12 data
    have hstart : ((data.take 12).zipIdx i).flatMap itemAt =
        (if i = 0 then ['\n'] else [',', '\n']) ++ rowText indent (data.take 12) := by
      rw [zipIdx_row hrow hlength hi, hseparator, rowText, List.append_assoc]
    have hwhole : (data.zipIdx i).flatMap itemAt = ((data.take 12).zipIdx i).flatMap itemAt ++
        ((data.drop 12).zipIdx (i + (data.take 12).length)).flatMap itemAt := by
      rw [← List.flatMap_append, ← List.zipIdx_append, List.take_append_drop]
    rw [hwhole, hstart, hchunks, List.map_cons]
    by_cases hrest : data.drop 12 = []
    · have hnone : chunks 12 n ([] : List UInt8) = [] := by cases n <;> rfl
      rw [hrest, hnone]
      simp [List.intercalate]
    · have hfull : (data.take 12).length = 12 := by
        rw [List.drop_eq_nil_iff] at hrest
        rw [List.length_take]
        omega
      have hfewer : (data.drop 12).length ≤ n := by
        rw [List.length_drop]
        omega
      have hne : chunks 12 n (data.drop 12) ≠ [] := by
        cases n with
        | zero => exact absurd (List.length_eq_zero_iff.mp (Nat.le_zero.mp hfewer)) hrest
        | succ n =>
          obtain ⟨next, others, hnext⟩ := List.exists_cons_of_ne_nil hrest
          rw [hnext]
          exact List.cons_ne_nil _ _
      have hlater : i + 12 ≠ 0 := by omega
      have hnext : separatorAt (i + 12) =
          (if i + 12 = 0 then ['\n'] else [',', '\n']) ++ indent := by
        rw [separatorAt, if_neg hlater, if_pos (by omega), if_neg hlater]
        rfl
      rw [hfull, ih hfewer hrest (by omega) hnext, if_neg hlater]
      obtain ⟨row, rows, hrows⟩ := List.exists_cons_of_ne_nil hne
      rw [hrows, List.map_cons, List.intercalate_cons_cons]
      simp only [List.append_assoc]

theorem hawkArray_eq (name : Text) {data : List UInt8} (hdata : data ≠ []) :
    hawkArray name data = unlines '\n' (arrayLines (declaration name) indent 12 data) := by
  rw [unlines_arrayLines (declaration name) indent 12 hdata]
  have hitems : (data.zipIdx.flatMap fun octet ↦ separatorAt octet.2 ++ item octet.1) = _ :=
    zipIdx_rows (le_refl data.length) hdata rfl
  rw [hawkArray, hitems]
  simp [formatU]

/-- The C program breaks its lines where the Python programs do. -/
theorem hawkArray_eq_cArray (name : Text) {data : List UInt8} (hdata : data ≠ []) :
    hawkArray name data = cArray name data := by
  rw [hawkArray_eq name hdata, cArray_eq name hdata]

/-- `main` of `gen_hawk512_key.c`, with the keys that `hawk_keygen` returns. -/
def genHawk512Key (pk sk : List UInt8) : Text :=
  "#ifndef KEYS_HAWK512_H\n#define KEYS_HAWK512_H\n#include <stdint.h>\n".toList ++
    "/* Deterministic test-only HAWK key generated on the host. */\n".toList ++
    hawkArray "STATIC_PK".toList pk ++ hawkArray "STATIC_SK".toList sk ++ "#endif\n".toList

def derOpening : List Text :=
  ["#ifndef STATIC_ECDSA_KEY_DER_H".toList, "#define STATIC_ECDSA_KEY_DER_H".toList,
    "#include <stdint.h>".toList]

theorem unlines_derOpening : unlines '\n' derOpening =
    "#ifndef STATIC_ECDSA_KEY_DER_H\n#define STATIC_ECDSA_KEY_DER_H\n".toList ++
      "#include <stdint.h>\n".toList := by
  decide

def hawkOpening : List Text :=
  ["#ifndef KEYS_HAWK512_H".toList, "#define KEYS_HAWK512_H".toList, "#include <stdint.h>".toList,
    "/* Deterministic test-only HAWK key generated on the host. */".toList]

theorem unlines_hawkOpening : unlines '\n' hawkOpening =
    "#ifndef KEYS_HAWK512_H\n#define KEYS_HAWK512_H\n#include <stdint.h>\n".toList ++
      "/* Deterministic test-only HAWK key generated on the host. */\n".toList := by
  decide

theorem unlines_endif : unlines '\n' ["#endif".toList] = "#endif\n".toList := by decide

/-- What the other two programs write is read back as well, although one of them writes item by
item. -/
theorem generated_keys_are_read_back {data pk sk : List UInt8} (hdata : data ≠ []) (hpk : pk ≠ [])
    (hsk : sk ≠ []) :
    readArray (declaration "STATIC_KEY_DER".toList) (derToHeader data) = some data ∧
      readArray (declaration "STATIC_PK".toList) (genHawk512Key pk sk) = some pk ∧
      readArray (declaration "STATIC_SK".toList) (genHawk512Key pk sk) = some sk ∧
      hawkArray "STATIC_PK".toList pk = cArray "STATIC_PK".toList pk ∧
      hawkArray "STATIC_SK".toList sk = cArray "STATIC_SK".toList sk := by
  have hindent : ∀ c ∈ indent, c = ' ' := fun c hc ↦ List.eq_of_mem_replicate hc
  constructor
  · have htext : derToHeader data = unlines '\n' (derOpening ++
        arrayLines (declaration "STATIC_KEY_DER".toList) indent 12 data ++ ["#endif".toList]) := by
      -- `rw` would derive an equation of the definition, which takes the strings apart
      unfold derToHeader
      rw [unlines_append, unlines_append, ← cArray_eq _ hdata, unlines_derOpening, unlines_endif]
    rw [htext]
    exact readArray_arrayLines (by decide) hindent (by decide) (by decide) hdata (by decide)
      (by decide)
  · have htext : genHawk512Key pk sk = unlines '\n' (twoArrays hawkOpening [] ["#endif".toList]
        "STATIC_PK".toList "STATIC_SK".toList pk sk) := by
      unfold genHawk512Key
      simp only [twoArrays, List.nil_append, unlines_append, unlines_hawkOpening, unlines_endif,
        hawkArray_eq _ hpk, hawkArray_eq _ hsk, List.append_assoc]
    rw [htext]
    have hopening : ∀ line ∈ hawkOpening, '\n' ∉ line ∧ line.head? ≠ some 's' := by decide
    rw [← and_assoc]
    refine ⟨?_, hawkArray_eq_cArray _ hpk, hawkArray_eq_cArray _ hsk⟩
    exact twoArrays_are_read hopening (List.forall_mem_nil _) (by decide) (by decide) (by decide)
      (by decide) (by decide) hpk hsk

theorem sample_generated_keys_are_read_back :
    readArray (declaration "STATIC_KEY_DER".toList) (derToHeader [0x30, 0x00]) =
        some [0x30, 0x00] ∧
      readArray (declaration "STATIC_PK".toList) (genHawk512Key [0x09] [0x01, 0x02]) =
        some [0x09] ∧
      readArray (declaration "STATIC_SK".toList) (genHawk512Key [0x09] [0x01, 0x02]) =
        some [0x01, 0x02] ∧
      hawkArray "STATIC_PK".toList [0x09] = cArray "STATIC_PK".toList [0x09] ∧
      hawkArray "STATIC_SK".toList [0x01, 0x02] = cArray "STATIC_SK".toList [0x01, 0x02] :=
  generated_keys_are_read_back (List.cons_ne_nil _ _) (List.cons_ne_nil _ _)
    (List.cons_ne_nil _ _)

end PqMqtt.Signature
