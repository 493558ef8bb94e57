import PqMqtt.Foundation.Pem

/-!
# Octets as hexadecimal digits and as arrays of C

An array is written row by row, with its size in the declaration.  The reader looks for the
declaration at the start of a line, takes the lines up to the one that closes the initializer, and
insists on as many items as were declared.
-/

namespace PqMqtt.CArray

open Delimited

/-! ## Hexadecimal digits -/

/-- The value of a hexadecimal digit. -/
def hexValue (c : Char) : Option ℕ :=
  if 48 ≤ c.toNat ∧ c.toNat ≤ 57 then some (c.toNat - 48)
  else if 97 ≤ c.toNat ∧ c.toNat ≤ 102 then some (c.toNat - 87)
  else if 65 ≤ c.toNat ∧ c.toNat ≤ 70 then some (c.toNat - 55)
  else none

/-- Two digits for each octet. -/
def fromHex : List Char → Option (List UInt8)
  | [] => some []
  | [_] => none
  | high :: low :: rest => do
    let h ← hexValue high
    let l ← hexValue low
    let octets ← fromHex rest
    some (UInt8.ofNat (16 * h + l) :: octets)

theorem eq_nil_of_fromHex {digits : List Char} (h : fromHex digits = some []) : digits = [] := by
  induction digits using fromHex.induct with
  | case1 => rfl
  | case2 c => exact absurd h (by simp [fromHex])
  | case3 high low rest =>
    rw [fromHex] at h
    obtain ⟨_, -, h⟩ := Option.bind_eq_some_iff.mp h
    obtain ⟨_, -, h⟩ := Option.bind_eq_some_iff.mp h
    obtain ⟨_, -, h⟩ := Option.bind_eq_some_iff.mp h
    exact absurd (Option.some.inj h) (List.cons_ne_nil _ _)

def hexDigits (octet : UInt8) : List Char :=
  [(octet.toNat / 16).digitChar, (octet.toNat % 16).digitChar]

theorem hexValue_digitChar {n : ℕ} (h : n < 16) : hexValue n.digitChar = some n := by
  have hall : ∀ m < 16, hexValue m.digitChar = some m := by decide
  exact hall n h

theorem hexDigits_ne (octet : UInt8) : ∀ c ∈ hexDigits octet, c ≠ ',' ∧ c ≠ ' ' ∧ c ≠ '\n' := by
  have hall : ∀ n < 16, n.digitChar ≠ ',' ∧ n.digitChar ≠ ' ' ∧ n.digitChar ≠ '\n' := by decide
  have hbelow : octet.toNat < 256 := octet.toNat_lt
  rw [hexDigits, List.forall_mem_cons, List.forall_mem_singleton]
  exact ⟨hall _ (by omega), hall _ (by omega)⟩

/-! ## Items -/

def item (octet : UInt8) : List Char := '0' :: 'x' :: hexDigits octet

def readItem : List Char → Option UInt8
  | ['0', 'x', high, low] => do
    let h ← hexValue high
    let l ← hexValue low
    some (UInt8.ofNat (16 * h + l))
  | _ => none

theorem readItem_item (octet : UInt8) : readItem (item octet) = some octet := by
  have hbelow : octet.toNat < 256 := octet.toNat_lt
  have hhigh := hexValue_digitChar (n := octet.toNat / 16) (by omega)
  have hlow := hexValue_digitChar (n := octet.toNat % 16) (by omega)
  change (do
    let h ← hexValue (octet.toNat / 16).digitChar
    let l ← hexValue (octet.toNat % 16).digitChar
    some (UInt8.ofNat (16 * h + l))) = some octet
  rw [hhigh, hlow]
  change some (UInt8.ofNat (16 * (octet.toNat / 16) + octet.toNat % 16)) = some octet
  rw [Nat.div_add_mod, UInt8.ofNat_toNat]

theorem item_ne (octet : UInt8) : ∀ c ∈ item octet, c ≠ ',' ∧ c ≠ ' ' ∧ c ≠ '\n' := by
  rw [item, List.forall_mem_cons, List.forall_mem_cons]
  exact ⟨by decide, by decide, hexDigits_ne octet⟩

/-- The items between the commas of an initializer. -/
def readItems (body : List Char) : Option (List UInt8) :=
  ((body.filter (· ≠ ' ')).splitOn ',').mapM readItem

/-! ## Rows -/

/-- Pieces of at most `width` items; `n` bounds their number. -/
def chunks {α : Type*} (width : ℕ) : ℕ → List α → List (List α)
  | 0, _ => []
  | _ + 1, [] => []
  | n + 1, item :: items =>
    (item :: items).take width :: chunks width n ((item :: items).drop width)

theorem flatten_chunks {α : Type*} {width : ℕ} (hwidth : 0 < width) {n : ℕ} {items : List α}
    (h : items.length ≤ n) : (chunks width n items).flatten = items := by
  induction n generalizing items with
  | zero => rw [List.length_eq_zero_iff.mp (Nat.le_zero.mp h)]; rfl
  | succ n ih =>
    cases items with
    | nil => rfl
    | cons item items =>
      have hrest : ((item :: items).drop width).length ≤ n := by
        rw [List.length_drop]
        rw [List.length_cons] at h ⊢
        omega
      rw [chunks, List.flatten_cons, ih hrest, List.take_append_drop]

theorem ne_nil_of_mem_chunks {α : Type*} {width : ℕ} (hwidth : 0 < width) {n : ℕ} {items : List α} :
    ∀ row ∈ chunks width n items, row ≠ [] := by
  induction n generalizing items with
  | zero => exact List.forall_mem_nil _
  | succ n ih =>
    cases items with
    | nil => exact List.forall_mem_nil _
    | cons item items =>
      obtain ⟨width, rfl⟩ := Nat.exists_eq_add_one.mpr hwidth
      rw [chunks, List.forall_mem_cons]
      exact ⟨List.cons_ne_nil _ _, ih⟩

/-- The items of a row with a comma and a blank between them. -/
def rowText (indent : List Char) (row : List UInt8) : List Char :=
  indent ++ [',', ' '].intercalate (row.map item)

/-- The rows as lines: all but the last one end with a comma. -/
def rowLines (indent : List Char) : List (List UInt8) → List (List Char)
  | [] => []
  | [row] => [rowText indent row]
  | row :: rows => (rowText indent row ++ [',']) :: rowLines indent rows

section Rows

variable {indent : List Char} (hindent : ∀ c ∈ indent, c = ' ')

theorem filter_item (octet : UInt8) : (item octet).filter (· ≠ ' ') = item octet :=
  List.filter_eq_self.mpr fun c hc ↦ decide_eq_true (item_ne octet c hc).2.1

theorem filter_items (row : List UInt8) :
    ([',', ' '].intercalate (row.map item)).filter (· ≠ ' ') =
      [','].intercalate (row.map item) := by
  induction row with
  | nil => rfl
  | cons octet row ih =>
    cases row with
    | nil => simpa [List.intercalate] using filter_item octet
    | cons next row =>
      have hblank : [',', ' '].filter (· ≠ ' ') = [','] := rfl
      rw [List.map_cons, List.map_cons, List.intercalate_cons_cons, List.intercalate_cons_cons,
        ← List.map_cons, List.filter_append, List.filter_append, ih, filter_item, hblank]

include hindent

theorem filter_rowText (row : List UInt8) :
    (rowText indent row).filter (· ≠ ' ') = [','].intercalate (row.map item) := by
  have hnone : indent.filter (· ≠ ' ') = [] :=
    List.filter_eq_nil_iff.mpr fun c hc ↦ by simp [hindent c hc]
  rw [rowText, List.filter_append, hnone, filter_items, List.nil_append]

/-- Without blanks the rows are all items with commas between them. -/
theorem filter_rowLines {rows : List (List UInt8)} (hrows : ∀ row ∈ rows, row ≠ []) :
    (rowLines indent rows).flatten.filter (· ≠ ' ') =
      [','].intercalate (rows.flatten.map item) := by
  induction rows with
  | nil => rfl
  | cons row rows ih =>
    rw [List.forall_mem_cons] at hrows
    cases rows with
    | nil =>
      rw [rowLines, List.flatten_singleton, List.flatten_singleton, filter_rowText hindent]
    | cons next rows =>
      have hne : (next :: rows).flatten.map item ≠ [] := by
        rw [Ne, List.map_eq_nil_iff, List.flatten_eq_nil_iff]
        exact fun h ↦ hrows.2 next List.mem_cons_self (h next List.mem_cons_self)
      have hcomma : [','].filter (· ≠ ' ') = [','] := rfl
      have hitems : (row :: next :: rows).flatten.map item =
          row.map item ++ (next :: rows).flatten.map item := List.map_append
      rw [rowLines, List.flatten_cons, List.filter_append, List.filter_append,
        filter_rowText hindent, ih hrows.2, hcomma, hitems,
        intercalate_append ',' (mt List.map_eq_nil_iff.mp hrows.1) hne, List.append_assoc,
        List.singleton_append]
      exact List.cons_ne_nil _ _

end Rows

theorem readItems_intercalate {octets : List UInt8} (hne : octets ≠ []) {body : List Char}
    (h : body.filter (· ≠ ' ') = [','].intercalate (octets.map item)) :
    readItems body = some octets := by
  have hsplit : ([','].intercalate (octets.map item)).splitOn ',' = octets.map item := by
    apply List.splitOn_intercalate
    · intro text htext hmem
      obtain ⟨octet, -, rfl⟩ := List.mem_map.mp htext
      exact (item_ne octet _ hmem).1 rfl
    · exact mt List.map_eq_nil_iff.mp hne
  rw [readItems, h, hsplit]
  clear h hsplit hne
  induction octets with
  | nil => rfl
  | cons octet octets ih => rw [List.map_cons, List.mapM_cons, readItem_item, ih]; rfl

/-! ## Arrays -/

/-- The lines of an array, from its declaration up to the bracket. -/
def arrayLines (declaration indent : List Char) (width : ℕ) (octets : List UInt8) :
    List (List Char) :=
  (declaration ++ Nat.toDigits 10 octets.length ++ "] = \x7b".toList) ::
    rowLines indent (chunks width octets.length octets) ++ ["\x7d;".toList]

/-- The octets of the array with a declaration. -/
def readArray (declaration text : List Char) : Option (List UInt8) :=
  match (text.splitOn '\n').dropWhile fun line ↦ !declaration.isPrefixOf line with
  | [] => none
  | first :: rest => do
    let size := (first.drop declaration.length).takeWhile (· ≠ ']')
    let octets ← readItems (rest.takeWhile (· ≠ "\x7d;".toList)).flatten
    if size = Nat.toDigits 10 octets.length then some octets else none

theorem notMem_rowText {indent : List Char} (hindent : '\n' ∉ indent) (row : List UInt8) :
    '\n' ∉ rowText indent row := by
  rw [rowText, List.mem_append, not_or]
  refine ⟨hindent, ?_⟩
  induction row with
  | nil => exact List.not_mem_nil
  | cons octet row ih =>
    have hitem : '\n' ∉ item octet := fun hmem ↦ (item_ne octet _ hmem).2.2 rfl
    cases row with
    | nil => simpa [List.intercalate] using hitem
    | cons next row =>
      rw [List.map_cons, List.map_cons, List.intercalate_cons_cons, ← List.map_cons,
        List.mem_append, List.mem_append, not_or, not_or]
      exact ⟨⟨hitem, by decide⟩, ih⟩

theorem toDigits_ne {n : ℕ} {c : Char} (hc : c ∈ Nat.toDigits 10 n) : c ≠ ']' ∧ c ≠ '\n' := by
  have hdigit := Nat.isDigit_of_mem_toDigits (by decide) (by decide) hc
  constructor <;> rintro rfl <;> exact absurd hdigit (by decide)

theorem mem_rowLines {indent : List Char} {rows : List (List UInt8)} {line : List Char}
    (h : line ∈ rowLines indent rows) :
    ∃ row, line = rowText indent row ∨ line = rowText indent row ++ [','] := by
  induction rows with
  | nil => exact absurd h List.not_mem_nil
  | cons row rows ih =>
    cases rows with
    | nil => exact ⟨row, Or.inl (List.mem_singleton.mp h)⟩
    | cons next rows =>
      rcases List.mem_cons.mp h with rfl | hmem
      · exact ⟨row, Or.inr rfl⟩
      · exact ih hmem

theorem rowLines_spec {indent : List Char} (hindent : ∀ c ∈ indent, c = ' ') (hne : indent ≠ [])
    {rows : List (List UInt8)} :
    ∀ line ∈ rowLines indent rows, '\n' ∉ line ∧ line ≠ "\x7d;".toList := by
  have hnewline : '\n' ∉ indent := fun hmem ↦ absurd (hindent _ hmem) (by decide)
  obtain ⟨c, more, rfl⟩ := List.exists_cons_of_ne_nil hne
  obtain rfl : c = ' ' := hindent c List.mem_cons_self
  intro line hline
  obtain ⟨row, rfl | rfl⟩ := mem_rowLines hline
  · exact ⟨notMem_rowText hnewline row, fun heq ↦ absurd (List.cons.inj heq).1 (by decide)⟩
  · refine ⟨?_, fun heq ↦ absurd (List.cons.inj heq).1 (by decide)⟩
    rw [List.mem_append, not_or]
    exact ⟨notMem_rowText hnewline row, by decide⟩

theorem unlines_rowLines (indent : List Char) {rows : List (List UInt8)} (hrows : rows ≠ []) :
    unlines '\n' (rowLines indent rows) =
      [',', '\n'].intercalate (rows.map (rowText indent)) ++ ['\n'] := by
  induction rows with
  | nil => exact absurd rfl hrows
  | cons row rows ih =>
    cases rows with
    | nil => simp [rowLines, List.intercalate]
    | cons next rows =>
      rw [rowLines, unlines_cons, ih (List.cons_ne_nil _ _)]
      · simp only [List.map_cons, List.intercalate_cons_cons, List.append_assoc, List.cons_append,
          List.nil_append]
      · exact List.cons_ne_nil _ _

theorem chunks_ne_nil {α : Type*} (width : ℕ) {items : List α} (hitems : items ≠ []) :
    chunks width items.length items ≠ [] := by
  cases items with
  | nil => exact absurd rfl hitems
  | cons item items => exact List.cons_ne_nil _ _

theorem unlines_append (first second : List (List Char)) :
    unlines '\n' (first ++ second) = unlines '\n' first ++ unlines '\n' second :=
  List.flatMap_append

/-- The text of an array that is written in one piece. -/
theorem unlines_arrayLines (declaration indent : List Char) (width : ℕ) {octets : List UInt8}
    (hoctets : octets ≠ []) :
    unlines '\n' (arrayLines declaration indent width octets) =
      declaration ++ Nat.toDigits 10 octets.length ++ "] = \x7b\n".toList ++
        [',', '\n'].intercalate ((chunks width octets.length octets).map (rowText indent)) ++
        "\n\x7d;\n".toList := by
  rw [arrayLines, unlines_append, unlines_cons,
    unlines_rowLines indent (chunks_ne_nil width hoctets)]
  simp [unlines]

theorem notMem_arrayLines {declaration indent : List Char} {width : ℕ}
    (hindent : ∀ c ∈ indent, c = ' ') (hne : indent ≠ []) (hdeclaration : '\n' ∉ declaration)
    {octets : List UInt8} :
    ∀ line ∈ arrayLines declaration indent width octets, '\n' ∉ line := by
  rw [arrayLines, List.cons_append, List.forall_mem_cons, List.forall_mem_append,
    List.forall_mem_singleton]
  refine ⟨?_, fun line hline ↦ (rowLines_spec hindent hne line hline).1, by decide⟩
  rw [List.mem_append, List.mem_append, not_or, not_or]
  exact ⟨⟨hdeclaration, fun hmem ↦ (toDigits_ne hmem).2 rfl⟩, by decide⟩

/-- The lines of an array do not start with another declaration. -/
theorem arrayLines_skipped {declaration other indent : List Char} {width : ℕ}
    (hindent : ∀ c ∈ indent, c = ' ') (hne : indent ≠ []) (hother : ¬other <+: declaration)
    (hlength : other.length ≤ declaration.length)
    (hfirst : ∃ c ∈ other.head?, c ≠ ' ' ∧ c ≠ '\x7d') {octets : List UInt8} :
    ∀ line ∈ arrayLines declaration indent width octets, ¬other <+: line := by
  obtain ⟨c, hhead, hblank, hbracket⟩ := hfirst
  obtain ⟨more, rfl⟩ := List.head?_eq_some_iff.mp hhead
  rw [arrayLines, List.cons_append, List.forall_mem_cons, List.forall_mem_append,
    List.forall_mem_singleton]
  refine ⟨?_, ?_, fun hprefix ↦ hbracket (List.cons_prefix_cons.mp hprefix).1⟩
  · intro hprefix
    rw [List.append_assoc] at hprefix
    exact hother (List.prefix_of_prefix_length_le hprefix (List.prefix_append _ _) hlength)
  · intro line hline hprefix
    obtain ⟨blank, rest, rfl⟩ := List.exists_cons_of_ne_nil hne
    have hhead : blank = ' ' := hindent _ List.mem_cons_self
    obtain ⟨row, rfl | rfl⟩ := mem_rowLines hline
    · exact hblank ((List.cons_prefix_cons.mp hprefix).1.trans hhead)
    · exact hblank ((List.cons_prefix_cons.mp hprefix).1.trans hhead)

/-- An array that is declared once is read back, whatever stands around it. -/
theorem readArray_arrayLines {declaration indent : List Char} {width : ℕ} (hwidth : 0 < width)
    (hindent : ∀ c ∈ indent, c = ' ') (hne : indent ≠ []) (hdeclaration : '\n' ∉ declaration)
    {octets : List UInt8} (hoctets : octets ≠ []) {before after : List (List Char)}
    (hbefore : ∀ line ∈ before, '\n' ∉ line ∧ ¬declaration <+: line)
    (hafter : ∀ line ∈ after, '\n' ∉ line) :
    readArray declaration
      (unlines '\n' (before ++ arrayLines declaration indent width octets ++ after)) =
        some octets := by
  have hrows : ∀ line ∈ rowLines indent (chunks width octets.length octets),
      '\n' ∉ line ∧ line ≠ "\x7d;".toList := rowLines_spec hindent hne
  have hflatten := flatten_chunks hwidth (le_refl octets.length)
  have hlines : ∀ line ∈ before ++ arrayLines declaration indent width octets ++ after,
      '\n' ∉ line := by
    rw [List.forall_mem_append, List.forall_mem_append]
    exact ⟨⟨fun line hline ↦ (hbefore line hline).1,
      notMem_arrayLines hindent hne hdeclaration⟩, hafter⟩
  have hskip : ∀ line ∈ before, (!declaration.isPrefixOf line) = true := by
    intro line hline
    rw [Bool.not_eq_true', Bool.eq_false_iff, Ne, List.isPrefixOf_iff_prefix]
    exact (hbefore line hline).2
  have hstop : ∀ rest : List Char, ¬(!declaration.isPrefixOf (declaration ++ rest)) = true := by
    intro rest
    rw [Bool.not_eq_true', Bool.not_eq_false, List.isPrefixOf_iff_prefix]
    exact List.prefix_append _ _
  have hbody : ∀ line ∈ rowLines indent (chunks width octets.length octets),
      decide (line ≠ "\x7d;".toList) = true :=
    fun line hline ↦ decide_eq_true (hrows line hline).2
  have hitems : readItems (rowLines indent (chunks width octets.length octets)).flatten
      = some octets := by
    apply readItems_intercalate hoctets
    rw [filter_rowLines hindent (ne_nil_of_mem_chunks hwidth), hflatten]
  have hsize : ((declaration ++ (Nat.toDigits 10 octets.length ++ "] = \x7b".toList)).drop
      declaration.length).takeWhile (· ≠ ']') = Nat.toDigits 10 octets.length := by
    rw [List.drop_left, List.takeWhile_append_of_pos fun c hc ↦ decide_eq_true (toDigits_ne hc).1]
    exact List.append_nil _
  unfold readArray
  rw [Pem.splitOn_unlines hlines, arrayLines]
  simp only [List.append_assoc, List.cons_append]
  rw [List.dropWhile_append_of_pos hskip,
    List.dropWhile_cons_of_neg (p := fun line ↦ !declaration.isPrefixOf line) (hstop _)]
  dsimp only
  rw [List.takeWhile_append_of_pos hbody, List.takeWhile_cons_of_neg (by simp), List.append_nil,
    hitems, hsize]
  exact if_pos rfl

end PqMqtt.CArray
