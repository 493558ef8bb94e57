import PqMqtt.Analysis.PyText

/-!
# Reading attempt logs

`normalize`, `parse` and `incomplete_attempts` of `analyze_hs_csv.py`.  A Python dictionary is
the finite map it stands for, and its items where their order matters.  `normalize` reads every
numeric field of a row once and no field occurs twice in its two lists, so the conversions read
the texts of the row.
-/

namespace PqMqtt.Analysis

open Delimited

/-! ## Dictionaries -/

abbrev Dict (α : Type) := String → Option α

namespace Dict

variable {α β : Type}

def empty : Dict α := fun _ ↦ none

def set (dict : Dict α) (key : String) (value : α) : Dict α :=
  fun other ↦ if other = key then some value else dict other

def setdefault (dict : Dict α) (key : String) (value : α) : Dict α :=
  if (dict key).isSome then dict else dict.set key value

/-- `dict(pairs)`; a later pair replaces an earlier one with its key. -/
def ofPairs (pairs : List (String × α)) : Dict α :=
  pairs.foldl (fun dict pair ↦ dict.set pair.1 pair.2) empty

@[simp]
theorem set_self (dict : Dict α) (key : String) (value : α) :
    dict.set key value key = some value := if_pos rfl

theorem set_of_ne (dict : Dict α) {key other : String} (value : α) (h : other ≠ key) :
    dict.set key value other = dict other := if_neg h

/-- `setdefault` for one pair after the other. -/
def setdefaults (dict : Dict α) (pairs : List (String × α)) : Dict α :=
  pairs.foldl (fun dict pair ↦ dict.setdefault pair.1 pair.2) dict

/-- Defaults of keys that are present change nothing. -/
theorem setdefaults_of_isSome {dict : Dict α} {pairs : List (String × α)}
    (h : ∀ key ∈ pairs.map Prod.fst, (dict key).isSome = true) : dict.setdefaults pairs = dict := by
  induction pairs with
  | nil => rfl
  | cons pair pairs ih =>
    rw [List.map_cons, List.forall_mem_cons] at h
    have hfirst : dict.setdefault pair.1 pair.2 = dict := if_pos h.1
    rw [setdefaults, List.foldl_cons, hfirst]
    exact ih h.2

/-- What holds of the entries and of the defaults holds after setting the defaults. -/
theorem setdefaults_forall {p : String → α → Prop} {dict : Dict α} {pairs : List (String × α)}
    (hdict : ∀ key value, dict key = some value → p key value)
    (hpairs : ∀ pair ∈ pairs, p pair.1 pair.2) :
    ∀ key value, dict.setdefaults pairs key = some value → p key value := by
  induction pairs generalizing dict with
  | nil => exact hdict
  | cons pair pairs ih =>
    rw [List.forall_mem_cons] at hpairs
    apply ih _ hpairs.2
    intro key value hvalue
    dsimp only [setdefault] at hvalue
    split at hvalue
    · exact hdict key value hvalue
    rcases eq_or_ne key pair.1 with rfl | hne
    · rw [set_self] at hvalue
      exact Option.some.inj hvalue ▸ hpairs.1
    · rw [set_of_ne dict pair.2 hne] at hvalue
      exact hdict key value hvalue

/-- Defaults keep the entries. -/
theorem setdefaults_of_eq_some {dict : Dict α} {key : String} {value : α}
    (h : dict key = some value) (pairs : List (String × α)) :
    dict.setdefaults pairs key = some value := by
  induction pairs generalizing dict with
  | nil => exact h
  | cons pair pairs ih =>
    apply ih
    dsimp only [setdefault]
    split
    · exact h
    · rename_i habsent
      have hne : key ≠ pair.1 := by
        rintro rfl
        simp [h] at habsent
      rw [set_of_ne dict pair.2 hne, h]

/-- A default is used for a key that is absent, when it is the first of its key. -/
theorem setdefaults_cons_of_eq_none {dict : Dict α} {key : String} (h : dict key = none)
    (value : α) (pairs : List (String × α)) :
    dict.setdefaults ((key, value) :: pairs) key = some value := by
  have hfirst : dict.setdefault key value = dict.set key value := if_neg (by simp [h])
  rw [setdefaults, List.foldl_cons, hfirst]
  exact setdefaults_of_eq_some (set_self dict key value) pairs

theorem ofPairs_concat (pairs : List (String × α)) (pair : String × α) :
    ofPairs (pairs ++ [pair]) = (ofPairs pairs).set pair.1 pair.2 := by
  simp [ofPairs]

/-- What holds of the pairs holds of the entries. -/
theorem ofPairs_forall {p : String → α → Prop} {pairs : List (String × α)}
    (h : ∀ pair ∈ pairs, p pair.1 pair.2) :
    ∀ key value, ofPairs pairs key = some value → p key value := by
  induction pairs using List.reverseRecOn with
  | nil => simp [ofPairs, empty]
  | append_singleton pairs pair ih =>
    intro key value hvalue
    rw [ofPairs_concat] at hvalue
    rcases eq_or_ne key pair.1 with rfl | hne
    · rw [set_self] at hvalue
      exact Option.some.inj hvalue ▸ h pair (by simp)
    · rw [set_of_ne _ _ hne] at hvalue
      exact ih (fun other hmem ↦ h other (by simp [hmem])) key value hvalue

theorem ofPairs_eq_none {pairs : List (String × α)} {key : String}
    (h : ∀ pair ∈ pairs, pair.1 ≠ key) : ofPairs pairs key = none := by
  cases hvalue : ofPairs pairs key with
  | none => rfl
  | some value =>
    exact absurd rfl (ofPairs_forall (p := fun other _ ↦ other ≠ key) h key value hvalue)

theorem ofPairs_map (f : α → β) (pairs : List (String × α)) :
    ofPairs (pairs.map fun pair ↦ (pair.1, f pair.2)) = fun key ↦ (ofPairs pairs key).map f := by
  induction pairs using List.reverseRecOn with
  | nil => rfl
  | append_singleton pairs pair ih =>
    funext key
    rw [List.map_append, List.map_singleton, ofPairs_concat, ofPairs_concat, ih]
    rcases eq_or_ne key pair.1 with rfl | hne
    · simp
    · rw [set_of_ne _ _ hne, set_of_ne _ _ hne]

/-- With distinct keys every pair is an entry. -/
theorem ofPairs_eq_some {pairs : List (String × α)} (hnodup : (pairs.map Prod.fst).Nodup)
    {key : String} {value : α} (h : (key, value) ∈ pairs) : ofPairs pairs key = some value := by
  induction pairs using List.reverseRecOn with
  | nil => simp at h
  | append_singleton pairs pair ih =>
    rw [List.map_append, List.map_singleton, List.nodup_append] at hnodup
    rw [ofPairs_concat]
    rcases List.mem_append.mp h with hearlier | hlast
    · have hne : key ≠ pair.1 :=
        hnodup.2.2 key (List.mem_map_of_mem (f := Prod.fst) hearlier) pair.1 (by simp)
      rw [set_of_ne _ _ hne]
      exact ih hnodup.1 hearlier
    · obtain rfl := List.mem_singleton.mp hlast
      exact set_self _ _ _

/-- `dict(pairs).items()`: a key stands where it occurs first, with the value of its last pair. -/
def items (pairs : List (String × α)) : List (String × α) :=
  (pairs.map Prod.fst).eraseDups.filterMap fun key ↦ (ofPairs pairs key).map (key, ·)

theorem mem_of_mem_items {pairs : List (String × α)} : ∀ pair ∈ items pairs, pair ∈ pairs := by
  intro pair hpair
  obtain ⟨key, -, hkey⟩ := List.mem_filterMap.mp hpair
  obtain ⟨value, hvalue, rfl⟩ := Option.map_eq_some_iff.mp hkey
  exact ofPairs_forall (p := fun key value ↦ (key, value) ∈ pairs) (fun _ hmem ↦ hmem) key value
    hvalue

theorem eraseDups_of_nodup {keys : List String} (h : keys.Nodup) : keys.eraseDups = keys := by
  induction keys with
  | nil => rfl
  | cons key keys ih =>
    rw [List.nodup_cons] at h
    have hfilter : keys.filter (fun other ↦ !other == key) = keys := by
      rw [List.filter_eq_self]
      rintro other hother
      have hne : other ≠ key := by
        rintro rfl
        exact h.1 hother
      simpa using hne
    rw [List.eraseDups_cons, hfilter, ih h.2]

/-- Pairs with distinct keys are the items of their dictionary. -/
theorem items_of_nodup {pairs : List (String × α)} (h : (pairs.map Prod.fst).Nodup) :
    items pairs = pairs := by
  rw [items, eraseDups_of_nodup h, List.filterMap_map]
  have hitem : ∀ pair ∈ pairs,
      ((fun key ↦ (ofPairs pairs key).map (key, ·)) ∘ Prod.fst) pair = some pair := by
    intro pair hpair
    have hvalue : ofPairs pairs pair.1 = some pair.2 := ofPairs_eq_some h hpair
    simp only [Function.comp_apply, hvalue, Option.map_some]
  rw [List.filterMap_congr hitem, List.filterMap_some]

end Dict

/-- The values of a normalized row. -/
inductive Value where
  | str (text : Text)
  | float (value : Binary64.Double)
  | int (value : ℤ)
deriving DecidableEq

/-! ## normalize -/

/-- `LATENCY_FIELDS` -/
def latencyFields : List String :=
  ["dns_ms", "tcp_ms", "tls_ms", "mqtt_ms", "total_ms", "crypto_ms", "net_wait_ms"]

/-- `INTEGER_FIELDS` -/
def integerFields : List String :=
  ["campaign", "run", "start_epoch_ms", "tcp_start_epoch_ms", "success", "error_code", "timeout",
    "heap_capacity_bytes", "heap_in_use_before_bytes", "heap_peak_in_use_bytes",
    "heap_peak_delta_bytes", "heap_in_use_after_bytes", "free_before_bytes",
    "free_before_tls_bytes", "min_free_bytes", "free_after_bytes",
    "maximum_allocation_request_bytes", "allocation_calls", "free_calls", "failed_allocations",
    "stack_capacity_bytes", "stack_high_water_bytes", "stack_unused_bytes",
    "stack_guard_corrupted", "alloc_failed", "alloc_failure_bytes", "hs_tx_bytes", "hs_rx_bytes",
    "hs_tx_writes", "hs_rx_reads", "total_tx_bytes", "total_rx_bytes"]

/-- The integer fields that `normalize` reads with `parse_bool`. -/
def flagFields : List String := ["success", "timeout", "stack_guard_corrupted", "alloc_failed"]

/-- `LEGACY_FIELDS_17` -/
def legacyFields17 : List String :=
  ["record", "scheme", "board", "run", "dns_ms", "tcp_ms", "tls_ms", "mqtt_ms", "total_ms",
    "crypto_ms", "net_wait_ms", "hs_tx_bytes", "hs_rx_bytes", "hs_tx_writes", "hs_rx_reads",
    "total_tx_bytes", "total_rx_bytes"]

/-- `LEGACY_FIELDS_13` -/
def legacyFields13 : List String :=
  ["record", "scheme", "board", "run", "dns_ms", "tcp_ms", "tls_ms", "crypto_ms", "net_wait_ms",
    "hs_tx_bytes", "hs_rx_bytes", "hs_tx_writes", "hs_rx_reads"]

/-- `os.path.basename` -/
def basename (path : Text) : Text := path.rtakeWhile (· ≠ '/')

/-- The path of a file, whose name has at most the 255 characters that file systems allow. -/
structure LogPath where
  text : Text
  basename_le : (basename text).length ≤ 255

/-- A file that is read. -/
structure Capture where
  path : LogPath
  content : Text

/-- `aliases.get(key, key)` -/
def aliases (key : String) : String :=
  if key = "iter" then "run"
  else if key = "mqtt_connect_ms" then "mqtt_ms"
  else if key = "mqtts_total_connect_ms" then "total_ms"
  else key

def parseBool (raw : Text) : ℤ :=
  if (strip raw).map Char.toLower ∈ ["1".toList, "true".toList, "yes".toList] then 1 else 0

/-- The defaults of a row, in the order in which they are set. -/
def defaults (path : Text) (legacy : Bool) : List (String × Text) :=
  [("campaign", if legacy then basename path else "0".toList), ("success", "1".toList),
    ("failure_stage", "none".toList), ("error_code", "0".toList), ("timeout", "0".toList),
    ("alloc_failed", "0".toList), ("alloc_failure_stage", "none".toList)]

/-- The texts of a row after the renaming of old columns and the defaults. -/
def textsOf (raw : List (String × Text)) (path : Text) (legacy : Bool) : Dict Text :=
  (Dict.ofPairs ((Dict.items raw).map fun pair ↦ (aliases pair.1, pair.2))).setdefaults
    (defaults path legacy)

/-- `row.get(field, "0") or 0`, whose two zeros are converted alike. -/
def numericText (texts : Dict Text) (field : String) : Text :=
  let text := (texts field).getD "0".toList
  if text = [] then "0".toList else text

/-- The conversion of a field of `LATENCY_FIELDS`. -/
def latencyValue (texts : Dict Text) (field : String) : Except PyError Value :=
  (pyFloat (numericText texts field)).map Value.float

/-- The conversion of a field of `INTEGER_FIELDS`. -/
def integerValue (texts : Dict Text) (field : String) : Except PyError Value :=
  let value := numericText texts field
  if field ∈ flagFields then .ok (.int (parseBool value))
  else if field = "campaign" ∧ isDigits (value.dropWhile (· = '-')) = false then .ok (.str value)
  else do
    let x ← pyFloat value
    let n ← intOfFloat x
    .ok (.int n)

/-- Set every field of a list to its converted value. -/
def convertFields (convert : String → Except PyError Value) (fields : List String)
    (row : Dict Value) : Except PyError (Dict Value) :=
  fields.foldlM (fun row field ↦ do
    let value ← convert field
    .ok (row.set field value)) row

/-- The fields are converted when every conversion succeeds. -/
theorem convertFields_eq_ok_iff (convert : String → Except PyError Value) (fields : List String)
    (row result : Dict Value) :
    convertFields convert fields row = .ok result ↔
      (∀ field ∈ fields, ∃ value, convert field = .ok value) ∧
      result = fun key ↦ if key ∈ fields then (convert key).toOption else row key := by
  induction fields generalizing row with
  | nil => simp [convertFields, pure, Except.pure, eq_comm]
  | cons field fields ih =>
    have hstep : convertFields convert (field :: fields) row
        = (convert field >>= fun value ↦ convertFields convert fields (row.set field value)) := by
      simp only [convertFields, List.foldlM_cons, bind_assoc]
      rfl
    rw [hstep]
    cases hvalue : convert field with
    | error error => simp [bind, Except.bind, hvalue]
    | ok value =>
      simp only [bind, Except.bind, ih, List.forall_mem_cons, hvalue]
      have hsame : (fun key ↦ if key ∈ fields then (convert key).toOption
            else row.set field value key)
          = fun key ↦ if key ∈ field :: fields then (convert key).toOption else row key := by
        funext key
        rcases eq_or_ne key field with rfl | hne
        · simp [hvalue, Except.toOption]
        · simp [hne, Dict.set_of_ne]
      rw [hsame]
      simp

/-- The first conversion that fails decides the error. -/
theorem convertFields_eq_error_iff {convert : String → Except PyError Value}
    {fields : List String} {error : PyError} (row : Dict Value) :
    convertFields convert fields row = .error error ↔
      ∃ earlier field later, fields = earlier ++ field :: later ∧
        (∀ field ∈ earlier, ∃ value, convert field = .ok value) ∧
        convert field = .error error := by
  induction fields generalizing row with
  | nil => simp [convertFields, pure, Except.pure]
  | cons first fields ih =>
    have hstep : convertFields convert (first :: fields) row
        = (convert first >>= fun value ↦ convertFields convert fields (row.set first value)) := by
      simp only [convertFields, List.foldlM_cons, bind_assoc]
      rfl
    rw [hstep, bind_eq_error_iff]
    simp only [ih]
    constructor
    · rintro (hfirst | ⟨value, hvalue, earlier, field, later, rfl, hearlier, hfield⟩)
      · exact ⟨[], first, fields, rfl, by simp, hfirst⟩
      · refine ⟨first :: earlier, field, later, rfl, ?_, hfield⟩
        exact List.forall_mem_cons.mpr ⟨⟨value, hvalue⟩, hearlier⟩
    · rintro ⟨earlier, field, later, hsplit, hearlier, hfield⟩
      cases earlier with
      | nil =>
        obtain ⟨rfl, -⟩ := List.cons.inj hsplit
        exact Or.inl hfield
      | cons name earlier =>
        obtain ⟨rfl, rfl⟩ := List.cons.inj hsplit
        rw [List.forall_mem_cons] at hearlier
        obtain ⟨⟨value, hvalue⟩, hrest⟩ := hearlier
        exact Or.inr ⟨value, hvalue, earlier, field, later, rfl, hrest, hfield⟩

def normalize (raw : List (String × Text)) (path : Text) (legacy : Bool) :
    Except PyError (Dict Value) := do
  let texts := textsOf raw path legacy
  let row ← convertFields (latencyValue texts) latencyFields fun key ↦ (texts key).map Value.str
  let row ← convertFields (integerValue texts) integerFields row
  .ok ((row.set "legacy_success_only" (.int (if legacy then 1 else 0))).set "source_file"
    (.str path))

/-- The row of texts that can all be converted. -/
def normalizedRow (texts : Dict Text) (path : Text) (legacy : Bool) : Dict Value := fun key ↦
  if key = "source_file" then some (.str path)
  else if key = "legacy_success_only" then some (.int (if legacy then 1 else 0))
  else if key ∈ integerFields then (integerValue texts key).toOption
  else if key ∈ latencyFields then (latencyValue texts key).toOption
  else (texts key).map Value.str

theorem normalize_eq_ok_iff (raw : List (String × Text)) (path : Text) (legacy : Bool)
    (row : Dict Value) :
    normalize raw path legacy = .ok row ↔
      (∀ field ∈ latencyFields, ∃ value, latencyValue (textsOf raw path legacy) field = .ok value) ∧
      (∀ field ∈ integerFields, ∃ value, integerValue (textsOf raw path legacy) field = .ok value) ∧
      row = normalizedRow (textsOf raw path legacy) path legacy := by
  unfold normalize
  constructor
  · intro h
    obtain ⟨first, hfirst, h⟩ := bind_eq_ok_iff.mp h
    obtain ⟨second, hsecond, h⟩ := bind_eq_ok_iff.mp h
    obtain ⟨hlatency, rfl⟩ := (convertFields_eq_ok_iff ..).mp hfirst
    obtain ⟨hinteger, rfl⟩ := (convertFields_eq_ok_iff ..).mp hsecond
    exact ⟨hlatency, hinteger, (Except.ok.inj h).symm⟩
  · rintro ⟨hlatency, hinteger, rfl⟩
    apply bind_eq_ok_iff.mpr
    refine ⟨_, (convertFields_eq_ok_iff ..).mpr ⟨hlatency, rfl⟩, ?_⟩
    exact bind_eq_ok_iff.mpr ⟨_, (convertFields_eq_ok_iff ..).mpr ⟨hinteger, rfl⟩, rfl⟩

/-- The error of a row is that of its first field that cannot be converted. -/
theorem normalize_eq_error_iff (raw : List (String × Text)) (path : Text) (legacy : Bool)
    (error : PyError) :
    normalize raw path legacy = .error error ↔
      (∃ earlier field later, latencyFields = earlier ++ field :: later ∧
        (∀ field ∈ earlier,
          ∃ value, latencyValue (textsOf raw path legacy) field = .ok value) ∧
        latencyValue (textsOf raw path legacy) field = .error error) ∨
      (∀ field ∈ latencyFields,
        ∃ value, latencyValue (textsOf raw path legacy) field = .ok value) ∧
      ∃ earlier field later, integerFields = earlier ++ field :: later ∧
        (∀ field ∈ earlier,
          ∃ value, integerValue (textsOf raw path legacy) field = .ok value) ∧
        integerValue (textsOf raw path legacy) field = .error error := by
  rw [normalize, bind_eq_error_iff, convertFields_eq_error_iff]
  apply or_congr Iff.rfl
  constructor
  · rintro ⟨row, hrow, h⟩
    rcases bind_eq_error_iff.mp h with hfail | ⟨result, -, hcontra⟩
    · exact ⟨((convertFields_eq_ok_iff ..).mp hrow).1, (convertFields_eq_error_iff row).mp hfail⟩
    · cases hcontra
  · rintro ⟨hlatency, hfail⟩
    refine ⟨_, (convertFields_eq_ok_iff ..).mpr ⟨hlatency, rfl⟩, ?_⟩
    exact bind_eq_error_iff.mpr (Or.inl ((convertFields_eq_error_iff _).mpr hfail))

/-- A row is skipped only when the text of one of its numeric fields is no number. -/
theorem exists_of_normalize_eq_error {raw : List (String × Text)} {path : Text} {legacy : Bool}
    {error : PyError} (h : normalize raw path legacy = .error error) :
    (∃ field ∈ latencyFields, latencyValue (textsOf raw path legacy) field = .error error) ∨
      ∃ field ∈ integerFields, integerValue (textsOf raw path legacy) field = .error error := by
  rcases (normalize_eq_error_iff ..).mp h with
    ⟨earlier, field, later, hsplit, -, herror⟩ | ⟨-, earlier, field, later, hsplit, -, herror⟩
  · exact Or.inl ⟨field, by rw [hsplit]; simp, herror⟩
  · exact Or.inr ⟨field, by rw [hsplit]; simp, herror⟩

/-! ## parse -/

/-- `PREFIX` -/
def rowPrefix : Text := "csv_hs".toList ++ [',']

/-- `HEADER_PREFIX` -/
def headerPrefix : Text := "csv_hs_header".toList ++ [',']

/-- `START_PREFIX` -/
def startPrefix : Text := "csv_hs_start".toList ++ [',']

/-- The columns of a row by its number of fields, and whether it is a legacy row. -/
def layout (header : Option (List String)) (parts : List Text) :
    Option (List (String × Text) × Bool) :=
  if header.getD [] ≠ [] ∧ parts.length - 1 = (header.getD []).length then
    some ((header.getD []).zip parts.tail, false)
  else if parts.length = 17 then some (legacyFields17.zip parts, true)
  else if parts.length = 13 then some (legacyFields13.zip parts, true)
  else none

structure ParseState where
  header : Option (List String)
  rows : List (Dict Value)

/-- What `parse` does with the fields of a row line.  A malformed row and a row whose conversion
raises `ValueError` are skipped with a warning. -/
def parseRow (path : Text) (state : ParseState) (parts : List Text) : Except PyError ParseState :=
  match layout state.header parts with
  | none => .ok state
  | some (raw, legacy) =>
    match normalize raw path legacy with
    | .ok row => .ok { state with rows := state.rows ++ [row] }
    | .error .valueError => .ok state
    | .error error => .error error

theorem parseRow_of_valueError {path : Text} {state : ParseState} {parts : List Text}
    {raw : List (String × Text)} {legacy : Bool}
    (hlayout : layout state.header parts = some (raw, legacy))
    (h : normalize raw path legacy = .error .valueError) :
    parseRow path state parts = .ok state := by
  simp only [parseRow, hlayout, h]

/-- A row that is not skipped is added, unless it stops the loop. -/
theorem exists_of_parseRow_eq_ok {path : Text} {state result : ParseState} {parts : List Text}
    {raw : List (String × Text)} {legacy : Bool}
    (hlayout : layout state.header parts = some (raw, legacy))
    (hne : normalize raw path legacy ≠ .error .valueError)
    (h : parseRow path state parts = .ok result) :
    ∃ row ∈ result.rows, normalize raw path legacy = .ok row := by
  simp only [parseRow, hlayout] at h
  split at h
  · rename_i row hrow
    obtain rfl := Except.ok.inj h
    exact ⟨row, by simp, hrow⟩
  · rename_i herror
    exact absurd herror hne
  · cases h

/-- One line of the loop of `parse`. -/
def parseLine (path : Text) (state : ParseState) (rawLine : Text) : Except PyError ParseState :=
  let line := strip rawLine
  if headerPrefix <+: line then do
    let parts ← csvReader line
    .ok { state with header := some (parts.tail.map String.ofList) }
  else if ¬rowPrefix <+: line then .ok state
  else do
    let parts ← csvReader line
    parseRow path state parts

/-- The rows of one file. -/
def parseFile (rows : List (Dict Value)) (file : Capture) : Except PyError (List (Dict Value)) := do
  let state ← (readLines (universalNewlines file.content)).foldlM (parseLine file.path.text)
    ⟨none, rows⟩
  .ok state.rows

def parse (files : List Capture) : Except PyError (List (Dict Value)) := do
  let rows ← files.foldlM parseFile []
  if rows.isEmpty then .error .systemExit else .ok rows

theorem ne_nil_of_parse_eq_ok {files : List Capture} {rows : List (Dict Value)}
    (h : parse files = .ok rows) : rows ≠ [] := by
  obtain ⟨found, -, hfound⟩ := bind_eq_ok_iff.mp h
  split at hfound
  · cases hfound
  · rename_i hempty
    obtain rfl := Except.ok.inj hfound
    simpa using hempty

theorem mem_rows_of_parseRow {path : Text} {state result : ParseState} {parts : List Text}
    (h : parseRow path state parts = .ok result) : ∀ row ∈ state.rows, row ∈ result.rows := by
  intro row hrow
  unfold parseRow at h
  split at h
  · obtain rfl := Except.ok.inj h
    exact hrow
  split at h
  · obtain rfl := Except.ok.inj h
    exact List.mem_append_left _ hrow
  · obtain rfl := Except.ok.inj h
    exact hrow
  · cases h

/-- A line takes no row back. -/
theorem mem_rows_of_parseLine {path line : Text} {state result : ParseState}
    (h : parseLine path state line = .ok result) : ∀ row ∈ state.rows, row ∈ result.rows := by
  dsimp only [parseLine] at h
  split at h
  · obtain ⟨parts, -, h⟩ := bind_eq_ok_iff.mp h
    obtain rfl := Except.ok.inj h
    exact fun row hrow ↦ hrow
  split at h
  · obtain rfl := Except.ok.inj h
    exact fun row hrow ↦ hrow
  · obtain ⟨parts, -, h⟩ := bind_eq_ok_iff.mp h
    exact mem_rows_of_parseRow h

/-! ## incomplete_attempts -/

/-- `(scheme, board, campaign, run)` -/
structure Key where
  scheme : Text
  board : Text
  campaign : ℤ
  run : ℤ
deriving DecidableEq

/-- Tuples are compared by their first difference. -/
def Key.le (first second : Key) : Bool :=
  (compare first.scheme second.scheme |>.then (compare first.board second.board) |>.then
    (compare first.campaign second.campaign) |>.then (compare first.run second.run)).isLE

theorem Key.le_of_run_le {first second : Key} (hscheme : first.scheme = second.scheme)
    (hboard : first.board = second.board) (hcampaign : first.campaign = second.campaign)
    (hrun : first.run ≤ second.run) : first.le second = true := by
  rw [Key.le, hscheme, hboard, hcampaign, Std.compare_self, Std.compare_self, Std.compare_self]
  exact Std.isLE_compare.mpr hrun

/-- An entry of the report. -/
structure Start where
  scheme : Text
  board : Text
  campaign : ℤ
  run : ℤ
  startEpochMs : ℤ
  status : String
deriving DecidableEq

/-- `starts[key] = start` -/
def insertStart (starts : List (Key × Start)) (key : Key) (start : Start) : List (Key × Start) :=
  if starts.any (fun entry ↦ entry.1 = key) then
    starts.map fun entry ↦ if entry.1 = key then (key, start) else entry
  else starts ++ [(key, start)]

theorem map_fst_insertStart (starts : List (Key × Start)) (key : Key) (start : Start) :
    (insertStart starts key start).map Prod.fst =
      if key ∈ starts.map Prod.fst then starts.map Prod.fst
      else starts.map Prod.fst ++ [key] := by
  have hany : starts.any (fun entry ↦ entry.1 = key) = true ↔ key ∈ starts.map Prod.fst := by
    simp [List.any_eq_true]
  unfold insertStart
  simp only [hany]
  split
  · rw [List.map_map]
    apply List.map_congr_left
    intro entry _
    dsimp only [Function.comp_apply]
    split
    · rename_i hkey
      exact hkey.symm
    · rfl
  · simp

theorem mem_insertStart {starts : List (Key × Start)} {key : Key} {start : Start}
    {entry : Key × Start} (h : entry ∈ insertStart starts key start) :
    entry = (key, start) ∨ entry ∈ starts := by
  unfold insertStart at h
  split at h
  · obtain ⟨other, hmem, rfl⟩ := List.mem_map.mp h
    split
    · exact Or.inl rfl
    · exact Or.inr hmem
  · rcases List.mem_append.mp h with hmem | hlast
    · exact Or.inr hmem
    · exact Or.inl (List.mem_singleton.mp hlast)

/-- The starts after some entries have been set. -/
def insertStarts (starts entries : List (Key × Start)) : List (Key × Start) :=
  entries.foldl (fun starts entry ↦ insertStart starts entry.1 entry.2) starts

theorem insertStarts_concat (entries : List (Key × Start)) (last : Key × Start) :
    insertStarts [] (entries ++ [last]) = insertStart (insertStarts [] entries) last.1 last.2 := by
  simp [insertStarts]

theorem insertStarts_nodup (entries : List (Key × Start)) :
    ((insertStarts [] entries).map Prod.fst).Nodup := by
  induction entries using List.reverseRecOn with
  | nil => simp [insertStarts]
  | append_singleton entries last ih =>
    rw [insertStarts_concat, map_fst_insertStart]
    split
    · exact ih
    · rename_i hnew
      rw [← List.concat_eq_append]
      exact ih.concat hnew

theorem mem_of_mem_insertStarts {entries : List (Key × Start)} {entry : Key × Start}
    (h : entry ∈ insertStarts [] entries) : entry ∈ entries := by
  induction entries using List.reverseRecOn with
  | nil => simp [insertStarts] at h
  | append_singleton entries last ih =>
    rw [insertStarts_concat] at h
    rcases mem_insertStart h with rfl | hearlier
    · exact List.mem_append_right _ (List.mem_singleton.mpr rfl)
    · exact List.mem_append_left _ (ih hearlier)

/-- No key is lost. -/
theorem key_mem_insertStarts {entries : List (Key × Start)} {entry : Key × Start}
    (h : entry ∈ entries) : entry.1 ∈ (insertStarts [] entries).map Prod.fst := by
  induction entries using List.reverseRecOn with
  | nil => simp at h
  | append_singleton entries last ih =>
    rw [insertStarts_concat, map_fst_insertStart]
    rcases List.mem_append.mp h with hearlier | hlast
    · have hmem := ih hearlier
      split
      · exact hmem
      · exact List.mem_append_left _ hmem
    · obtain rfl := List.mem_singleton.mp hlast
      split
      · assumption
      · simp

/-- What `incomplete_attempts` does with the fields of a start line. -/
def addStart (starts : List (Key × Start)) : List Text → Except PyError (List (Key × Start))
  | [_, scheme, board, campaignText, runText, warmup, epochText] =>
    if parseBool warmup = 1 then .ok starts
    else do
      let campaign ← pyInt campaignText
      let run ← pyInt runText
      let epoch ← pyInt epochText
      .ok (insertStart starts ⟨scheme, board, campaign, run⟩
        ⟨scheme, board, campaign, run, epoch, "hang_reset_or_truncated_capture"⟩)
  | _ => .ok starts

/-- One line of the loop of `incomplete_attempts`. -/
def scanStart (starts : List (Key × Start)) (line : Text) :
    Except PyError (List (Key × Start)) :=
  if ¬startPrefix <+: line then .ok starts
  else do
    let parts ← csvReader (strip line)
    addStart starts parts

/-- The key of a completed row; rows whose campaign is no integer have none, and a key with a
value of another type equals no key of a start. -/
def doneKey (row : Dict Value) : Except PyError (Option Key) :=
  match row "campaign" with
  | some (.int campaign) =>
    match row "scheme", row "board", row "run" with
    | some (.str scheme), some (.str board), some (.int run) =>
      .ok (some ⟨scheme, board, campaign, run⟩)
    | some _, some _, some _ => .ok none
    | _, _, _ => .error .keyError
  | some _ => .ok none
  | none => .error .keyError

def incompleteAttempts (files : List Capture) (completed : List (Dict Value)) :
    Except PyError (List Start) := do
  let starts ← files.foldlM (fun starts file ↦
    (readLines (universalNewlines file.content)).foldlM scanStart starts) []
  let done ← completed.mapM doneKey
  let sorted := starts.mergeSort fun first second ↦ first.1.le second.1
  .ok ((sorted.filter fun entry ↦ some entry.1 ∉ done).map Prod.snd)

/-- The rows and the report of the files, which `main` gets with `parse` and `incomplete_attempts`.
Between the two it computes the summaries, which read the rows and change nothing of them. -/
def analyze (files : List Capture) : Except PyError (List (Dict Value) × List Start) := do
  let rows ← parse files
  let report ← incompleteAttempts files rows
  .ok (rows, report)

end PqMqtt.Analysis
