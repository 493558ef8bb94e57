import PqMqtt.Foundation.Der

/-!
# Readers of nested elements

A reader takes a value off the front of the octets.  `Reads` says that octets are read as a value
whatever follows them; it passes through sequencing, nesting and repetition, so what a record of
elements is read as follows from its parts.  Readers accept the distinguished encoding only.
-/

namespace PqMqtt.Der

/-- A reader returns a value and the octets after it. -/
abbrev Reader := StateT (List UInt8) Option

/-- The octets, if they are fewer than `2 ^ 32`, are read as the value, whatever follows them. -/
def Reads {α : Type} (reader : Reader α) (octets : List UInt8) (value : α) : Prop :=
  octets.length < 2 ^ 32 → ∀ rest, reader.run (octets ++ rest) = some (value, rest)

/-! ## Readers -/

section Readers

variable {α β : Type}

/-- A value that is converted after it was read. -/
def convert (reader : Reader α) (f : α → Option β) : Reader β := do
  let value ← reader
  StateT.lift (f value)

/-- The content of an element. -/
def content (tag : UInt8) : Reader (List UInt8) := fun octets ↦ readElement tag octets

/-- The tag and the content of the next element. -/
def anyElement : Reader (UInt8 × List UInt8) := fun octets ↦
  match octets with
  | [] => none
  | tag :: _ => (readElement tag octets).map fun (value, rest) ↦ ((tag, value), rest)

/-- A value together with the octets it was read from. -/
def withOctets (reader : Reader α) : Reader (List UInt8 × α) := fun octets ↦
  (reader.run octets).map fun (value, rest) ↦
    ((octets.take (octets.length - rest.length), value), rest)

/-- The value of octets of which nothing is left over. -/
def readWhole (reader : Reader α) (octets : List UInt8) : Option α :=
  match reader.run octets with
  | some (value, []) => some value
  | _ => none

/-- The value of an element whose content is read to its end. -/
def within (tag : UInt8) (reader : Reader α) : Reader α := convert (content tag) (readWhole reader)

/-- Values one after the other, to the end of the octets; each takes an octet or more. -/
def readAll (reader : Reader α) : ℕ → List UInt8 → Option (List α)
  | _, [] => some []
  | 0, _ :: _ => none
  | fuel + 1, octet :: octets => do
    let (value, rest) ← reader.run (octet :: octets)
    let values ← readAll reader fuel rest
    some (value :: values)

/-- The values of an element of values. -/
def sequenceOf (tag : UInt8) (reader : Reader α) : Reader (List α) :=
  convert (content tag) fun octets ↦ readAll reader octets.length octets

end Readers

/-! ## What is read -/

section Reads

variable {α β : Type} {reader : Reader α} {octets : List UInt8} {value : α}

theorem Reads.pure (value : α) : Reads (Pure.pure value : Reader α) [] value := fun _ _ ↦ rfl

theorem Reads.bind {next : α → Reader β} {more : List UInt8} {result : β}
    (h : Reads reader octets value) (hnext : Reads (next value) more result) :
    Reads (reader >>= next) (octets ++ more) result := by
  intro hlength rest
  rw [List.length_append] at hlength
  rw [StateT.run_bind, List.append_assoc, h (by omega)]
  exact hnext (by omega) rest

/-- A record ends with its last element. -/
theorem Reads.last {next : α → Reader β} {result : β} (h : Reads reader octets value)
    (hnext : next value = Pure.pure result) : Reads (reader >>= next) octets result := by
  have hbind : Reads (reader >>= next) (octets ++ []) result :=
    h.bind (hnext ▸ Reads.pure result)
  rwa [List.append_nil] at hbind

theorem Reads.map {f : α → β} (h : Reads reader octets value) :
    Reads (do let value ← reader; Pure.pure (f value)) octets (f value) :=
  h.last rfl

theorem Reads.convert {f : α → Option β} {result : β} (h : Reads reader octets value)
    (hresult : f value = some result) : Reads (convert reader f) octets result := by
  intro hlength rest
  rw [Der.convert, StateT.run_bind, h hlength]
  simp [hresult]

theorem reads_content (tag : UInt8) (octets : List UInt8) :
    Reads (content tag) (element tag octets) octets := by
  intro hlength rest
  have hle := length_content_le tag octets
  exact readElement_element (shortLength_of_lt (by omega)) tag rest

theorem reads_anyElement (tag : UInt8) (octets : List UInt8) :
    Reads anyElement (element tag octets) (tag, octets) := by
  intro hlength rest
  have hread : readElement tag (element tag octets ++ rest) = some (octets, rest) :=
    reads_content tag octets hlength rest
  change (readElement tag (element tag octets ++ rest)).map _ = _
  rw [hread]
  rfl

theorem Reads.withOctets (h : Reads reader octets value) :
    Reads (withOctets reader) octets (octets, value) := by
  intro hlength rest
  have htake : (octets ++ rest).take ((octets ++ rest).length - rest.length) = octets :=
    List.take_left' (by rw [List.length_append, Nat.add_sub_cancel])
  change (reader.run (octets ++ rest)).map _ = _
  rw [h hlength, Option.map_some]
  dsimp only
  rw [htake]

theorem Reads.readWhole (h : Reads reader octets value) (hlength : octets.length < 2 ^ 32) :
    readWhole reader octets = some value := by
  have hread := h hlength []
  rw [List.append_nil] at hread
  rw [Der.readWhole, hread]

theorem Reads.within (h : Reads reader octets value) (tag : UInt8) :
    Reads (within tag reader) (element tag octets) value := by
  intro hlength
  have hle := length_content_le tag octets
  exact (reads_content tag octets).convert (h.readWhole (by omega)) hlength

variable {encode : α → List UInt8} {values : List α}

theorem readAll_flatMap (h : ∀ value ∈ values, Reads reader (encode value) value)
    (hne : ∀ value ∈ values, encode value ≠ [])
    (hlength : (values.flatMap encode).length < 2 ^ 32) {fuel : ℕ}
    (hfuel : values.length ≤ fuel) : readAll reader fuel (values.flatMap encode) = some values := by
  induction values generalizing fuel with
  | nil => cases fuel <;> rfl
  | cons value values ih =>
    rw [List.forall_mem_cons] at h hne
    rw [List.flatMap_cons, List.length_append] at hlength
    rw [List.length_cons] at hfuel
    obtain ⟨octet, octets, hencode⟩ := List.exists_cons_of_ne_nil hne.1
    have hread := h.1 (by omega) (values.flatMap encode)
    rw [hencode, List.cons_append] at hread
    cases fuel with
    | zero => omega
    | succ fuel =>
      have hrest : readAll reader fuel (values.flatMap encode) = some values :=
        ih h.2 hne.2 (by omega) (Nat.le_of_succ_le_succ hfuel)
      rw [List.flatMap_cons, hencode, List.cons_append, readAll, hread]
      simp [hrest]

theorem length_le_flatMap (hne : ∀ value ∈ values, encode value ≠ []) :
    values.length ≤ (values.flatMap encode).length := by
  induction values with
  | nil => exact Nat.zero_le _
  | cons value values ih =>
    rw [List.forall_mem_cons] at hne
    have hpositive := List.length_pos_iff.mpr hne.1
    have hrest := ih hne.2
    rw [List.flatMap_cons, List.length_append, List.length_cons]
    omega

theorem Reads.sequenceOf (h : ∀ value ∈ values, Reads reader (encode value) value)
    (hne : ∀ value ∈ values, encode value ≠ []) (tag : UInt8) :
    Reads (sequenceOf tag reader) (element tag (values.flatMap encode)) values := by
  intro hlength
  have hle := length_content_le tag (values.flatMap encode)
  exact (reads_content tag _).convert
    (readAll_flatMap h hne (by omega) (length_le_flatMap hne)) hlength

end Reads

/-! ## Integers -/

/-- The shortest two's-complement octets of a number that is not negative. -/
def integerOctets (n : ℕ) : List UInt8 :=
  match toOctets n with
  | [] => [0]
  | first :: rest => if 128 ≤ first.toNat then 0 :: first :: rest else first :: rest

/-- The value of shortest octets without a sign. -/
def readInteger : List UInt8 → Option ℕ
  | [] => none
  | first :: rest =>
    if 128 ≤ first.toNat then none
    else if first = 0 ∧ ∃ second ∈ rest.head?, second.toNat < 128 then none
    else some (ofOctets (first :: rest))

theorem ofOctets_of_readInteger {octets : List UInt8} {n : ℕ} (h : readInteger octets = some n) :
    ofOctets octets = n := by
  cases octets with
  | nil => cases h
  | cons first rest =>
    rw [readInteger] at h
    split_ifs at h
    exact Option.some.inj h

theorem readInteger_integerOctets (n : ℕ) : readInteger (integerOctets n) = some n := by
  have hvalue := ofOctets_toOctets n
  have hhead := head?_toOctets_ne n
  unfold integerOctets
  cases hoctets : toOctets n with
  | nil =>
    rw [hoctets] at hvalue
    subst hvalue
    rfl
  | cons first rest =>
    rw [hoctets] at hvalue hhead
    have hfirst : first ≠ 0 := fun hzero ↦ hhead (congrArg some hzero)
    dsimp only
    split
    · rename_i hhigh
      have hzero : ofOctets (0 :: first :: rest) = ofOctets (first :: rest) := by
        rw [ofOctets_cons]
        simp
      rw [readInteger, if_neg (by decide), if_neg (by simpa using hhigh), hzero, hvalue]
    · rename_i hlow
      rw [readInteger, if_neg hlow, if_neg fun h ↦ hfirst h.1, hvalue]

end PqMqtt.Der
