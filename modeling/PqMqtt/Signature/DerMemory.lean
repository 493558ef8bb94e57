import PqMqtt.Signature.DerWriter
import PqMqtt.Signature.KeyShim

/-!
# Buffers in memory

A `derbuf` is an array of fixed size and a length of type `size_t`, whose sums wrap.  Here a copy
that would leave the array is a fault of its own, apart from the exit of `die`.  The functions
that append elements never fault, and do to the contents what the writers of bounded lists do.
-/

namespace PqMqtt.Signature

open Der

/-! ## The functions -/

/-- How the tool stops: `die`, or a copy past the end of an array. -/
inductive Stop where
  | die
  | fault
deriving DecidableEq

/-- `derbuf` -/
structure RawBuf where
  b : Bytes bufCap
  len : UInt64

def memcpy (b : Bytes bufCap) (offset : UInt64) (src : List UInt8) : Except Stop (Bytes bufCap) :=
  if h : offset.toNat + src.length ≤ bufCap then
    .ok ⟨b.val.take offset.toNat ++ src ++ b.val.drop (offset.toNat + src.length), by
      have hlength := b.property
      simp only [List.length_append, List.length_take, List.length_drop]
      omega⟩
  else .error .fault

namespace RawBuf

/-- `{0}` -/
def zero : RawBuf := ⟨.zero bufCap, 0⟩

/-- The bytes up to the length. -/
def contents (d : RawBuf) : List UInt8 := d.b.val.take d.len.toNat

def put (d : RawBuf) (src : List UInt8) : Except Stop RawBuf :=
  let n := UInt64.ofNat src.length
  if UInt64.ofNat bufCap < d.len + n then .error .die
  else do
    let b ← memcpy d.b d.len src
    .ok ⟨b, d.len + n⟩

/-- `put_u8` -/
def putU8 (d : RawBuf) (v : UInt8) : Except Stop RawBuf := d.put [v]

def tlv (out : RawBuf) (tag : UInt8) (val : List UInt8) : Except Stop RawBuf := do
  let out ← out.putU8 tag
  let out ← out.put (DerBuf.encLen (UInt64.ofNat val.length).toNat)
  out.put val

def seq (out inner : RawBuf) : Except Stop RawBuf := out.tlv 0x30 inner.contents

def set (out inner : RawBuf) : Except Stop RawBuf := out.tlv 0x31 inner.contents

def oid (out : RawBuf) (val : List UInt8) : Except Stop RawBuf := out.tlv 0x06 val

/-- `octet_string` -/
def octetString (out : RawBuf) (val : List UInt8) : Except Stop RawBuf := out.tlv 0x04 val

/-- `bit_string` -/
def bitString (out : RawBuf) (val : List UInt8) : Except Stop RawBuf := do
  let tmp ← zero.putU8 0x00
  let tmp ← tmp.put val
  out.tlv 0x03 tmp.contents

/-- `bit_string_raw` -/
def bitStringRaw (out : RawBuf) (unused : UInt8) (val : List UInt8) : Except Stop RawBuf := do
  let tmp ← zero.putU8 unused
  let tmp ← tmp.put val
  out.tlv 0x03 tmp.contents

end RawBuf

/-! ## Bounded lists -/

/-- An array whose first bytes are a bounded list. -/
structure Represents (raw : RawBuf) (d : DerBuf) : Prop where
  len : raw.len.toNat = d.bytes.length
  contents : raw.contents = d.bytes

/-- The array follows the bounded list, and stops in `die` where the list has no room. -/
inductive Follows : Except Stop RawBuf → Option DerBuf → Prop where
  | ok {raw : RawBuf} {d : DerBuf} (h : Represents raw d) : Follows (.ok raw) (some d)
  | die : Follows (.error .die) none

theorem Follows.bind {result : Except Stop RawBuf} {model : Option DerBuf}
    {next : RawBuf → Except Stop RawBuf} {nextModel : DerBuf → Option DerBuf}
    (h : Follows result model)
    (hnext : ∀ raw d, Represents raw d → Follows (next raw) (nextModel d)) :
    Follows (result >>= next) (model >>= nextModel) := by
  cases h with
  | ok hrepresents => exact hnext _ _ hrepresents
  | die => exact .die

theorem represents_zero : Represents .zero .empty := ⟨rfl, rfl⟩

/-- An object beside a buffer leaves room in the address space for the buffer. -/
def Beside (src : List UInt8) : Prop := src.length + (bufCap + 8) ≤ 2 ^ 64

/-- The sum that is checked does not wrap, so the copy stays in the array. -/
theorem follows_put {raw : RawBuf} {d : DerBuf} (h : Represents raw d) {src : List UInt8}
    (hsrc : Beside src) : Follows (raw.put src) (d.put src) := by
  have hcap : bufCap = 32768 := rfl
  have hcapValue : (UInt64.ofNat bufCap).toNat = bufCap := rfl
  have hlength := d.length_le
  have hlen := h.len
  unfold Beside at hsrc
  have hsize : src.length < UInt64.size := lt_of_lt_of_le (by omega) hsrc
  have hn : (UInt64.ofNat src.length).toNat = src.length := UInt64.toNat_ofNat_of_lt' hsize
  have hsum : (raw.len + UInt64.ofNat src.length).toNat = d.bytes.length + src.length := by
    rw [UInt64.toNat_add, hn, hlen]
    omega
  have hdies : UInt64.ofNat bufCap < raw.len + UInt64.ofNat src.length
      ↔ ¬(d.bytes ++ src).length ≤ bufCap := by
    rw [UInt64.lt_iff_toNat_lt, hcapValue, hsum, List.length_append, not_le]
  rw [RawBuf.put, DerBuf.put]
  by_cases hroom : (d.bytes ++ src).length ≤ bufCap
  · have hcopy : raw.len.toNat + src.length ≤ bufCap := by
      rw [List.length_append] at hroom
      omega
    have harray : raw.len.toNat ≤ raw.b.val.length := by
      rw [raw.b.property]
      omega
    rw [if_neg (fun hlt ↦ hdies.mp hlt hroom), dif_pos hroom, memcpy, dif_pos hcopy]
    refine .ok ⟨?_, ?_⟩
    · rw [hsum, List.length_append]
    · rw [RawBuf.contents, hsum, ← hlen]
      dsimp only
      rw [List.take_left' (by rw [List.length_append, List.length_take_of_le harray])]
      exact congrArg (· ++ src) h.contents
  · rw [if_pos (hdies.mpr hroom), dif_neg hroom]
    exact .die

theorem beside_of_length_le {src : List UInt8} (h : src.length ≤ bufCap) : Beside src := by
  have hcap : bufCap = 32768 := rfl
  unfold Beside
  omega

theorem beside_singleton (v : UInt8) : Beside [v] := beside_of_length_le (by simp [bufCap])

theorem length_encLen_le (n : ℕ) : (DerBuf.encLen n).length ≤ 3 := by
  unfold DerBuf.encLen
  split_ifs
  · simp
  · simp
  · simp

theorem follows_tlv {raw : RawBuf} {d : DerBuf} (h : Represents raw d) (tag : UInt8)
    {val : List UInt8} (hval : Beside val) :
    Follows (raw.tlv tag val) (d.put (element tag val)) := by
  have hcap : bufCap = 32768 := rfl
  have hencLen := length_encLen_le val.length
  have hsize : val.length < UInt64.size := lt_of_lt_of_le (by unfold Beside at hval; omega) hval
  have hn : (UInt64.ofNat val.length).toNat = val.length := UInt64.toNat_ofNat_of_lt' hsize
  rw [← DerBuf.tlv_eq_put, RawBuf.tlv, hn]
  apply (follows_put h (beside_singleton _)).bind
  intro raw d h
  apply (follows_put h (beside_of_length_le (by omega))).bind
  intro raw d h
  exact follows_put h hval

theorem follows_bitStringRaw {raw : RawBuf} {d : DerBuf} (h : Represents raw d) (unused : UInt8)
    {val : List UInt8} (hval : Beside val) :
    Follows (raw.bitStringRaw unused val) (d.put (element 0x03 (unused :: val))) := by
  have hwrites : d.bitStringRaw unused val = d.put (element 0x03 (unused :: val)) :=
    DerBuf.writes_bitStringRaw unused val d
  rw [← hwrites]
  apply (follows_put represents_zero (beside_singleton _)).bind
  intro tmp tmpModel htmp
  apply (follows_put htmp hval).bind
  intro tmp tmpModel htmp
  rw [DerBuf.tlv_eq_put, htmp.contents]
  exact follows_tlv h 0x03 (beside_of_length_le tmpModel.length_le)

/-! ## Appends in sequence -/

/-- A byte string that the tool can point at while it fills a buffer. -/
structure Value where
  bytes : List UInt8
  beside : Beside bytes

/-- A buffer as `put` leaves it. -/
structure Buffer extends RawBuf where
  len_le : len.toNat ≤ bufCap

/-- The functions that append an element. -/
inductive Append where
  | tlv (tag : UInt8) (val : Value)
  | seq (inner : Buffer)
  | set (inner : Buffer)
  | oid (val : Value)
  | octetString (val : Value)
  | bitString (val : Value)
  | bitStringRaw (unused : UInt8) (val : Value)

namespace Append

def run : Append → RawBuf → Except Stop RawBuf
  | tlv tag val, out => out.tlv tag val.bytes
  | seq inner, out => out.seq inner.toRawBuf
  | set inner, out => out.set inner.toRawBuf
  | oid val, out => out.oid val.bytes
  | octetString val, out => out.octetString val.bytes
  | bitString val, out => out.bitString val.bytes
  | bitStringRaw unused val, out => out.bitStringRaw unused val.bytes

def tag : Append → UInt8
  | tlv tag _ => tag
  | seq _ => 0x30
  | set _ => 0x31
  | oid _ => 0x06
  | octetString _ => 0x04
  | bitString _ => 0x03
  | bitStringRaw _ _ => 0x03

def content : Append → List UInt8
  | tlv _ val => val.bytes
  | seq inner => inner.contents
  | set inner => inner.contents
  | oid val => val.bytes
  | octetString val => val.bytes
  | bitString val => 0x00 :: val.bytes
  | bitStringRaw unused val => unused :: val.bytes

end Append

def runAll (appends : List Append) (out : RawBuf) : Except Stop RawBuf :=
  appends.foldlM (fun out append ↦ append.run out) out

theorem Buffer.length_contents (d : Buffer) : d.contents.length = d.len.toNat := by
  have hlength := d.b.property
  have hle := d.len_le
  rw [RawBuf.contents, List.length_take]
  omega

/-- The bounded list of a buffer. -/
def Buffer.model (d : Buffer) : DerBuf := ⟨d.contents, d.length_contents.trans_le d.len_le⟩

theorem Buffer.represents (d : Buffer) : Represents d.toRawBuf d.model :=
  ⟨d.length_contents.symm, rfl⟩

theorem Buffer.beside (d : Buffer) : Beside d.contents := beside_of_length_le d.model.length_le

/-- Each function appends its element to the bounded list. -/
theorem Append.follows_run (append : Append) {raw : RawBuf} {d : DerBuf} (h : Represents raw d) :
    Follows (append.run raw) (d.put (element append.tag append.content)) := by
  cases append with
  | tlv tag val => exact follows_tlv h tag val.beside
  | seq inner => exact follows_tlv h 0x30 inner.beside
  | set inner => exact follows_tlv h 0x31 inner.beside
  | oid val => exact follows_tlv h 0x06 val.beside
  | octetString val => exact follows_tlv h 0x04 val.beside
  | bitString val => exact follows_bitStringRaw h 0x00 val.beside
  | bitStringRaw unused val => exact follows_bitStringRaw h unused val.beside

theorem follows_runAll (appends : List Append) {raw : RawBuf} {d : DerBuf} (h : Represents raw d) :
    Follows (runAll appends raw)
      (d.put (appends.flatMap fun append ↦ element append.tag append.content)) := by
  induction appends generalizing raw d with
  | nil =>
    rw [List.flatMap_nil, ← DerBuf.writes_some d]
    exact .ok h
  | cons append appends ih =>
    rw [List.flatMap_cons, ← DerBuf.put_bind_put]
    apply (append.follows_run h).bind
    intro raw d h
    exact ih h

theorem length_content_le_flatMap {appends : List Append} {append : Append}
    (h : append ∈ appends) : append.content.length
      ≤ (appends.flatMap fun append ↦ element append.tag append.content).length := by
  obtain ⟨before, after, rfl⟩ := List.append_of_mem h
  have hcontent := length_content_le append.tag append.content
  simp only [List.flatMap_append, List.flatMap_cons, List.length_append]
  omega

theorem readAll_appends {appends : List Append} {fuel : ℕ}
    (hfuel : (appends.flatMap fun append ↦ element append.tag append.content).length ≤ fuel)
    (hlength : (appends.flatMap fun append ↦ element append.tag append.content).length < 2 ^ 32) :
    readAll anyElement fuel (appends.flatMap fun append ↦ element append.tag append.content)
      = some (appends.map fun append ↦ (append.tag, append.content)) := by
  have hoctets : (appends.flatMap fun append ↦ element append.tag append.content)
      = (appends.map fun append ↦ (append.tag, append.content)).flatMap
          fun pair ↦ element pair.1 pair.2 := by
    rw [List.flatMap_map]
  rw [hoctets] at hfuel hlength ⊢
  have hne : ∀ pair ∈ appends.map fun append ↦ (append.tag, append.content),
      element pair.1 pair.2 ≠ [] := fun pair _ ↦ List.cons_ne_nil _ _
  apply readAll_flatMap _ hne hlength ((length_le_flatMap hne).trans hfuel)
  exact fun pair _ ↦ reads_anyElement pair.1 pair.2

/-- Functions that append either die, without a copy past the end of an array, or leave what was
there and append their elements, with every length in its shortest form; a reader at the old end
reads back all tags and contents and ends at the new end. -/
theorem appends_or_dies (d : Buffer) (appends : List Append) :
    runAll appends d.toRawBuf = .error .die ∨
      ∃ after : Buffer, runAll appends d.toRawBuf = .ok after.toRawBuf ∧
        after.contents
          = d.contents ++ appends.flatMap (fun append ↦ element append.tag append.content) ∧
        readAll anyElement bufCap (after.contents.drop d.len.toNat)
          = some (appends.map fun append ↦ (append.tag, append.content)) ∧
        ∀ append ∈ appends, append.content.length < 0x10000 ∧
          DerBuf.encLen append.content.length = lengthOctets append.content.length := by
  have hfollows := follows_runAll appends d.represents
  generalize hresult : runAll appends d.toRawBuf = result at hfollows ⊢
  generalize hmodel : d.model.put _ = model at hfollows
  cases hfollows with
  | die => exact .inl rfl
  | ok hrepresents =>
    rename_i raw after
    right
    have hbytes : after.bytes = d.contents ++ _ := DerBuf.put_eq_some_iff.mp hmodel
    have hle := after.length_le
    have hcap : bufCap = 32768 := rfl
    rw [hbytes, List.length_append] at hle
    refine ⟨⟨raw, hrepresents.len.trans_le after.length_le⟩, rfl,
      hrepresents.contents.trans hbytes, ?_, ?_⟩
    · change readAll anyElement bufCap (raw.contents.drop d.len.toNat) = _
      rw [hrepresents.contents, hbytes, List.drop_left' d.length_contents]
      exact readAll_appends (by omega) (by omega)
    · intro append happend
      have hcontent := length_content_le_flatMap happend
      have hsmall : append.content.length < 0x10000 := by omega
      exact ⟨hsmall, DerBuf.encLen_eq hsmall⟩

end PqMqtt.Signature
