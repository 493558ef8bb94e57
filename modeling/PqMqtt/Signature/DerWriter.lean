import PqMqtt.Foundation.DerReader

/-!
# Writers of nested elements

The functions of `gen_hawk_pki.c` append to a buffer, many of them through inner buffers of their
own, and die where a buffer is full.  A function writes given octets when it appends them, or
dies, exactly as one `put` of them does.  This passes through sequences of writers and through an
inner buffer: an inner buffer that is full stands for an element that does not fit either.
-/

namespace PqMqtt.Signature

open Der

/-! ## Buffers -/

/-- `BUF_CAP` -/
def bufCap : ℕ := 32768

/-- `derbuf` -/
@[ext]
structure DerBuf where
  bytes : List UInt8
  length_le : bytes.length ≤ bufCap

namespace DerBuf

def empty : DerBuf := ⟨[], Nat.zero_le _⟩

/-- `put`; `none` is the exit of `die`. -/
def put (d : DerBuf) (src : List UInt8) : Option DerBuf :=
  if h : (d.bytes ++ src).length ≤ bufCap then some ⟨d.bytes ++ src, h⟩ else none

/-- `enc_len` -/
def encLen (n : ℕ) : List UInt8 :=
  if n < 0x80 then [UInt8.ofNat n]
  else if n < 0x100 then [0x81, UInt8.ofNat n]
  else [0x82, UInt8.ofNat (n / 256), UInt8.ofNat n]

def tlv (out : DerBuf) (tag : UInt8) (val : List UInt8) : Option DerBuf := do
  let out ← out.put [tag]
  let out ← out.put (encLen val.length)
  out.put val

def seq (out inner : DerBuf) : Option DerBuf := out.tlv 0x30 inner.bytes

def set (out inner : DerBuf) : Option DerBuf := out.tlv 0x31 inner.bytes

def oid (out : DerBuf) (val : List UInt8) : Option DerBuf := out.tlv 0x06 val

def nullv (out : DerBuf) : Option DerBuf := out.put [0x05, 0x00]

/-- The octets that `integer_small` writes. -/
def smallOctets (v : ℕ) : List UInt8 :=
  if v ≤ 0x7f then [UInt8.ofNat v]
  else if v ≤ 0xff then [0x00, UInt8.ofNat v]
  else
    let high := UInt8.ofNat (v / 256)
    if high.toNat < 0x80 then [high, UInt8.ofNat v] else [0x00, high, UInt8.ofNat v]

/-- `integer_small` -/
def integerSmall (out : DerBuf) (v : ℕ) : Option DerBuf := out.tlv 0x02 (smallOctets v)

def boolean (out : DerBuf) (v : Bool) : Option DerBuf := out.tlv 0x01 [if v then 0xff else 0x00]

/-- `octet_string` -/
def octetString (out : DerBuf) (val : List UInt8) : Option DerBuf := out.tlv 0x04 val

/-- `bit_string` -/
def bitString (out : DerBuf) (val : List UInt8) : Option DerBuf := do
  let tmp ← empty.put [0x00]
  let tmp ← tmp.put val
  out.tlv 0x03 tmp.bytes

/-- `bit_string_raw` -/
def bitStringRaw (out : DerBuf) (unused : UInt8) (val : List UInt8) : Option DerBuf := do
  let tmp ← empty.put [unused]
  let tmp ← tmp.put val
  out.tlv 0x03 tmp.bytes

/-! ## One piece -/

theorem put_eq_some_iff {d d' : DerBuf} {src : List UInt8} :
    d.put src = some d' ↔ d'.bytes = d.bytes ++ src := by
  unfold put
  constructor
  · intro h
    split_ifs at h with hroom
    exact congrArg bytes (Option.some.inj h).symm
  · intro h
    have hroom : (d.bytes ++ src).length ≤ bufCap := h ▸ d'.length_le
    rw [dif_pos hroom]
    exact congrArg some (DerBuf.ext h.symm)

theorem put_eq_none {d : DerBuf} {src : List UInt8} (h : bufCap < src.length) :
    d.put src = none := by
  apply dif_neg
  rw [List.length_append]
  omega

/-- Two texts in a row fit exactly when they fit together. -/
theorem put_bind_put (d : DerBuf) (first second : List UInt8) :
    (d.put first).bind (fun d ↦ d.put second) = d.put (first ++ second) := by
  ext d'
  rw [Option.bind_eq_some_iff, put_eq_some_iff]
  constructor
  · rintro ⟨middle, hfirst, hsecond⟩
    rw [put_eq_some_iff] at hfirst hsecond
    rw [hsecond, hfirst, List.append_assoc]
  · intro h
    have hroom : (d.bytes ++ first).length ≤ bufCap := by
      have hwhole := d'.length_le
      rw [h, List.length_append, List.length_append] at hwhole
      rw [List.length_append]
      omega
    refine ⟨⟨d.bytes ++ first, hroom⟩, put_eq_some_iff.mpr rfl, put_eq_some_iff.mpr ?_⟩
    rw [h, List.append_assoc]

/-- `enc_len` writes every length that a buffer can hold in its shortest form. -/
theorem encLen_eq {n : ℕ} (h : n < 0x10000) : encLen n = lengthOctets n := by
  unfold encLen lengthOctets
  split_ifs with hshort hbyte
  · rfl
  · rw [toOctets_of_lt (by omega) hbyte]
    rfl
  · rw [toOctets_of_lt_of_le (by omega) h]
    rfl

/-- `tlv` writes an element. -/
theorem tlv_eq_put (out : DerBuf) (tag : UInt8) (val : List UInt8) :
    out.tlv tag val = out.put (element tag val) := by
  have hputs : out.tlv tag val = out.put (tag :: encLen val.length ++ val) := by
    have hhead := put_bind_put out [tag] (encLen val.length)
    have hval := put_bind_put out ([tag] ++ encLen val.length) val
    rw [← hhead, Option.bind_assoc] at hval
    exact hval
  rw [hputs]
  rcases Nat.lt_or_ge val.length 0x10000 with hsmall | hlarge
  · rw [encLen_eq hsmall, element]
  · have hcap : bufCap < 0x10000 := by decide
    have hwritten : bufCap < (tag :: encLen val.length ++ val).length := by
      rw [List.length_append]
      omega
    have helement : bufCap < (element tag val).length := by
      have hcontent := length_content_le tag val
      omega
    rw [put_eq_none hwritten, put_eq_none helement]

/-! ## What a writer writes -/

/-- Appends the octets where they fit and dies elsewhere. -/
def Writes (write : DerBuf → Option DerBuf) (octets : List UInt8) : Prop :=
  ∀ out, write out = out.put octets

section Writes

variable {write next : DerBuf → Option DerBuf} {octets more : List UInt8}

theorem Writes.bind (h : Writes write octets) (hnext : Writes next more) :
    Writes (fun out ↦ (write out).bind next) (octets ++ more) := by
  intro out
  have hnextPut : next = fun middle ↦ middle.put more := funext hnext
  dsimp only
  rw [hnextPut, h out, put_bind_put]

theorem writes_some : Writes some [] := by
  intro out
  exact (put_eq_some_iff.mpr (List.append_nil out.bytes).symm).symm

theorem writes_tlv (tag : UInt8) (val : List UInt8) :
    Writes (fun out ↦ out.tlv tag val) (element tag val) :=
  fun out ↦ tlv_eq_put out tag val

/-- A writer that uses what another writer leaves in an inner buffer: when that is too much for
the inner buffer, what would be written is too much for every buffer. -/
theorem Writes.through (h : Writes write octets) {fill : DerBuf → DerBuf → Option DerBuf}
    {encode : List UInt8 → List UInt8} (hfill : ∀ inner, Writes (fill inner) (encode inner.bytes))
    (hlength : octets.length ≤ (encode octets).length) :
    Writes (fun out ↦ (write empty).bind fun inner ↦ fill inner out) (encode octets) := by
  intro out
  dsimp only
  rw [h empty]
  rcases Nat.lt_or_ge bufCap octets.length with hlarge | hfits
  · rw [put_eq_none hlarge, put_eq_none (hlarge.trans_le hlength)]
    rfl
  · have hinner : empty.put octets = some ⟨octets, hfits⟩ := put_eq_some_iff.mpr rfl
    rw [hinner, Option.bind_some]
    exact hfill ⟨octets, hfits⟩ out

/-- What is written to an inner buffer becomes the content of an element. -/
theorem Writes.within (h : Writes write octets) (tag : UInt8) :
    Writes (fun out ↦ (write empty).bind fun inner ↦ out.tlv tag inner.bytes)
      (element tag octets) :=
  h.through (fun inner ↦ writes_tlv tag inner.bytes) (length_content_le tag octets)

theorem writes_bitStringRaw (unused : UInt8) (val : List UInt8) :
    Writes (fun out ↦ out.bitStringRaw unused val) (element 0x03 (unused :: val)) := by
  intro out
  have hinner : Writes (fun tmp ↦ (tmp.put [unused]).bind fun tmp ↦ tmp.put val)
      (unused :: val) := fun tmp ↦ put_bind_put tmp [unused] val
  rw [← hinner.within 0x03 out]
  exact (Option.bind_assoc (empty.put [unused]) (fun tmp ↦ tmp.put val)
    fun inner ↦ out.tlv 0x03 inner.bytes).symm

theorem writes_bitString (val : List UInt8) :
    Writes (fun out ↦ out.bitString val) (element 0x03 (0x00 :: val)) :=
  writes_bitStringRaw 0x00 val

/-- A buffer that does not die holds what was written at its end. -/
theorem Writes.eq_some_iff {out written : DerBuf} (h : Writes write octets) :
    write out = some written ↔ written.bytes = out.bytes ++ octets := by
  rw [h out]
  exact put_eq_some_iff

end Writes

/-- What a buffer holds is short enough for the readers. -/
theorem length_lt {d : DerBuf} {before octets : List UInt8} (h : d.bytes = before ++ octets) :
    octets.length < 2 ^ 32 := by
  have hcap : bufCap < 2 ^ 32 := by decide
  have hlength := d.length_le
  rw [h, List.length_append] at hlength
  omega

end DerBuf

/-! ## Integers -/

/-- `integer_small` writes numbers below `0x10000` in their shortest form. -/
theorem smallOctets_eq {v : ℕ} (h : v ≤ 0xffff) : DerBuf.smallOctets v = integerOctets v := by
  unfold DerBuf.smallOctets integerOctets
  split_ifs with hshort hbyte
  · rcases Nat.eq_zero_or_pos v with rfl | hpos
    · decide
    · have hvalue : (UInt8.ofNat v).toNat = v :=
        UInt8.toNat_ofNat_of_lt' (hshort.trans_lt (by decide))
      rw [toOctets_of_lt hpos (by omega)]
      dsimp only
      rw [hvalue, if_neg (by omega)]
  · have hvalue : (UInt8.ofNat v).toNat = v :=
      UInt8.toNat_ofNat_of_lt' (hbyte.trans_lt (by decide))
    rw [toOctets_of_lt (by omega) (by omega)]
    dsimp only
    rw [hvalue, if_pos (by omega)]
  · rw [toOctets_of_lt_of_le (by omega) (by omega)]
    dsimp only
    by_cases hlow : (UInt8.ofNat (v / 256)).toNat < 0x80
    · rw [if_pos hlow, if_neg (by omega)]
    · rw [if_neg hlow, if_pos (by omega)]

end PqMqtt.Signature
