import PqMqtt.Signature.HawkCertificate

/-!
# Serial numbers

`integer_small` has cases for one and two octets only.  Numbers below `0x10000` are written in
their shortest form; of the others the last two octets are left.
-/

namespace PqMqtt.Signature

open Der X509 DerBuf

/-! ## What is left of a number -/

theorem length_smallOctets_le (v : ℕ) : (smallOctets v).length ≤ 3 := by
  unfold smallOctets
  split_ifs
  · simp
  · simp
  · dsimp only
    split_ifs
    · simp
    · simp

/-- The last two octets of a number that has more of them. -/
theorem ofOctets_smallOctets {v : ℕ} (h : 0xff < v) :
    ofOctets (smallOctets v) = v % 0x10000 := by
  have hhigh : (UInt8.ofNat (v / 256)).toNat = v / 256 % 256 := UInt8.toNat_ofNat'
  have hlow : (UInt8.ofNat v).toNat = v % 256 := UInt8.toNat_ofNat'
  have hnil : ofOctets [] = 0 := rfl
  rw [smallOctets, if_neg (by omega), if_neg (by omega)]
  dsimp only
  split_ifs
  · simp only [ofOctets_cons, hnil, hhigh, hlow, List.length_cons, List.length_nil]
    omega
  · simp only [ofOctets_cons, hnil, hhigh, hlow, List.length_cons, List.length_nil,
      UInt8.toNat_zero]
    omega

theorem smallOctets_ne {v : ℕ} (h : 0xffff < v) : smallOctets v ≠ integerOctets v := by
  intro heq
  have hleft := ofOctets_smallOctets (v := v) (by omega)
  have hright := ofOctets_of_readInteger (readInteger_integerOctets v)
  rw [heq, hright] at hleft
  omega

/-! ## Where a number keeps its value -/

/-- The serial number of what is signed, which comes after the version. -/
def serialFields : Reader ℕ := do
  let _ ← within 0xa0 integer
  integer

def readSerial (der : List UInt8) : Option ℕ := do
  let (body, _) ← (content 0x30).run der
  let (serial, _) ← serialFields.run body
  some serial

/-- `integer_small` appends the shortest two's-complement encoding, or dies, and the number is
read back from what it appends. -/
def AppendsValue (v : UInt32) : Prop :=
  ∀ out written : DerBuf, out.integerSmall v.toNat = some written →
    written.bytes = out.bytes ++ element 0x02 (integerOctets v.toNat) ∧
      readWhole integer (written.bytes.drop out.bytes.length) = some v.toNat

/-- A serial number is read back from every certificate that `make_tbs` appends. -/
def KeepsSerial (serial : UInt32) : Prop :=
  ∀ now out issuerCn subjectCn subjectKey isCa isServer written,
    makeTbs now out serial issuerCn subjectCn subjectKey isCa isServer = some written →
    readSerial (written.bytes.drop out.bytes.length) = some serial.toNat

theorem readSerial_der {form : TbsForm} {version serial : ℕ}
    (hversion : readInteger form.version = some version)
    (hserial : readInteger form.serial = some serial) (hlength : form.der.length < 2 ^ 32) :
    readSerial form.der = some serial := by
  obtain ⟨rest, hbody⟩ : ∃ rest, form.body
      = element 0xa0 (element 0x02 form.version) ++ element 0x02 form.serial ++ rest :=
    ⟨_, (List.append_assoc ..).symm⟩
  have hfields : Reads serialFields
      (element 0xa0 (element 0x02 form.version) ++ element 0x02 form.serial) serial := by
    apply ((reads_integer hversion).within 0xa0).bind
    exact reads_integer hserial
  have hle := length_content_le 0x30 form.body
  have hder : form.der.length = (element 0x30 form.body).length := rfl
  have hcontent : (content 0x30).run form.der = some (form.body, []) := by
    have hread := reads_content 0x30 form.body (by omega) []
    rwa [List.append_nil] at hread
  have hserialRead : serialFields.run form.body = some (serial, rest) := by
    have hlengths := congrArg List.length hbody
    rw [List.length_append] at hlengths
    rw [hbody]
    exact hfields (by omega) rest
  rw [readSerial, hcontent, Option.bind_eq_bind, Option.bind_some]
  dsimp only
  rw [hserialRead]
  rfl

theorem appendsValue_of_le {v : UInt32} (h : v.toNat ≤ 0xffff) : AppendsValue v := by
  intro out written hwritten
  have hbytes := (writes_tlv 0x02 (smallOctets v.toNat)).eq_some_iff.mp hwritten
  have hshort := length_lt hbytes
  rw [hbytes, List.drop_left]
  constructor
  · rw [smallOctets_eq h]
  · exact (reads_integer (readInteger_smallOctets h)).readWhole hshort

theorem not_appendsValue {v : UInt32} (h : 0xffff < v.toNat) : ¬AppendsValue v := by
  intro happends
  have hsmall := length_smallOctets_le v.toNat
  have hlength : (element 0x02 (smallOctets v.toNat)).length ≤ bufCap := by
    have hcap : bufCap = 32768 := rfl
    rw [length_element, lengthOctets, if_pos (by omega), List.length_singleton]
    omega
  have hwritten : empty.integerSmall v.toNat = some ⟨_, hlength⟩ :=
    (writes_tlv 0x02 (smallOctets v.toNat)).eq_some_iff.mpr (List.nil_append _).symm
  have hbytes := (happends empty _ hwritten).1
  have hcap : bufCap < 2 ^ 32 := by decide
  exact smallOctets_ne h (element_inj (hlength.trans_lt hcap) hbytes)

theorem keepsSerial_of_le {serial : UInt32} (h : serial.toNat ≤ 0xffff) : KeepsSerial serial := by
  intro now out issuerCn subjectCn subjectKey isCa isServer written hwritten
  have hbytes := (writes_makeTbs now serial issuerCn subjectCn subjectKey isCa
    isServer).eq_some_iff.mp hwritten
  have hshort := length_lt hbytes
  rw [hbytes, List.drop_left]
  exact readSerial_der (readInteger_smallOctets (show 2 ≤ 0xffff by norm_num))
    (readInteger_smallOctets h) hshort

/-- Numbers below `0x10000` keep their value, and no others. -/
theorem integer_small_value (v : UInt32) :
    AppendsValue v ∧ KeepsSerial v ↔ v.toNat ≤ 0xffff := by
  constructor
  · intro h
    by_contra hlarge
    exact not_appendsValue (not_le.mp hlarge) h.1
  · intro h
    exact ⟨appendsValue_of_le h, keepsSerial_of_le h⟩

/-- Of 65537, the octets of 1 are left, in a form that is not the shortest. -/
theorem integer_small_of_65537 :
    (∃ written, empty.integerSmall 65537 = some written ∧
      written.bytes = [0x02, 0x02, 0x00, 0x01]) ∧ ¬AppendsValue 65537 := by
  constructor
  · exact ⟨⟨[0x02, 0x02, 0x00, 0x01], by decide⟩, rfl, rfl⟩
  · exact not_appendsValue (by decide)

end PqMqtt.Signature
