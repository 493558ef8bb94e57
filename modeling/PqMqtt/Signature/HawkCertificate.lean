import PqMqtt.Foundation.Certificate
import PqMqtt.Signature.HawkKeyFile

/-!
# HAWK certificates

`gen_hawk_pki.c` writes certificates of version 3 through nested buffers.  `time` and the HAWK and
SHAKE functions are parameters; `gmtime_r` gives the date of the Gregorian calendar.
-/

namespace PqMqtt.Signature

open Der X509

/-! ## Names, times and keys -/

/-- `OID_CN` -/
def oidCn : List UInt8 := [0x55, 0x04, 0x03]

/-- `OID_BASIC_CONSTRAINTS` -/
def oidBasicConstraints : List UInt8 := [0x55, 0x1d, 0x13]

/-- `OID_KEY_USAGE` -/
def oidKeyUsage : List UInt8 := [0x55, 0x1d, 0x0f]

/-- `OID_EXT_KEY_USAGE` -/
def oidExtKeyUsage : List UInt8 := [0x55, 0x1d, 0x25]

/-- `OID_SUBJECT_ALT_NAME` -/
def oidSubjectAltName : List UInt8 := [0x55, 0x1d, 0x11]

/-- `OID_SERVER_AUTH` -/
def oidServerAuth : List UInt8 := [0x2b, 0x06, 0x01, 0x05, 0x05, 0x07, 0x03, 0x01]

/-- `OID_CLIENT_AUTH` -/
def oidClientAuth : List UInt8 := [0x2b, 0x06, 0x01, 0x05, 0x05, 0x07, 0x03, 0x02]

/-- `name_cn`; a name is its bytes before the NUL. -/
def nameCn (out : DerBuf) (cn : List UInt8) : Option DerBuf := do
  let atv ← DerBuf.empty.oid oidCn
  let atv ← atv.tlv 0x13 cn
  let rdn ← DerBuf.empty.seq atv
  let name ← DerBuf.empty.set rdn
  out.seq name

/-- The conversion `%0*d`. -/
def formatPadded (width : ℕ) (n : ℤ) : List UInt8 :=
  if n < 0 then 0x2d :: decimal (width - 1) n.natAbs else decimal width n.toNat

/-- The text that `snprintf` leaves in the 16 bytes of `s`, without the NUL. -/
def timeString (t : ℤ) : List UInt8 :=
  let tmv := Civil.ofSeconds t
  (formatPadded 4 tmv.year ++ (formatPadded 2 tmv.month ++ (formatPadded 2 tmv.day ++
    (formatPadded 2 tmv.hour ++ (formatPadded 2 tmv.minute ++
    (formatPadded 2 tmv.second ++ [0x5a])))))).take 15

/-- `generalized_time` -/
def generalizedTime (out : DerBuf) (t : ℤ) : Option DerBuf := out.tlv 0x18 (timeString t)

def validity (out : DerBuf) (nb na : ℤ) : Option DerBuf := do
  let inner ← generalizedTime .empty nb
  let inner ← generalizedTime inner na
  out.seq inner

def spki (out : DerBuf) (pub : Bytes Scheme.hawk512.pubSize) : Option DerBuf := do
  let inner ← algId .empty
  let inner ← inner.bitString pub.val
  out.seq inner

/-! ## Extensions -/

def extension (out : DerBuf) (oidv : List UInt8) (critical : Bool) (value : DerBuf) :
    Option DerBuf := do
  let inner ← DerBuf.empty.oid oidv
  let inner ← if critical then inner.boolean true else some inner
  let inner ← inner.octetString value.bytes
  out.seq inner

/-- `basic_constraints_value` -/
def basicConstraintsValue (out : DerBuf) (isCa : Bool) : Option DerBuf := do
  let inner ← DerBuf.empty.boolean isCa
  out.seq inner

/-- `key_usage_value` -/
def keyUsageValue (out : DerBuf) (isCa : Bool) : Option DerBuf :=
  if isCa then out.bitStringRaw 1 [0x06] else out.bitStringRaw 7 [0x80]

/-- `eku_value` -/
def ekuValue (out : DerBuf) (serverAuth : Bool) : Option DerBuf := do
  let inner ← DerBuf.empty.oid (if serverAuth then oidServerAuth else oidClientAuth)
  out.seq inner

/-- `pico-mqtt-broker` -/
def brokerDns : List UInt8 :=
  [0x70, 0x69, 0x63, 0x6f, 0x2d, 0x6d, 0x71, 0x74, 0x74, 0x2d, 0x62, 0x72, 0x6f, 0x6b, 0x65, 0x72]

def brokerIp : List UInt8 := [192, 168, 1, 50]

/-- `san_value` -/
def sanValue (out : DerBuf) : Option DerBuf := do
  let inner ← DerBuf.empty.tlv 0x82 brokerDns
  let inner ← inner.tlv 0x87 brokerIp
  out.seq inner

/-- `memset` of a whole buffer. -/
def DerBuf.clear (_ : DerBuf) : DerBuf := .empty

/-- `v3_extensions` -/
def v3Extensions (out : DerBuf) (isCa isServer : Bool) : Option DerBuf := do
  let val ← basicConstraintsValue .empty isCa
  let all ← extension .empty oidBasicConstraints true val
  let val ← keyUsageValue val.clear isCa
  let all ← extension all oidKeyUsage true val
  let (all, val) ←
    if isCa then some (all, val)
    else do
      let val ← ekuValue val.clear isServer
      let all ← extension all oidExtKeyUsage false val
      some (all, val)
  let all ←
    if isServer then do
      let val ← sanValue val.clear
      extension all oidSubjectAltName false val
    else some all
  let seqbuf ← DerBuf.empty.seq all
  out.tlv 0xa3 seqbuf.bytes

/-! ## Certificates -/

/-- Ten years without leap days. -/
def validitySeconds : ℤ := 3650 * 24 * 3600

/-- `make_tbs`, where `time` returns `now`. -/
def makeTbs (now : ℤ) (out : DerBuf) (serial : UInt32) (issuerCn subjectCn : List UInt8)
    (subjectKey : HawkKeypair) (isCa isServer : Bool) : Option DerBuf := do
  let ver ← DerBuf.empty.integerSmall 2
  let inner ← DerBuf.empty.tlv 0xa0 ver.bytes
  let inner ← inner.integerSmall serial.toNat
  let inner ← algId inner
  let inner ← nameCn inner issuerCn
  let inner ← validity inner now (now + validitySeconds)
  let inner ← nameCn inner subjectCn
  let inner ← spki inner subjectKey.pub
  let inner ← v3Extensions inner isCa isServer
  out.seq inner

/-- `malloc` of the memory for signing, the functions of SHAKE and of HAWK; `hawk_sign_finish`
may fail, also for want of random numbers. -/
structure HawkApi (Context : Type) where
  malloc : Bool
  hawkSignStart : Context
  shakeInject : Context → List UInt8 → Context
  shakeFlip : Context → Context
  hawkSignFinish : Context → Bytes Scheme.hawk512.privSize → Option (Bytes Scheme.hawk512.sigSize)

variable {Context : Type} (api : HawkApi Context)

/-- The signature of octets. -/
def HawkApi.sign (octets : List UInt8) (priv : Bytes Scheme.hawk512.privSize) :
    Option (Bytes Scheme.hawk512.sigSize) :=
  api.hawkSignFinish (api.shakeFlip (api.shakeInject api.hawkSignStart octets)) priv

/-- `sign_tbs` -/
def signTbs (tbs : DerBuf) (issuer : HawkKeypair) : Option (Bytes Scheme.hawk512.sigSize) :=
  if api.malloc then
    let sc := api.hawkSignStart
    let sc := api.shakeInject sc tbs.bytes
    let sc := api.shakeFlip sc
    api.hawkSignFinish sc issuer.priv
  else none

/-- `make_cert` -/
def makeCert (now : ℤ) (out : DerBuf) (serial : UInt32) (issuerCn : List UInt8)
    (issuerKey : HawkKeypair) (subjectCn : List UInt8) (subjectKey : HawkKeypair)
    (isCa isServer : Bool) : Option DerBuf := do
  let tbs ← makeTbs now .empty serial issuerCn subjectCn subjectKey isCa isServer
  let sig ← signTbs api tbs issuerKey
  let inner ← DerBuf.empty.put tbs.bytes
  let inner ← algId inner
  let inner ← inner.bitString sig.val
  out.seq inner

/-! ## What is written -/

open DerBuf

/-- A name that consists of a common name, a `PrintableString`. -/
def commonName (cn : List UInt8) : Name := [[⟨oidCn, 0x13, cn⟩]]

theorem writes_nameCn (cn : List UInt8) :
    Writes (fun out ↦ nameCn out cn) (nameOctets (commonName cn)) := by
  intro out
  have hname := ((((writes_tlv 0x06 oidCn).bind (writes_tlv 0x13 cn)).within 0x30).within
    0x31).within 0x30 out
  simp only [Option.bind_assoc] at hname
  have hoctets : nameOctets (commonName cn)
      = element 0x30 (element 0x31 (element 0x30 (element 0x06 oidCn ++ element 0x13 cn))) := by
    simp only [nameOctets, commonName, Attribute.der, List.flatMap_singleton]
  rw [hoctets]
  exact hname

theorem writes_validity (nb na : ℤ) :
    Writes (fun out ↦ validity out nb na)
      (element 0x30 (element 0x18 (timeString nb) ++ element 0x18 (timeString na))) := by
  intro out
  have hvalidity := ((writes_tlv 0x18 (timeString nb)).bind
    (writes_tlv 0x18 (timeString na))).within 0x30 out
  simp only [Option.bind_assoc] at hvalidity
  exact hvalidity

theorem writes_spki (pub : Bytes Scheme.hawk512.pubSize) :
    Writes (fun out ↦ spki out pub)
      (element 0x30 (algorithmOctets oidHawk ++ element 0x03 (0 :: pub.val))) := by
  intro out
  have hspki := (writes_algId.bind (writes_bitString pub.val)).within 0x30 out
  simp only [Option.bind_assoc] at hspki
  exact hspki

theorem writes_extension (oidv : List UInt8) (critical : Bool) (value : DerBuf) :
    Writes (fun out ↦ extension out oidv critical value)
      (RawExtension.der ⟨oidv, critical, value.bytes⟩) := by
  intro out
  cases critical with
  | false =>
    have hextension := ((writes_tlv 0x06 oidv).bind
      (writes_tlv 0x04 value.bytes)).within 0x30 out
    simp only [Option.bind_assoc] at hextension
    exact hextension
  | true =>
    have hextension := ((writes_tlv 0x06 oidv).bind ((writes_tlv 0x01 [0xff]).bind
      (writes_tlv 0x04 value.bytes))).within 0x30 out
    simp only [Option.bind_assoc] at hextension
    exact hextension

/-- The value of an extension is written to a buffer of its own. -/
theorem writes_extension_of {write : DerBuf → Option DerBuf} {octets : List UInt8}
    (h : Writes write octets) (oidv : List UInt8) (critical : Bool) :
    Writes (fun out ↦ (write empty).bind fun value ↦ extension out oidv critical value)
      (RawExtension.der ⟨oidv, critical, octets⟩) := by
  apply @Writes.through write octets h (fun value out ↦ extension out oidv critical value)
    (fun octets ↦ RawExtension.der ⟨oidv, critical, octets⟩) (writes_extension oidv critical)
  have hvalue := length_content_le 0x04 octets
  have hder := length_content_le 0x30 (element 0x06 oidv ++
    ((if critical then element 0x01 [0xff] else []) ++ element 0x04 octets))
  simp only [RawExtension.der, List.length_append] at hder ⊢
  omega

/-! ## The extensions -/

def basicConstraintsOctets (isCa : Bool) : List UInt8 :=
  element 0x30 (element 0x01 [if isCa then 0xff else 0x00])

def keyUsageOctets (isCa : Bool) : List UInt8 :=
  element 0x03 (if isCa then [1, 0x06] else [7, 0x80])

def ekuOctets (serverAuth : Bool) : List UInt8 :=
  element 0x30 (element 0x06 (if serverAuth then oidServerAuth else oidClientAuth))

def sanOctets : List UInt8 := element 0x30 (element 0x82 brokerDns ++ element 0x87 brokerIp)

def rawExtensions (isCa isServer : Bool) : List RawExtension :=
  ⟨oidBasicConstraints, true, basicConstraintsOctets isCa⟩ ::
    ⟨oidKeyUsage, true, keyUsageOctets isCa⟩ ::
    ((if isCa then [] else [⟨oidExtKeyUsage, false, ekuOctets isServer⟩]) ++
      if isServer then [⟨oidSubjectAltName, false, sanOctets⟩] else [])

theorem writes_basicConstraintsValue (isCa : Bool) :
    Writes (fun out ↦ basicConstraintsValue out isCa) (basicConstraintsOctets isCa) :=
  (writes_tlv 0x01 [if isCa then 0xff else 0x00]).within 0x30

theorem writes_keyUsageValue (isCa : Bool) :
    Writes (fun out ↦ keyUsageValue out isCa) (keyUsageOctets isCa) := by
  cases isCa with
  | false => exact writes_bitStringRaw 7 [0x80]
  | true => exact writes_bitStringRaw 1 [0x06]

theorem writes_ekuValue (serverAuth : Bool) :
    Writes (fun out ↦ ekuValue out serverAuth) (ekuOctets serverAuth) :=
  (writes_tlv 0x06 (if serverAuth then oidServerAuth else oidClientAuth)).within 0x30

theorem writes_sanValue : Writes sanValue sanOctets := by
  intro out
  have hvalue := ((writes_tlv 0x82 brokerDns).bind (writes_tlv 0x87 brokerIp)).within 0x30 out
  simp only [Option.bind_assoc] at hvalue
  exact hvalue

theorem writes_v3Extensions (isCa isServer : Bool) :
    Writes (fun out ↦ v3Extensions out isCa isServer)
      (element 0xa3 (element 0x30 ((rawExtensions isCa isServer).flatMap RawExtension.der))) := by
  have hbasic := writes_extension_of (writes_basicConstraintsValue isCa) oidBasicConstraints true
  have husage := writes_extension_of (writes_keyUsageValue isCa) oidKeyUsage true
  have hpurpose := writes_extension_of (writes_ekuValue isServer) oidExtKeyUsage false
  have hnames := writes_extension_of writes_sanValue oidSubjectAltName false
  intro out
  cases isCa <;> cases isServer
  · have hall := ((hbasic.bind (husage.bind (hpurpose.bind writes_some))).within
      0x30).within 0xa3 out
    simp only [Option.bind_assoc] at hall
    exact hall
  · have hall := ((hbasic.bind (husage.bind (hpurpose.bind (hnames.bind writes_some)))).within
      0x30).within 0xa3 out
    simp only [Option.bind_assoc] at hall
    exact hall
  · have hall := ((hbasic.bind (husage.bind writes_some)).within 0x30).within 0xa3 out
    simp only [Option.bind_assoc] at hall
    exact hall
  · have hall := ((hbasic.bind (husage.bind (hnames.bind writes_some))).within 0x30).within 0xa3 out
    simp only [Option.bind_assoc] at hall
    exact hall

/-- The usages of a key. -/
def usages (isCa : Bool) : List KeyUsage :=
  if isCa then [.keyCertSign, .cRLSign] else [.digitalSignature]

/-- The extensions that the flags imply. -/
def impliedExtensions (isCa isServer : Bool) : List Extension :=
  ⟨true, .basicConstraints isCa⟩ :: ⟨true, .keyUsage (usages isCa)⟩ ::
    ((if isCa then []
      else [⟨false, .extKeyUsage [if isServer then oidServerAuth else oidClientAuth]⟩]) ++
      if isServer then [⟨false, .subjectAltName [(0x82, brokerDns), (0x87, brokerIp)]⟩] else [])

theorem mapM_read_rawExtensions (isCa isServer : Bool) :
    (rawExtensions isCa isServer).mapM RawExtension.read
      = some (impliedExtensions isCa isServer) := by
  cases isCa <;> cases isServer <;> decide +kernel

/-! ## The certificate -/

section Request

variable (now : ℤ) (serial : UInt32) (issuerCn subjectCn : List UInt8)
  (subjectKey : HawkKeypair) (isCa isServer : Bool)

def tbsForm : TbsForm :=
  ⟨DerBuf.smallOctets 2, DerBuf.smallOctets serial.toNat, oidHawk, commonName issuerCn,
    timeString now, timeString (now + validitySeconds), commonName subjectCn, oidHawk,
    subjectKey.pub.val, rawExtensions isCa isServer⟩

theorem writes_makeTbs :
    Writes (fun out ↦ makeTbs now out serial issuerCn subjectCn subjectKey isCa isServer)
      (tbsForm now serial issuerCn subjectCn subjectKey isCa isServer).der := by
  intro out
  have hversion := (writes_tlv 0x02 (smallOctets 2)).within 0xa0
  have hserial := writes_tlv 0x02 (smallOctets serial.toNat)
  have hvalidity := writes_validity now (now + validitySeconds)
  have hextensions := writes_v3Extensions isCa isServer
  have htbs := (hversion.bind (hserial.bind (writes_algId.bind ((writes_nameCn issuerCn).bind
    (hvalidity.bind ((writes_nameCn subjectCn).bind ((writes_spki subjectKey.pub).bind
    hextensions))))))).within 0x30 out
  simp only [Option.bind_assoc] at htbs
  exact htbs

theorem writes_certificate (tbs : DerBuf) (sig : Bytes Scheme.hawk512.sigSize) :
    Writes (fun out ↦ do
        let inner ← DerBuf.empty.put tbs.bytes
        let inner ← algId inner
        let inner ← inner.bitString sig.val
        out.seq inner)
      (element 0x30 (tbs.bytes ++ (algorithmOctets oidHawk ++ element 0x03 (0 :: sig.val)))) := by
  intro out
  have hput : Writes (fun d ↦ d.put tbs.bytes) tbs.bytes := fun d ↦ rfl
  have hcert := (hput.bind (writes_algId.bind (writes_bitString sig.val))).within 0x30 out
  simp only [Option.bind_assoc] at hcert
  exact hcert

/-- What `make_tbs` is asked for; version 3 is written as 2. -/
def requestedTbs : TbsCertificate :=
  ⟨2, serial.toNat, oidHawk, commonName issuerCn, now, now + validitySeconds,
    commonName subjectCn, oidHawk, subjectKey.pub.val, impliedExtensions isCa isServer⟩

/-- The years of a time that `generalized_time` can write. -/
def FourDigitYear (t : ℤ) : Prop :=
  0 ≤ (Civil.ofSeconds t).year ∧ (Civil.ofSeconds t).year ≤ 9999

theorem timeString_eq {t : ℤ} (h : FourDigitYear t) :
    timeString t = timeText (Civil.ofSeconds t) := by
  have hfour : formatPadded 4 (Civil.ofSeconds t).year
      = decimal 4 (Civil.ofSeconds t).year.toNat := if_neg (not_lt.mpr h.1)
  have hfield (n : ℕ) : formatPadded 2 n = decimal 2 n := if_neg (not_lt.mpr (Int.natCast_nonneg n))
  have hlength := length_timeText (Civil.valid_ofSeconds t) h.2
  rw [timeString]
  simp only [hfour, hfield]
  exact List.take_of_length_le hlength.le

/-- The seconds of a time are read back from what `generalized_time` writes. -/
theorem readTime_timeString {t : ℤ} (h : FourDigitYear t) : readTime (timeString t) = some t := by
  rw [timeString_eq h]
  exact readTime_timeText h.1 h.2

theorem readInteger_smallOctets {v : ℕ} (h : v ≤ 0xffff) :
    readInteger (smallOctets v) = some v := by
  rw [smallOctets_eq h]
  exact readInteger_integerOctets v

theorem standsFor_tbsForm (hserial : serial.toNat ≤ 0xffff) (hbefore : FourDigitYear now)
    (hafter : FourDigitYear (now + validitySeconds)) :
    (tbsForm now serial issuerCn subjectCn subjectKey isCa isServer).StandsFor
      (requestedTbs now serial issuerCn subjectCn subjectKey isCa isServer) where
  version := readInteger_smallOctets (show 2 ≤ 0xffff by norm_num)
  serial := readInteger_smallOctets hserial
  signature := rfl
  issuer := rfl
  notBefore := readTime_timeString hbefore
  notAfter := readTime_timeString hafter
  subject := rfl
  keyAlgorithm := rfl
  publicKey := rfl
  extensions := mapM_read_rawExtensions isCa isServer

theorem exists_of_makeCert {out written : DerBuf} {issuerKey : HawkKeypair}
    (h : makeCert api now out serial issuerCn issuerKey subjectCn subjectKey isCa isServer
      = some written) :
    ∃ tbs sig, makeTbs now .empty serial issuerCn subjectCn subjectKey isCa isServer = some tbs ∧
      api.sign tbs.bytes issuerKey.priv = some sig ∧
      written.bytes = out.bytes ++ element 0x30
        (tbs.bytes ++ (algorithmOctets oidHawk ++ element 0x03 (0 :: sig.val))) := by
  obtain ⟨tbs, htbs, hrest⟩ := Option.bind_eq_some_iff.mp h
  obtain ⟨sig, hsig, hcert⟩ := Option.bind_eq_some_iff.mp hrest
  unfold signTbs at hsig
  split_ifs at hsig with hmalloc
  exact ⟨tbs, sig, htbs, hsig, (writes_certificate tbs sig).eq_some_iff.mp hcert⟩

/-- Where there is memory and room and the key signs, there is a certificate. -/
theorem exists_makeCert {issuerKey : HawkKeypair} {sig : Bytes Scheme.hawk512.sigSize}
    (hmalloc : api.malloc = true)
    (hsig : api.sign (tbsForm now serial issuerCn subjectCn subjectKey isCa isServer).der
      issuerKey.priv = some sig)
    (hroom : (element 0x30 ((tbsForm now serial issuerCn subjectCn subjectKey isCa isServer).der ++
      (algorithmOctets oidHawk ++ element 0x03 (0 :: sig.val)))).length ≤ bufCap) :
    ∃ written, makeCert api now .empty serial issuerCn issuerKey subjectCn subjectKey isCa isServer
      = some written := by
  have hcontent := length_content_le 0x30
    ((tbsForm now serial issuerCn subjectCn subjectKey isCa isServer).der ++
      (algorithmOctets oidHawk ++ element 0x03 (0 :: sig.val)))
  rw [List.length_append] at hcontent
  have htbsRoom : (tbsForm now serial issuerCn subjectCn subjectKey isCa isServer).der.length
      ≤ bufCap := (Nat.le_add_right _ _).trans (hcontent.trans hroom)
  obtain ⟨tbs, htbsBytes⟩ : ∃ tbs : DerBuf,
      tbs.bytes = (tbsForm now serial issuerCn subjectCn subjectKey isCa isServer).der :=
    ⟨⟨_, htbsRoom⟩, rfl⟩
  have htbs : makeTbs now .empty serial issuerCn subjectCn subjectKey isCa isServer = some tbs :=
    (writes_makeTbs now serial issuerCn subjectCn subjectKey isCa isServer).eq_some_iff.mpr
      htbsBytes
  rw [← htbsBytes] at hsig hroom
  have hsigned : signTbs api tbs issuerKey = some sig := (if_pos hmalloc).trans hsig
  refine ⟨⟨_, hroom⟩, ?_⟩
  rw [makeCert, htbs, Option.bind_eq_bind, Option.bind_some, hsigned]
  exact (writes_certificate tbs sig).eq_some_iff.mpr rfl

/-- What `make_tbs` and `make_cert` append is read back as what they were asked for, to its end,
and the signature is that of the octets that the certificate contains. -/
theorem hawk_certificate_reads_back (out : DerBuf) (issuerKey : HawkKeypair)
    (hserial : serial.toNat ≤ 0xffff) (hbefore : FourDigitYear now)
    (hafter : FourDigitYear (now + validitySeconds)) :
    (∀ written, makeTbs now out serial issuerCn subjectCn subjectKey isCa isServer
        = some written →
      ∃ der, written.bytes = out.bytes ++ der ∧
        readWhole tbsCertificate der
          = some (requestedTbs now serial issuerCn subjectCn subjectKey isCa isServer)) ∧
    ∀ written, makeCert api now out serial issuerCn issuerKey subjectCn subjectKey isCa isServer
        = some written →
      ∃ der tbsOctets sig, written.bytes = out.bytes ++ der ∧
        api.sign tbsOctets issuerKey.priv = some sig ∧
        readWhole certificate der
          = some ⟨tbsOctets, requestedTbs now serial issuerCn subjectCn subjectKey isCa isServer,
              oidHawk, sig.val⟩ := by
  have hreads := reads_tbsCertificate (standsFor_tbsForm now serial issuerCn subjectCn subjectKey
    isCa isServer hserial hbefore hafter)
  have hwrites := writes_makeTbs now serial issuerCn subjectCn subjectKey isCa isServer
  constructor
  · intro written hwritten
    have hbytes := hwrites.eq_some_iff.mp hwritten
    exact ⟨_, hbytes, hreads.readWhole (length_lt hbytes)⟩
  · intro written hwritten
    obtain ⟨tbs, sig, htbs, hsig, hbytes⟩ := exists_of_makeCert api now serial issuerCn subjectCn
      subjectKey isCa isServer hwritten
    have htbsBytes : tbs.bytes = [] ++ _ := hwrites.eq_some_iff.mp htbs
    rw [List.nil_append] at htbsBytes
    refine ⟨_, tbs.bytes, sig, hbytes, hsig, ?_⟩
    rw [htbsBytes] at hbytes ⊢
    exact (reads_certificate hreads oidHawk sig.val).readWhole (length_lt hbytes)

end Request

/-! ## A certificate of the broker -/

/-- Signatures whose octets are the low octets of sums. -/
def sampleHawkApi : HawkApi ℕ where
  malloc := true
  hawkSignStart := 0
  shakeInject := fun context octets ↦ octets.foldl (fun sum octet ↦ sum + octet.toNat) context
  shakeFlip := id
  hawkSignFinish := fun context priv ↦
    some ⟨List.replicate 555 (UInt8.ofNat (context + priv.val.length)), List.length_replicate⟩

/-- `hawk512-root-ca` -/
def rootCn : List UInt8 :=
  [0x68, 0x61, 0x77, 0x6b, 0x35, 0x31, 0x32, 0x2d, 0x72, 0x6f, 0x6f, 0x74, 0x2d, 0x63, 0x61]

theorem exists_brokerCertificate :
    ∃ written, makeCert sampleHawkApi 1758240000 .empty 2 rootCn sampleKeypair brokerDns
      sampleKeypair false true = some written := by
  refine exists_makeCert sampleHawkApi 1758240000 2 rootCn brokerDns sampleKeypair false true rfl
    rfl ?_
  decide +kernel

theorem brokerCertificate_reads_back :
    ∃ written, makeCert sampleHawkApi 1758240000 .empty 2 rootCn sampleKeypair brokerDns
        sampleKeypair false true = some written ∧
      ∃ der tbsOctets sig, written.bytes = [] ++ der ∧
        sampleHawkApi.sign tbsOctets sampleKeypair.priv = some sig ∧
        readWhole certificate der
          = some ⟨tbsOctets, requestedTbs 1758240000 2 rootCn brokerDns sampleKeypair false true,
              oidHawk, sig.val⟩ := by
  obtain ⟨written, hwritten⟩ := exists_brokerCertificate
  have hreads := hawk_certificate_reads_back sampleHawkApi 1758240000 2 rootCn brokerDns
    sampleKeypair false true .empty sampleKeypair (by decide) ⟨by decide, by decide⟩
    ⟨by decide, by decide⟩
  exact ⟨written, hwritten, hreads.2 written hwritten⟩

end PqMqtt.Signature
