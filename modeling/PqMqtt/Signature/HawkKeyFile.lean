import PqMqtt.Signature.DerWriter
import PqMqtt.Signature.KeyShim

/-!
# HAWK key files

`gen_hawk_pki.c` writes a HAWK key pair as a PKCS#8 `PrivateKeyInfo`, and the patched wolfSSL of
the firmware reads it back through `ToTraditionalInline_ex`, which is a parameter here.
-/

namespace PqMqtt.Signature

open Der

/-! ## The writer -/

/-- `OID_HAWK` -/
def oidHawk : List UInt8 := [0x2b, 0x06, 0x01, 0x04, 0x01, 0x86, 0x8d, 0x1f, 0x01, 0x01]

/-- `hawk_keypair` -/
structure HawkKeypair where
  priv : Bytes Scheme.hawk512.privSize
  pub : Bytes Scheme.hawk512.pubSize

/-- `alg_id` -/
def algId (out : DerBuf) : Option DerBuf := do
  let inner ← DerBuf.empty.oid oidHawk
  let inner ← inner.nullv
  out.seq inner

def pkcs8 (out : DerBuf) (kp : HawkKeypair) : Option DerBuf := do
  let inner ← DerBuf.empty.integerSmall 0
  let inner ← algId inner
  let inner ← inner.octetString (kp.priv.val ++ kp.pub.val)
  out.seq inner

/-! ## PrivateKeyInfo -/

/-- A `PrivateKeyInfo` whose algorithm has NULL parameters. -/
structure PrivateKeyInfo where
  version : List UInt8
  algorithm : List UInt8
  privateKey : List UInt8

namespace PrivateKeyInfo

/-- The algorithm and its parameters. -/
def identifier (info : PrivateKeyInfo) : List UInt8 :=
  element 0x06 info.algorithm ++ element 0x05 []

def body (info : PrivateKeyInfo) : List UInt8 :=
  element 0x02 info.version ++ (element 0x30 info.identifier ++ element 0x04 info.privateKey)

/-- The distinguished encoding. -/
def der (info : PrivateKeyInfo) : List UInt8 := element 0x30 info.body

/-- A strict reader: every length in its shortest form, nothing missing and nothing left over. -/
def read (der : List UInt8) : Option PrivateKeyInfo := do
  let (body, afterInfo) ← readElement 0x30 der
  let (version, afterVersion) ← readElement 0x02 body
  let (identifier, afterIdentifier) ← readElement 0x30 afterVersion
  let (privateKey, afterKey) ← readElement 0x04 afterIdentifier
  let (algorithm, afterAlgorithm) ← readElement 0x06 identifier
  let (parameters, afterParameters) ← readElement 0x05 afterAlgorithm
  if afterInfo ++ afterKey ++ parameters ++ afterParameters = [] then
    some ⟨version, algorithm, privateKey⟩
  else none

/-- What is read is in the distinguished encoding. -/
theorem eq_der_of_read {der : List UInt8} {info : PrivateKeyInfo} (h : read der = some info) :
    der = info.der := by
  simp only [read, Option.bind_eq_bind, Option.bind_eq_some_iff, Prod.exists] at h
  obtain ⟨body, afterInfo, hinfo, version, afterVersion, hversion, identifier, afterIdentifier,
    hidentifier, privateKey, afterKey, hkey, algorithm, afterAlgorithm, halgorithm, parameters,
    afterParameters, hparameters, hresult⟩ := h
  split_ifs at hresult with hnothing
  obtain rfl := Option.some.inj hresult
  simp only [List.append_eq_nil_iff] at hnothing
  obtain ⟨⟨⟨rfl, rfl⟩, rfl⟩, rfl⟩ := hnothing
  have hbody : body = element 0x02 version
      ++ (element 0x30 identifier ++ element 0x04 privateKey) := by
    rw [eq_of_readElement hversion, eq_of_readElement hidentifier, eq_of_readElement hkey,
      List.append_nil]
  have hidentifierOctets : identifier = element 0x06 algorithm ++ element 0x05 [] := by
    rw [eq_of_readElement halgorithm, eq_of_readElement hparameters, List.append_nil]
  rw [eq_of_readElement hinfo, List.append_nil, hbody, hidentifierOctets]
  rfl

/-- The encoding of a file that is not too long is read back. -/
theorem read_der (info : PrivateKeyInfo) (h : info.der.length < 2 ^ 32) :
    read info.der = some info := by
  have hbody := length_content_le 0x30 info.body
  have hversion := length_content_le 0x02 info.version
  have hidentifier := length_content_le 0x30 info.identifier
  have halgorithm := length_content_le 0x06 info.algorithm
  have hprivate := length_content_le 0x04 info.privateKey
  have hparts : info.body.length = (element 0x02 info.version).length
      + ((element 0x30 info.identifier).length + (element 0x04 info.privateKey).length) := by
    rw [body, List.length_append, List.length_append]
  have hidentifierParts : info.identifier.length
      = (element 0x06 info.algorithm).length + (element 0x05 []).length := by
    rw [identifier, List.length_append]
  have hder : info.der.length = (element 0x30 info.body).length := rfl
  have hshort (content : List UInt8) (hle : content.length ≤ info.der.length) :
      ShortLength content.length := shortLength_of_lt (hle.trans_lt h)
  have hbodyRead : readElement 0x30 (element 0x30 info.body) = some (info.body, []) := by
    simpa using readElement_element (hshort info.body (by omega)) 0x30 []
  have hversionRead : readElement 0x02 info.body
      = some (info.version, element 0x30 info.identifier ++ element 0x04 info.privateKey) :=
    readElement_element (hshort _ (by omega)) 0x02 _
  have hidentifierRead : readElement 0x30 (element 0x30 info.identifier
      ++ element 0x04 info.privateKey) = some (info.identifier, element 0x04 info.privateKey) :=
    readElement_element (hshort _ (by omega)) 0x30 _
  have hkeyRead : readElement 0x04 (element 0x04 info.privateKey) = some (info.privateKey, []) := by
    simpa using readElement_element (hshort info.privateKey (by omega)) 0x04 []
  have halgorithmRead : readElement 0x06 info.identifier
      = some (info.algorithm, element 0x05 []) :=
    readElement_element (hshort _ (by omega)) 0x06 _
  have hparametersRead : readElement 0x05 (element 0x05 []) = some ([], []) := by decide
  rw [read, der, hbodyRead]
  simp only [Option.bind_eq_bind, Option.bind_some, hversionRead, hidentifierRead, hkeyRead,
    halgorithmRead, hparametersRead]
  rfl

/-- The private key is the end of the encoding. -/
theorem exists_der_eq (info : PrivateKeyInfo) :
    ∃ header, info.der = header ++ info.privateKey := by
  refine ⟨0x30 :: lengthOctets info.body.length ++ element 0x02 info.version
    ++ element 0x30 info.identifier ++ 0x04 :: lengthOctets info.privateKey.length, ?_⟩
  simp only [der, body, element, List.append_assoc, List.cons_append]

end PrivateKeyInfo

/-! ## What is written -/

/-- What `pkcs8` writes for a key pair. -/
def HawkKeypair.info (kp : HawkKeypair) : PrivateKeyInfo :=
  ⟨[0], oidHawk, kp.priv.val ++ kp.pub.val⟩

theorem writes_algId :
    DerBuf.Writes algId (element 0x30 (element 0x06 oidHawk ++ element 0x05 [])) := by
  intro out
  have hnull : DerBuf.Writes DerBuf.nullv (element 0x05 []) := fun d ↦ rfl
  have hidentifier := ((DerBuf.writes_tlv 0x06 oidHawk).bind hnull).within 0x30 out
  simp only [Option.bind_assoc] at hidentifier
  exact hidentifier

/-- `pkcs8` writes the key pair in the distinguished encoding. -/
theorem writes_pkcs8 (kp : HawkKeypair) :
    DerBuf.Writes (fun out ↦ pkcs8 out kp) kp.info.der := by
  intro out
  have hkey := DerBuf.writes_tlv 0x04 (kp.priv.val ++ kp.pub.val)
  have hinfo := ((DerBuf.writes_tlv 0x02 [0]).bind (writes_algId.bind hkey)).within 0x30 out
  simp only [Option.bind_assoc] at hinfo
  exact hinfo

theorem length_privateKey (kp : HawkKeypair) :
    kp.info.privateKey.length = Scheme.hawk512.keypairSize := by
  rw [HawkKeypair.info, List.length_append, kp.priv.property, kp.pub.property,
    Scheme.keypairSize]

theorem length_der (kp : HawkKeypair) : kp.info.der.length = 1235 := by
  have hprivate := length_privateKey kp
  have hkeypair : Scheme.hawk512.keypairSize = 1208 := rfl
  have hkey : (element 0x04 kp.info.privateKey).length = 1212 := by
    rw [length_element, hprivate, hkeypair]
    decide
  have hidentifier : (element 0x30 kp.info.identifier).length = 16 := by
    simp only [HawkKeypair.info, PrivateKeyInfo.identifier]
    decide
  have hversion : (element 0x02 kp.info.version).length = 3 := by
    simp only [HawkKeypair.info]
    decide
  have hbody : kp.info.body.length = 1231 := by
    rw [PrivateKeyInfo.body, List.length_append, List.length_append, hkey, hidentifier, hversion]
  rw [PrivateKeyInfo.der, length_element, hbody]
  decide

/-- An empty buffer has room for a key file. -/
theorem pkcs8_empty (kp : HawkKeypair) :
    ∃ der, pkcs8 .empty kp = some der ∧ der.bytes = kp.info.der := by
  have hroom : kp.info.der.length ≤ bufCap := by
    rw [length_der]
    decide
  exact ⟨⟨kp.info.der, hroom⟩, (writes_pkcs8 kp).eq_some_iff.mpr rfl, rfl⟩

/-! ## The reader of the firmware -/

/-- What `ToTraditionalInline_ex` returns and leaves behind. -/
structure InlineRead where
  ret : ℤ
  inOutIdx : ℕ
  algId : ℕ

/-- The bytes that an `InlineRead` points at. -/
def InlineRead.contents (inline : InlineRead) (der : List UInt8) : List UInt8 :=
  (der.drop inline.inOutIdx).take inline.ret.toNat

/-- `hawk512_sa_algo` -/
def hawk512SaAlgo : ℕ := 18

/-- `ASN_PARSE_E`, and `HAWK512k`, whose value depends on the configuration of wolfSSL. -/
structure DecodeCodes where
  asnParseE : ℤ
  hawk512k : ℕ

/-- A PKCS#8 reader returns the octets of the private key of a HAWK `PrivateKeyInfo` of version 0,
and the algorithm id of HAWK. -/
def ReadsHawkKeys (codes : DecodeCodes) (toTraditionalInlineEx : List UInt8 → InlineRead) : Prop :=
  ∀ privateKey : List UInt8,
    let der := (PrivateKeyInfo.mk [0] oidHawk privateKey).der
    der.length < 2 ^ 31 →
      (toTraditionalInlineEx der).ret = privateKey.length ∧
      (toTraditionalInlineEx der).contents der = privateKey ∧
      (toTraditionalInlineEx der).algId = codes.hawk512k

/-- `*keyFormat`, `*keyType` and `*keySize` -/
structure KeyFormat where
  keyFormat : ℤ
  keyType : ℕ
  keySize : ℕ
deriving DecidableEq

section Decode

variable (wolf : WolfCodes) (codes : DecodeCodes)
  (toTraditionalInlineEx : List UInt8 → InlineRead)

/-- The test import of `ProcessBufferTryDecodeHawk512` into a local key object, which holds
anything before: whether it succeeds, and the object before it is wiped. -/
def tryImportHawk512 (keyData : List UInt8) (keyLen : ℤ) (key : Key .hawk512) :
    Bool × Option (Key .hawk512) :=
  if keyLen ≠ Scheme.hawk512.keypairSize then (false, some key)
  else
    match wcInit wolf (some key) with
    | (0, key) =>
      let (ret, key) := wcImportPrivateKeyPair wolf (some keyData) key
      (ret = 0, key)
    | (_, key) => (false, key)

/-- `ProcessBufferTryDecodeHawk512` -/
def processBufferTryDecodeHawk512 (der : List UInt8) (format : KeyFormat) (key : Key .hawk512) :
    ℤ × KeyFormat :=
  let inline := toTraditionalInlineEx der
  let (algId, keyData, keyLen) :=
    if 0 ≤ inline.ret then (inline.algId, inline.contents der, inline.ret)
    else if format.keyFormat = codes.hawk512k then (codes.hawk512k, der, (der.length : ℤ))
    else (inline.algId, der, inline.ret)
  if algId = codes.hawk512k then
    if (tryImportHawk512 wolf keyData keyLen key).1 then
      (0, ⟨codes.hawk512k, hawk512SaAlgo, Scheme.hawk512.keypairSize⟩)
    else (codes.asnParseE, format)
  else (0, format)

/-- The HAWK branch of `DecodePrivateKey_ex`, after it has allocated a key object: the return
value, the object and `*sigLen`. -/
def decodePrivateKeyHawk512 (der : List UInt8) (key : Key .hawk512) (sigLen : ℕ) :
    ℤ × Option (Key .hawk512) × ℕ :=
  let inline := toTraditionalInlineEx der
  if inline.ret = Scheme.hawk512.keypairSize ∧ inline.algId = codes.hawk512k then
    match wcImportPrivateKeyPair wolf (some (inline.contents der)) (some key) with
    | (0, key) => (0, key, Scheme.hawk512.sigSize)
    | (ret, key) => (ret, key, sigLen)
  else (codes.asnParseE, some key, sigLen)

/-- A key file that the host writes is a strict `PrivateKeyInfo` with version 0, the algorithm of
HAWK and the octets of both keys, and the firmware accepts it and imports both keys. -/
theorem hawk_key_file_loads (kp : HawkKeypair) (format : KeyFormat) (key : Key .hawk512)
    (sigLen : ℕ) (hread : ReadsHawkKeys codes toTraditionalInlineEx) :
    ∃ der, pkcs8 .empty kp = some der ∧
      PrivateKeyInfo.read der.bytes = some ⟨[0], oidHawk, kp.priv.val ++ kp.pub.val⟩ ∧
      processBufferTryDecodeHawk512 wolf codes toTraditionalInlineEx der.bytes format key
        = (0, ⟨codes.hawk512k, hawk512SaAlgo, Scheme.hawk512.keypairSize⟩) ∧
      tryImportHawk512 wolf ((toTraditionalInlineEx der.bytes).contents der.bytes)
        (toTraditionalInlineEx der.bytes).ret key = (true, some ⟨kp.priv, kp.pub, true, true⟩) ∧
      decodePrivateKeyHawk512 wolf codes toTraditionalInlineEx der.bytes key sigLen
        = (0, some ⟨kp.priv, kp.pub, true, true⟩, Scheme.hawk512.sigSize) := by
  obtain ⟨der, hwritten, hbytes⟩ := pkcs8_empty kp
  have hlength := length_der kp
  have hkeypair := length_privateKey kp
  obtain ⟨hret, hcontents, halgId⟩ := hread kp.info.privateKey
    (lt_of_eq_of_lt hlength (by norm_num))
  have hder : (PrivateKeyInfo.mk [0] oidHawk kp.info.privateKey).der = der.bytes := hbytes.symm
  rw [hder] at hret hcontents halgId
  rw [hkeypair] at hret
  have hnonneg : (0 : ℤ) ≤ (Scheme.hawk512.keypairSize : ℤ) := Int.natCast_nonneg _
  have himport (object : Key .hawk512) :
      wcImportPrivateKeyPair wolf (some kp.info.privateKey) (some object)
        = (0, some ⟨kp.priv, kp.pub, true, true⟩) :=
    wcImportPrivateKeyPair_append wolf kp.priv kp.pub object
  have htry : tryImportHawk512 wolf kp.info.privateKey Scheme.hawk512.keypairSize key
      = (true, some ⟨kp.priv, kp.pub, true, true⟩) := by
    rw [tryImportHawk512, if_neg (not_not.mpr rfl)]
    simp only [wcInit, himport, decide_true]
  refine ⟨der, hwritten, ?_, ?_, ?_, ?_⟩
  · rw [hbytes]
    exact PrivateKeyInfo.read_der kp.info (by rw [hlength]; norm_num)
  · simp only [processBufferTryDecodeHawk512, hret, hcontents, halgId, if_pos hnonneg, htry,
      if_true]
  · rw [hcontents, hret, htry]
  · simp only [decodePrivateKeyHawk512, hret, halgId, true_and, if_true, hcontents, himport]

end Decode

/-! ## A reader -/

/-- A reader that accepts strict HAWK key files, where the private key is the end of the file. -/
def sampleReader (codes : DecodeCodes) (der : List UInt8) : InlineRead :=
  match PrivateKeyInfo.read der with
  | some info =>
    if info.version = [0] ∧ info.algorithm = oidHawk then
      ⟨info.privateKey.length, der.length - info.privateKey.length, codes.hawk512k⟩
    else ⟨codes.asnParseE, 0, 0⟩
  | none => ⟨codes.asnParseE, 0, 0⟩

theorem sampleReader_reads (codes : DecodeCodes) : ReadsHawkKeys codes (sampleReader codes) := by
  intro privateKey der hlength
  obtain ⟨header, hheader⟩ := (PrivateKeyInfo.mk [0] oidHawk privateKey).exists_der_eq
  have hread : PrivateKeyInfo.read der = some ⟨[0], oidHawk, privateKey⟩ :=
    PrivateKeyInfo.read_der _ (hlength.trans (by norm_num))
  have hinline : sampleReader codes der
      = ⟨privateKey.length, der.length - privateKey.length, codes.hawk512k⟩ := by
    simp [sampleReader, hread]
  refine ⟨by rw [hinline], ?_, by rw [hinline]⟩
  have hder : der = header ++ privateKey := hheader
  rw [hinline, InlineRead.contents, hder, List.length_append, Nat.add_sub_cancel,
    List.drop_left, Int.toNat_natCast, List.take_length]

def sampleDecodeCodes : DecodeCodes := ⟨-140, 363⟩

def sampleKeypair : HawkKeypair :=
  ⟨⟨List.replicate 184 0x5a, List.length_replicate⟩,
    ⟨List.replicate 1024 0xc3, List.length_replicate⟩⟩

theorem sample_key_file_loads :
    ∃ der, pkcs8 .empty sampleKeypair = some der ∧
      PrivateKeyInfo.read der.bytes
        = some ⟨[0], oidHawk, sampleKeypair.priv.val ++ sampleKeypair.pub.val⟩ ∧
      processBufferTryDecodeHawk512 sampleWolfCodes sampleDecodeCodes
        (sampleReader sampleDecodeCodes) der.bytes ⟨0, 0, 0⟩ (.zero .hawk512)
        = (0, ⟨(363 : ℕ), hawk512SaAlgo, 1208⟩) ∧
      tryImportHawk512 sampleWolfCodes
        ((sampleReader sampleDecodeCodes der.bytes).contents der.bytes)
        (sampleReader sampleDecodeCodes der.bytes).ret (.zero .hawk512)
        = (true, some ⟨sampleKeypair.priv, sampleKeypair.pub, true, true⟩) ∧
      decodePrivateKeyHawk512 sampleWolfCodes sampleDecodeCodes
        (sampleReader sampleDecodeCodes) der.bytes (.zero .hawk512) 0
        = (0, some ⟨sampleKeypair.priv, sampleKeypair.pub, true, true⟩, 555) :=
  hawk_key_file_loads sampleWolfCodes sampleDecodeCodes (sampleReader sampleDecodeCodes)
    sampleKeypair ⟨0, 0, 0⟩ (.zero .hawk512) 0 (sampleReader_reads sampleDecodeCodes)

end PqMqtt.Signature
