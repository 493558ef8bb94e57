import PqMqtt.Foundation.GeneralizedTime

/-!
# Certificates

Certificates of version 3 of X.509 whose algorithms have NULL parameters, as far as the extensions
for basic constraints, key usage, extended key usage and alternative names go.  The reader takes
the distinguished encoding, leaves nothing over and keeps the octets that are signed; it also
takes a false `cA` that is written out.
-/

namespace PqMqtt.X509

open Der

/-! ## Certificates -/

structure Attribute where
  type : List UInt8
  tag : UInt8
  value : List UInt8
deriving DecidableEq

/-- Relative distinguished names. -/
abbrev Name := List (List Attribute)

/-- The bits of a key usage, from the first on. -/
inductive KeyUsage where
  | digitalSignature
  | nonRepudiation
  | keyEncipherment
  | dataEncipherment
  | keyAgreement
  | keyCertSign
  | cRLSign
  | encipherOnly
  | decipherOnly
deriving DecidableEq

def keyUsages : List KeyUsage :=
  [.digitalSignature, .nonRepudiation, .keyEncipherment, .dataEncipherment, .keyAgreement,
    .keyCertSign, .cRLSign, .encipherOnly, .decipherOnly]

inductive ExtensionValue where
  | basicConstraints (ca : Bool)
  | keyUsage (usages : List KeyUsage)
  | extKeyUsage (purposes : List (List UInt8))
  | subjectAltName (names : List (UInt8 × List UInt8))
deriving DecidableEq

structure Extension where
  critical : Bool
  value : ExtensionValue
deriving DecidableEq

structure TbsCertificate where
  version : ℕ
  serial : ℕ
  signature : List UInt8
  issuer : Name
  notBefore : ℤ
  notAfter : ℤ
  subject : Name
  keyAlgorithm : List UInt8
  publicKey : List UInt8
  extensions : List Extension
deriving DecidableEq

/-- `tbsOctets` are the octets that are signed. -/
structure Certificate where
  tbsOctets : List UInt8
  tbs : TbsCertificate
  signatureAlgorithm : List UInt8
  signature : List UInt8
deriving DecidableEq

/-! ## Fields -/

def integer : Reader ℕ := convert (content 0x02) readInteger

def identifier : Reader (List UInt8) := content 0x06

def noOctets (octets : List UInt8) : Option Unit := if octets = [] then some () else none

def algorithmFields : Reader (List UInt8) := do
  let algorithm ← identifier
  let _ ← convert (content 0x05) noOctets
  pure algorithm

def algorithm : Reader (List UInt8) := within 0x30 algorithmFields

/-- The octets of a bit string without unused bits. -/
def wholeOctets : List UInt8 → Option (List UInt8)
  | [] => none
  | unused :: octets => if unused = 0 then some octets else none

def bitOctets : Reader (List UInt8) := convert (content 0x03) wholeOctets

def attributeFields : Reader Attribute := do
  let type ← identifier
  let (tag, value) ← anyElement
  pure ⟨type, tag, value⟩

def name : Reader Name := sequenceOf 0x30 (sequenceOf 0x31 (within 0x30 attributeFields))

def validityFields : Reader (ℤ × ℤ) := do
  let notBefore ← convert (content 0x18) readTime
  let notAfter ← convert (content 0x18) readTime
  pure (notBefore, notAfter)

def publicKeyFields : Reader (List UInt8 × List UInt8) := do
  let algorithm ← algorithm
  let key ← bitOctets
  pure (algorithm, key)

/-! ## Extensions -/

def readBoolean (octets : List UInt8) : Option Bool :=
  if octets = [0xff] then some true else if octets = [0x00] then some false else none

/-- The bits of a bit string, first to last; the unused bits have to be zero. -/
def readBits : List UInt8 → Option (List Bool)
  | [] => none
  | unused :: octets =>
    let bits := octets.flatMap fun octet ↦ (List.range 8).map fun i ↦ octet.toNat.testBit (7 - i)
    let used := bits.length - unused.toNat
    if unused.toNat < 8 ∧ unused.toNat ≤ bits.length ∧ true ∉ bits.drop used then
      some (bits.take used)
    else none

/-- Named bits end with a one. -/
def readKeyUsage (octets : List UInt8) : Option (List KeyUsage) := do
  let bits ← readBits octets
  if bits.getLast? = some false then none
  else some ((keyUsages.zip bits).filterMap fun (usage, bit) ↦ if bit then some usage else none)

/-- The object identifiers of the extensions, below `2.5.29`. -/
def readExtensionValue (type octets : List UInt8) : Option ExtensionValue :=
  if type = [0x55, 0x1d, 0x13] then
    (readWhole (within 0x30 (convert (content 0x01) readBoolean)) octets).map .basicConstraints
  else if type = [0x55, 0x1d, 0x0f] then
    (readWhole (convert (content 0x03) readKeyUsage) octets).map .keyUsage
  else if type = [0x55, 0x1d, 0x25] then
    (readWhole (sequenceOf 0x30 identifier) octets).map .extKeyUsage
  else if type = [0x55, 0x1d, 0x11] then
    (readWhole (sequenceOf 0x30 anyElement) octets).map .subjectAltName
  else none

/-- An extension whose value has not been read yet. -/
structure RawExtension where
  type : List UInt8
  critical : Bool
  octets : List UInt8

/-- An extension is critical where it says so, which is left out elsewhere. -/
def criticalOrValue : UInt8 × List UInt8 → Reader (Bool × List UInt8)
  | (tag, octets) =>
    if tag = 0x01 ∧ octets = [0xff] then do
      let value ← content 0x04
      pure (true, value)
    else if tag = 0x04 then pure (false, octets)
    else failure

def extensionFields : Reader RawExtension := do
  let type ← identifier
  let first ← anyElement
  let (critical, octets) ← criticalOrValue first
  pure ⟨type, critical, octets⟩

def RawExtension.read (raw : RawExtension) : Option Extension :=
  (readExtensionValue raw.type raw.octets).map fun value ↦ ⟨raw.critical, value⟩

def extensions : Reader (List Extension) :=
  within 0xa3 (convert (sequenceOf 0x30 (within 0x30 extensionFields)) (·.mapM RawExtension.read))

/-! ## The certificate -/

def tbsFields : Reader TbsCertificate := do
  let version ← within 0xa0 integer
  let serial ← integer
  let signature ← algorithm
  let issuer ← name
  let (notBefore, notAfter) ← within 0x30 validityFields
  let subject ← name
  let (keyAlgorithm, publicKey) ← within 0x30 publicKeyFields
  let extensions ← extensions
  pure ⟨version, serial, signature, issuer, notBefore, notAfter, subject, keyAlgorithm, publicKey,
    extensions⟩

def tbsCertificate : Reader TbsCertificate := within 0x30 tbsFields

def certificateFields : Reader Certificate := do
  let (tbsOctets, tbs) ← withOctets tbsCertificate
  let signatureAlgorithm ← algorithm
  let signature ← bitOctets
  pure ⟨tbsOctets, tbs, signatureAlgorithm, signature⟩

def certificate : Reader Certificate := within 0x30 certificateFields

/-! ## Octets that are read -/

def algorithmOctets (algorithm : List UInt8) : List UInt8 :=
  element 0x30 (element 0x06 algorithm ++ element 0x05 [])

def Attribute.der (pair : Attribute) : List UInt8 :=
  element 0x30 (element 0x06 pair.type ++ element pair.tag pair.value)

def nameOctets (name : Name) : List UInt8 :=
  element 0x30 (name.flatMap fun attributes ↦ element 0x31 (attributes.flatMap Attribute.der))

def RawExtension.der (raw : RawExtension) : List UInt8 :=
  element 0x30 (element 0x06 raw.type ++
    ((if raw.critical then element 0x01 [0xff] else []) ++ element 0x04 raw.octets))

/-- The octets of the numbers, texts and extensions of what is signed. -/
structure TbsForm where
  version : List UInt8
  serial : List UInt8
  signature : List UInt8
  issuer : Name
  notBefore : List UInt8
  notAfter : List UInt8
  subject : Name
  keyAlgorithm : List UInt8
  publicKey : List UInt8
  extensions : List RawExtension

namespace TbsForm

def body (form : TbsForm) : List UInt8 :=
  element 0xa0 (element 0x02 form.version) ++ (element 0x02 form.serial ++
    (algorithmOctets form.signature ++ (nameOctets form.issuer ++
    (element 0x30 (element 0x18 form.notBefore ++ element 0x18 form.notAfter) ++
    (nameOctets form.subject ++
    (element 0x30 (algorithmOctets form.keyAlgorithm ++ element 0x03 (0 :: form.publicKey)) ++
    element 0xa3 (element 0x30 (form.extensions.flatMap RawExtension.der))))))))

def der (form : TbsForm) : List UInt8 := element 0x30 form.body

/-- What the octets of a form stand for. -/
structure StandsFor (form : TbsForm) (tbs : TbsCertificate) : Prop where
  version : readInteger form.version = some tbs.version
  serial : readInteger form.serial = some tbs.serial
  signature : form.signature = tbs.signature
  issuer : form.issuer = tbs.issuer
  notBefore : readTime form.notBefore = some tbs.notBefore
  notAfter : readTime form.notAfter = some tbs.notAfter
  subject : form.subject = tbs.subject
  keyAlgorithm : form.keyAlgorithm = tbs.keyAlgorithm
  publicKey : form.publicKey = tbs.publicKey
  extensions : form.extensions.mapM RawExtension.read = some tbs.extensions

end TbsForm

theorem element_ne_nil (tag : UInt8) (octets : List UInt8) : element tag octets ≠ [] :=
  List.cons_ne_nil _ _

theorem reads_integer {octets : List UInt8} {n : ℕ} (h : readInteger octets = some n) :
    Reads integer (element 0x02 octets) n :=
  (reads_content 0x02 octets).convert h

theorem reads_algorithm (algorithm : List UInt8) :
    Reads X509.algorithm (algorithmOctets algorithm) algorithm := by
  apply Reads.within
  apply (reads_content 0x06 algorithm).bind
  exact ((reads_content 0x05 []).convert (f := noOctets) rfl).map

theorem reads_bitOctets (octets : List UInt8) :
    Reads bitOctets (element 0x03 (0 :: octets)) octets :=
  (reads_content 0x03 (0 :: octets)).convert rfl

theorem reads_attribute (pair : Attribute) :
    Reads (within 0x30 attributeFields) pair.der pair := by
  apply Reads.within
  apply (reads_content 0x06 pair.type).bind
  exact (reads_anyElement pair.tag pair.value).map

theorem reads_name (name : Name) : Reads X509.name (nameOctets name) name := by
  apply Reads.sequenceOf
  · intro attributes _
    apply Reads.sequenceOf
    · exact fun pair _ ↦ reads_attribute pair
    · exact fun pair _ ↦ element_ne_nil _ _
  · exact fun attributes _ ↦ element_ne_nil _ _

theorem reads_extension (raw : RawExtension) :
    Reads (within 0x30 extensionFields) raw.der raw := by
  obtain ⟨type, critical, octets⟩ := raw
  apply Reads.within
  apply (reads_content 0x06 type).bind
  cases critical with
  | false => exact (reads_anyElement 0x04 octets).last rfl
  | true =>
    apply (reads_anyElement 0x01 [0xff]).bind
    exact (reads_content 0x04 octets).map.map

theorem reads_extensions {raws : List RawExtension} {values : List Extension}
    (h : raws.mapM RawExtension.read = some values) :
    Reads extensions (element 0xa3 (element 0x30 (raws.flatMap RawExtension.der))) values := by
  apply Reads.within
  apply Reads.convert _ h
  apply Reads.sequenceOf
  · exact fun raw _ ↦ reads_extension raw
  · exact fun raw _ ↦ element_ne_nil _ _

theorem reads_validity {first last : List UInt8} {notBefore notAfter : ℤ}
    (hfirst : readTime first = some notBefore) (hlast : readTime last = some notAfter) :
    Reads (within 0x30 validityFields) (element 0x30 (element 0x18 first ++ element 0x18 last))
      (notBefore, notAfter) := by
  apply Reads.within
  apply ((reads_content 0x18 first).convert hfirst).bind
  exact ((reads_content 0x18 last).convert hlast).map

theorem reads_publicKey (algorithm key : List UInt8) :
    Reads (within 0x30 publicKeyFields)
      (element 0x30 (algorithmOctets algorithm ++ element 0x03 (0 :: key))) (algorithm, key) := by
  apply Reads.within
  apply (reads_algorithm algorithm).bind
  exact (reads_bitOctets key).map

theorem reads_tbsCertificate {form : TbsForm} {tbs : TbsCertificate} (h : form.StandsFor tbs) :
    Reads tbsCertificate form.der tbs := by
  obtain ⟨version, serial, signature, issuer, notBefore, notAfter, subject, keyAlgorithm,
    publicKey, exts⟩ := tbs
  obtain ⟨hversion, hserial, rfl, rfl, hnotBefore, hnotAfter, rfl, rfl, rfl, hextensions⟩ := h
  apply Reads.within
  apply ((reads_integer hversion).within 0xa0).bind
  apply (reads_integer hserial).bind
  apply (reads_algorithm form.signature).bind
  apply (reads_name form.issuer).bind
  apply (reads_validity hnotBefore hnotAfter).bind
  apply (reads_name form.subject).bind
  apply (reads_publicKey form.keyAlgorithm form.publicKey).bind
  exact (reads_extensions hextensions).map

/-- The octets that are signed are kept as they stand in the certificate. -/
theorem reads_certificate {tbsOctets : List UInt8} {tbs : TbsCertificate}
    (h : Reads tbsCertificate tbsOctets tbs) (algorithm signature : List UInt8) :
    Reads certificate
      (element 0x30 (tbsOctets ++ (algorithmOctets algorithm ++ element 0x03 (0 :: signature))))
      ⟨tbsOctets, tbs, algorithm, signature⟩ := by
  apply Reads.within
  apply h.withOctets.bind
  apply (reads_algorithm algorithm).bind
  exact (reads_bitOctets signature).map

end PqMqtt.X509
