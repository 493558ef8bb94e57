import PqMqtt.Foundation.Certificate

/-!
# Certification paths

A certificate is accepted from a trust anchor when the anchor may sign certificates, names and
signature agree, and the time lies in the validity of both.  `verify` is the verification of the
signature algorithm.
-/

namespace PqMqtt.X509

/-- The verification of a signature: public key, signed octets, signature. -/
abbrev Verify := (key octets signature : List UInt8) → Bool

namespace Certificate

def values (cert : Certificate) : List ExtensionValue := cert.tbs.extensions.map Extension.value

/-- Basic constraints and key usage allow to sign certificates. -/
def SignsCertificates (cert : Certificate) : Prop :=
  .basicConstraints true ∈ cert.values ∧
    ∃ usages, .keyUsage usages ∈ cert.values ∧ KeyUsage.keyCertSign ∈ usages

/-- The key may sign a handshake for a purpose, and no certificates. -/
def SignsHandshakes (cert : Certificate) (purpose : List UInt8) : Prop :=
  .basicConstraints true ∉ cert.values ∧
    (∃ usages, .keyUsage usages ∈ cert.values ∧ KeyUsage.digitalSignature ∈ usages) ∧
    ∃ purposes, .extKeyUsage purposes ∈ cert.values ∧ purpose ∈ purposes

/-- The host is one of the alternative names. -/
def Names (cert : Certificate) (host : UInt8 × List UInt8) : Prop :=
  ∃ names, .subjectAltName names ∈ cert.values ∧ host ∈ names

def ValidAt (cert : Certificate) (t : ℤ) : Prop := cert.tbs.notBefore ≤ t ∧ t ≤ cert.tbs.notAfter

/-- The certificate was issued under the name and the key of another one. -/
structure IssuedBy (verify : Verify) (cert issuer : Certificate) : Prop where
  name : cert.tbs.issuer = issuer.tbs.subject
  algorithm : cert.signatureAlgorithm = issuer.tbs.keyAlgorithm ∧
    cert.tbs.signature = cert.signatureAlgorithm
  signature : verify issuer.tbs.publicKey cert.tbsOctets cert.signature = true

end Certificate

/-- A certificate that has signed itself and may sign others. -/
structure Anchor (verify : Verify) (anchor : Certificate) : Prop where
  self : anchor.IssuedBy verify anchor
  signs : anchor.SignsCertificates

/-- The certificate is accepted for a purpose at a time. -/
structure Accepted (verify : Verify) (root cert : Certificate) (purpose : List UInt8) (t : ℤ) :
    Prop where
  anchor : Anchor verify root
  rootValid : root.ValidAt t
  issued : cert.IssuedBy verify root
  valid : cert.ValidAt t
  signs : cert.SignsHandshakes purpose

end PqMqtt.X509
