import Mathlib.Tactic

/-!
# Key objects and verification of the signature shims

`hawk512_tls.c`, `mayo1_tls.c` and `snova2454_tls.c` wrap three signature primitives for wolfSSL.
Their key objects and their argument checks are the same up to sizes; their verification
functions differ in what they allocate and in how the primitive answers.  The primitive, the
allocator and the error codes of wolfSSL are parameters: any functions, any outcomes, any
negative codes.
-/

namespace PqMqtt.Signature

/-! ## Schemes and codes -/

inductive Scheme where
  | hawk512
  | mayo1
  | snova2454
deriving DecidableEq

namespace Scheme

/-- `WC_HAWK512_PRIV_SIZE`, `WC_MAYO1_PRIV_SIZE`, `WC_SNOVA2454_PRIV_SIZE` -/
def privSize : Scheme → ℕ
  | hawk512 => 184
  | mayo1 => 24
  | snova2454 => 48

/-- `WC_HAWK512_PUB_SIZE`, `WC_MAYO1_PUB_SIZE`, `WC_SNOVA2454_PUB_SIZE` -/
def pubSize : Scheme → ℕ
  | hawk512 => 1024
  | mayo1 => 1420
  | snova2454 => 1016

/-- `WC_HAWK512_SIG_SIZE`, `WC_MAYO1_SIG_SIZE`, `WC_SNOVA2454_SIG_SIZE` -/
def sigSize : Scheme → ℕ
  | hawk512 => 555
  | mayo1 => 454
  | snova2454 => 248

/-- `WC_HAWK512_KEYPAIR_SIZE`, `WC_MAYO1_KEYPAIR_SIZE`, `WC_SNOVA2454_KEYPAIR_SIZE` -/
def keypairSize (scheme : Scheme) : ℕ := scheme.privSize + scheme.pubSize

end Scheme

/-- Error codes of wolfSSL.  Their headers say that they are negative. -/
structure WolfCodes where
  memoryE : ℤ
  badFuncArg : ℤ
  bufferE : ℤ
  peerKeyError : ℤ
  sigVerifyE : ℤ
  asnSigConfirmE : ℤ
  memoryE_neg : memoryE < 0
  badFuncArg_neg : badFuncArg < 0
  bufferE_neg : bufferE < 0
  peerKeyError_neg : peerKeyError < 0
  sigVerifyE_neg : sigVerifyE < 0
  asnSigConfirmE_neg : asnSigConfirmE < 0

/-- The codes of wolfSSL 5.9.1. -/
def sampleWolfCodes : WolfCodes :=
  ⟨-125, -173, -132, -342, -229, -155, by decide, by decide, by decide, by decide, by decide,
    by decide⟩

/-! ## Key objects -/

/-- A byte array of fixed size. -/
abbrev Bytes (size : ℕ) := { bytes : List UInt8 // bytes.length = size }

def Bytes.zero (size : ℕ) : Bytes size := ⟨List.replicate size 0, List.length_replicate⟩

/-- `wc_Hawk512Key`, `wc_Mayo1Key`, `wc_Snova2454Key` -/
structure Key (scheme : Scheme) where
  priv : Bytes scheme.privSize
  pub : Bytes scheme.pubSize
  hasPriv : Bool
  hasPub : Bool

/-- All bytes zero, as `memset` and `wc_ForceZero` leave the object. -/
def Key.zero (scheme : Scheme) : Key scheme := ⟨.zero _, .zero _, false, false⟩

/-- The object with a new public key and, when there is one, a new private key. -/
def Key.receive {scheme : Scheme} (object : Key scheme) (pub : Bytes scheme.pubSize)
    (priv : Option (Bytes scheme.privSize)) : Key scheme :=
  ⟨priv.getD object.priv, pub, priv.isSome || object.hasPriv, true⟩

section Shim

variable (codes : WolfCodes) {scheme : Scheme}

/-- `wc_*_Init`; `none` is a NULL pointer. -/
def wcInit (key : Option (Key scheme)) : ℤ × Option (Key scheme) :=
  match key with
  | none => (codes.badFuncArg, none)
  | some _ => (0, some (.zero scheme))

/-- `wc_*_Free` -/
def wcFree (key : Option (Key scheme)) : Option (Key scheme) :=
  key.map fun _ ↦ .zero scheme

/-- `wc_*_ImportPublic` -/
def wcImportPublic (pub : Option (List UInt8)) (key : Option (Key scheme)) :
    ℤ × Option (Key scheme) :=
  match key, pub with
  | some key, some pub =>
      if hlength : pub.length = scheme.pubSize then
        (0, some { key with pub := ⟨pub, hlength⟩, hasPub := true })
      else (codes.bufferE, some key)
  | key, _ => (codes.badFuncArg, key)

/-- An import changes nothing, or it gives the object a public key of the right size. -/
theorem wcImportPublic_cases (pub : Option (List UInt8)) (key : Option (Key scheme)) :
    (∃ ret < 0, wcImportPublic codes pub key = (ret, key)) ∨
      ∃ (bytes : Bytes scheme.pubSize) (object : Key scheme), pub = some bytes.val ∧
        key = some object ∧
        wcImportPublic codes pub key = (0, some (object.receive bytes none)) := by
  unfold wcImportPublic
  split
  · next object bytes =>
    split_ifs with hlength
    · exact Or.inr ⟨⟨bytes, hlength⟩, object, rfl, rfl, rfl⟩
    · exact Or.inl ⟨_, codes.bufferE_neg, rfl⟩
  · exact Or.inl ⟨_, codes.badFuncArg_neg, rfl⟩

/-- An import that reports success found a key object and a public key of the right size. -/
theorem wcImportPublic_eq_zero {pub : Option (List UInt8)} {key : Option (Key scheme)}
    (h : (wcImportPublic codes pub key).1 = 0) :
    ∃ (bytes : Bytes scheme.pubSize) (before : Key scheme), pub = some bytes.val ∧
      key = some before ∧
      (wcImportPublic codes pub key).2 = some { before with pub := bytes, hasPub := true } := by
  rcases wcImportPublic_cases codes pub key with
    ⟨ret, hneg, hfailed⟩ | ⟨bytes, before, hpub, hkey, himport⟩
  · rw [hfailed] at h
    exact absurd h hneg.ne
  · exact ⟨bytes, before, hpub, hkey, congrArg Prod.snd himport⟩

/-- `wc_*_ImportPrivateKey` -/
def wcImportPrivateKey (priv pub : Option (List UInt8)) (key : Option (Key scheme)) :
    ℤ × Option (Key scheme) :=
  match key, priv, pub with
  | some object, some priv, some pub =>
      if hlength : priv.length = scheme.privSize then
        match wcImportPublic codes (some pub) (some object) with
        | (0, key) =>
          (0, key.map fun object ↦ { object with priv := ⟨priv, hlength⟩, hasPriv := true })
        | (ret, key) => (ret, key)
      else (codes.bufferE, some object)
  | key, _, _ => (codes.badFuncArg, key)

/-- `wc_*_ImportPrivateKeyPair` -/
def wcImportPrivateKeyPair (keyPair : Option (List UInt8)) (key : Option (Key scheme)) :
    ℤ × Option (Key scheme) :=
  match keyPair with
  | some keyPair =>
      if keyPair.length ≠ scheme.keypairSize then (codes.bufferE, key)
      else
        wcImportPrivateKey codes (some (keyPair.take scheme.privSize))
          (some (keyPair.drop scheme.privSize)) key
  | none => (codes.badFuncArg, key)

/-- A private key followed by its public key is imported as both. -/
theorem wcImportPrivateKeyPair_append (priv : Bytes scheme.privSize) (pub : Bytes scheme.pubSize)
    (object : Key scheme) :
    wcImportPrivateKeyPair codes (some (priv.val ++ pub.val)) (some object)
      = (0, some ⟨priv, pub, true, true⟩) := by
  obtain ⟨priv, hpriv⟩ := priv
  obtain ⟨pub, hpub⟩ := pub
  have hsize : (priv ++ pub).length = scheme.keypairSize := by
    rw [List.length_append, hpriv, hpub, Scheme.keypairSize]
  have htake : (priv ++ pub).take scheme.privSize = priv := by rw [← hpriv, List.take_left]
  have hdrop : (priv ++ pub).drop scheme.privSize = pub := by rw [← hpriv, List.drop_left]
  have hpublic : wcImportPublic codes (some pub) (some object)
      = (0, some { object with pub := ⟨pub, hpub⟩, hasPub := true }) := by
    rw [wcImportPublic, dif_pos hpub]
  rw [wcImportPrivateKeyPair, if_neg (not_not.mpr hsize), htake, hdrop, wcImportPrivateKey,
    dif_pos hpriv, hpublic]
  rfl

end Shim

/-! ## Verification -/

/-- What `crypto_sign_open` of SNOVA leaves behind: its return value, the output buffer and the
output length. -/
structure SnovaOpened where
  ret : ℤ
  out : List UInt8
  outLen : ℕ

/-- Everything one call of a verification function depends on besides its arguments: the three
primitives and the outcomes of its calls of `XMALLOC`, in order. -/
structure VerifyEnv where
  hawkVerifyFinish : (sig msg pub : List UInt8) → ℤ
  mayoCryptoSignVerify : (sig msg pub : List UInt8) → ℤ
  snovaCryptoSignOpen : (sm : List UInt8) → (smLen : UInt32) → (pub : List UInt8) → SnovaOpened
  malloc : ℕ → Bool

namespace VerifyEnv

variable (env : VerifyEnv)

/-- SNOVA opens the signed message `sig ++ msg` and must return the message. -/
def snovaAccepts (sig msg pub : List UInt8) : Bool :=
  let opened := env.snovaCryptoSignOpen (sig ++ msg) (sig.length.toUInt32 + msg.length.toUInt32) pub
  opened.ret = 0 && opened.outLen = msg.length && opened.out.take msg.length = msg

/-- The primitive of a scheme accepts the signature over the message under the public key. -/
def accepts : Scheme → (sig msg pub : List UInt8) → Bool
  | .hawk512, sig, msg, pub => env.hawkVerifyFinish sig msg pub ≠ 0
  | .mayo1, sig, msg, pub => env.mayoCryptoSignVerify sig msg pub = 0
  | .snova2454, sig, msg, pub => env.snovaAccepts sig msg pub

/-- The allocations that a verification function makes all succeed. -/
def allocates : Scheme → Bool
  | .hawk512 => env.malloc 0
  | .mayo1 => true
  | .snova2454 => env.malloc 0 && env.malloc 1

end VerifyEnv

section Verify

variable (codes : WolfCodes) (env : VerifyEnv)

/-- The argument checks that the verification functions share; `primitive` is what follows them
and reports `none` when it runs out of memory.  Returns the return value and `*result`. -/
def verifyWith (scheme : Scheme) (primitive : (sig msg pub : List UInt8) → Option Bool)
    (sig msg : Option (List UInt8)) (result : Option ℤ) (key : Option (Key scheme)) :
    ℤ × Option ℤ :=
  match result, key, sig, msg with
  | some _, some key, some sig, some msg =>
      if !key.hasPub || sig.length ≠ scheme.sigSize then (codes.badFuncArg, some 0)
      else
        match primitive sig msg key.pub.val with
        | none => (codes.memoryE, some 0)
        | some ok => (0, some (if ok then 1 else 0))
  | result, _, _, _ => (codes.badFuncArg, result)

/-- `wc_Hawk512_Verify` after its checks: one working buffer, then `hawk_verify_finish`. -/
def hawk512Primitive (sig msg pub : List UInt8) : Option Bool :=
  if !env.malloc 0 then none else some (env.hawkVerifyFinish sig msg pub ≠ 0)

/-- `wc_Mayo1_Verify` after its checks. -/
def mayo1Primitive (sig msg pub : List UInt8) : Option Bool :=
  some (env.mayoCryptoSignVerify sig msg pub = 0)

/-- `wc_Snova2454_Verify` after its checks: buffers for the signed message and for the output. -/
def snova2454Primitive (sig msg pub : List UInt8) : Option Bool :=
  if !env.malloc 0 || !env.malloc 1 then none else some (env.snovaAccepts sig msg pub)

/-- `wc_Hawk512_Verify` -/
def wcHawk512Verify := verifyWith codes .hawk512 (hawk512Primitive env)

/-- `wc_Mayo1_Verify` -/
def wcMayo1Verify := verifyWith codes .mayo1 (mayo1Primitive env)

/-- `wc_Snova2454_Verify` -/
def wcSnova2454Verify := verifyWith codes .snova2454 (snova2454Primitive env)

/-- The verification function of each scheme. -/
def wcVerify : (scheme : Scheme) → (sig msg : Option (List UInt8)) → (result : Option ℤ) →
    (key : Option (Key scheme)) → ℤ × Option ℤ
  | .hawk512 => wcHawk512Verify codes env
  | .mayo1 => wcMayo1Verify codes env
  | .snova2454 => wcSnova2454Verify codes env

/-- All three functions are the shared checks around one allocation and one primitive. -/
theorem wcVerify_eq_verifyWith (scheme : Scheme) :
    wcVerify codes env scheme = verifyWith codes scheme (fun sig msg pub ↦
      if env.allocates scheme then some (env.accepts scheme sig msg pub) else none) := by
  cases scheme with
  | hawk512 =>
    apply congrArg (verifyWith codes .hawk512)
    funext sig msg pub
    cases h : env.malloc 0 <;>
      simp [hawk512Primitive, VerifyEnv.allocates, VerifyEnv.accepts, h]
  | mayo1 => rfl
  | snova2454 =>
    apply congrArg (verifyWith codes .snova2454)
    funext sig msg pub
    cases h : env.malloc 0 <;> cases h' : env.malloc 1 <;>
      simp [snova2454Primitive, VerifyEnv.allocates, VerifyEnv.accepts, h, h']

/-- The signature has the size of the scheme, the key object holds a public key, and the
primitive accepts the signature over the message under that public key. -/
def Verified {scheme : Scheme} (sig msg : Option (List UInt8)) (key : Option (Key scheme)) :
    Prop :=
  ∃ (sigBytes msgBytes : List UInt8) (object : Key scheme), sig = some sigBytes ∧
    msg = some msgBytes ∧ key = some object ∧ object.hasPub = true ∧
    sigBytes.length = scheme.sigSize ∧
    env.accepts scheme sigBytes msgBytes object.pub.val = true

variable {scheme : Scheme} (sig msg : Option (List UInt8)) (key : Option (Key scheme))

/-- A verification function reports an error and does not set the result to 1, or it reports
zero and the result is the verdict of the primitive on a verified or refused signature. -/
theorem wcVerify_cases (start : ℤ) :
    ((wcVerify codes env scheme sig msg (some start) key).1 < 0 ∧
      ((wcVerify codes env scheme sig msg (some start) key).2 = some start ∨
        (wcVerify codes env scheme sig msg (some start) key).2 = some 0)) ∨
    (wcVerify codes env scheme sig msg (some start) key = (0, some 0)) ∨
    (wcVerify codes env scheme sig msg (some start) key = (0, some 1) ∧
      Verified env sig msg key) := by
  rw [wcVerify_eq_verifyWith]
  unfold verifyWith
  split
  · next object sigBytes msgBytes hstart =>
    split_ifs with hcheck hallocates
    · exact Or.inl ⟨codes.badFuncArg_neg, Or.inr rfl⟩
    · simp only [Bool.or_eq_true, Bool.not_eq_true', decide_eq_true_eq, not_or,
        Bool.not_eq_false, not_not] at hcheck
      cases haccepts : env.accepts scheme sigBytes msgBytes object.pub.val with
      | false => exact Or.inr (Or.inl (by simp [haccepts]))
      | true =>
        refine Or.inr (Or.inr ⟨by simp [haccepts], ?_⟩)
        exact ⟨sigBytes, msgBytes, object, rfl, rfl, rfl, hcheck.1, hcheck.2, haccepts⟩
    · exact Or.inl ⟨codes.memoryE_neg, Or.inr rfl⟩
  · exact Or.inl ⟨codes.badFuncArg_neg, Or.inl rfl⟩

end Verify

end PqMqtt.Signature
