import PqMqtt.Foundation.Interaction
import PqMqtt.Signature.KeyShim

/-!
# Signing

`wc_Hawk512_Sign`, `wc_Mayo1_Sign` and `wc_Snova2454_Sign`.  Their argument checks are the same up
to sizes and the generator that only HAWK uses; they differ in how the primitive delivers the
signature.  The primitives are parameters with any outcome: `hawk_sign_finish` is an interaction
with the callback that it draws its randomness from, and the others report a length of their own.
Lengths are numbers, since `size_t` and `word32` have the same width on the target.
-/

namespace PqMqtt.Signature

/-! ## Arguments and results -/

/-- The codes that the signing functions return. -/
structure SignCodes extends WolfCodes where
  rngFailureE : ℤ
  rngFailureE_neg : rngFailureE < 0

/-- The arguments of a call; `none` is a NULL pointer.  The caller provides a buffer of `*sigLen`
bytes. -/
structure SignArgs (ρ : Type) (scheme : Scheme) where
  msg : Option (List UInt8)
  sig : Option (List UInt8)
  sigLen : Option ℕ
  key : Option (Key scheme)
  rng : Option ρ
  room : ∀ buffer ∈ sig, ∀ length ∈ sigLen, length ≤ buffer.length

/-- The return value, what the call leaves at its output pointers, and the generator after it. -/
structure SignResult (ρ : Type) where
  ret : ℤ
  sig : Option (List UInt8)
  sigLen : Option ℕ
  rng : Option ρ

/-- `memcpy` to the start of a buffer. -/
def overwrite (buffer bytes : List UInt8) : List UInt8 := bytes ++ buffer.drop bytes.length

theorem take_overwrite {buffer bytes : List UInt8} {size : ℕ} (h : bytes.length = size) :
    (overwrite buffer bytes).take size = bytes := by
  rw [overwrite, ← h, List.take_left]

section Sign

variable {ρ : Type} (codes : SignCodes) {scheme : Scheme}

/-- The argument checks that the signing functions share.  `ready` says whether the key object and
the generator suffice, and `attempt` is what follows the allocation. -/
def signWith (ready : Key scheme → Option ρ → Bool) (allocates : Bool)
    (attempt : (msg priv buffer : List UInt8) → (sigLen : ℕ) → Option ρ → SignResult ρ)
    (args : SignArgs ρ scheme) : SignResult ρ :=
  match args.sigLen, args.key, args.msg with
  | some sigLen, some key, some msg =>
      match args.sig with
      | none => ⟨0, none, some scheme.sigSize, args.rng⟩
      | some buffer =>
          if sigLen < scheme.sigSize then
            ⟨codes.bufferE, some buffer, some scheme.sigSize, args.rng⟩
          else if !ready key args.rng then
            ⟨codes.badFuncArg, some buffer, some sigLen, args.rng⟩
          else if !allocates then ⟨codes.memoryE, some buffer, some sigLen, args.rng⟩
          else attempt msg key.priv.val buffer sigLen args.rng
  | _, _, _ => ⟨codes.badFuncArg, args.sig, args.sigLen, args.rng⟩

/-! ## HAWK -/

/-- `wc_RNG_GenerateBlock`: the return value, the block and the generator after it. -/
abbrev GenerateBlock (ρ : Type) := ρ → UInt32 → ℤ × List UInt8 × ρ

/-- `wc_hawk512_rng`; its context is the generator. -/
def wcHawk512Rng (generateBlock : GenerateBlock ρ) (ctx : Option ρ) (len : UInt32) :
    List UInt8 × Option ρ :=
  match ctx with
  | none => (List.replicate len.toNat 0, none)
  | some rng =>
      let (ret, block, rng) := generateBlock rng len
      (if ret ≠ 0 then List.replicate len.toNat 0 else block, some rng)

/-- `hawk_sign_finish`: it draws blocks of randomness and finishes with its return value and the
bytes that it leaves in the signature buffer. -/
abbrev HawkSignFinish :=
  (msg priv : List UInt8) →
    Interaction UInt32 (List UInt8) (ℤ × Bytes Scheme.hawk512.sigSize)

/-- `wc_Hawk512_Sign` after its checks. -/
def hawk512Attempt (generateBlock : GenerateBlock ρ) (hawkSignFinish : HawkSignFinish)
    (msg priv buffer : List UInt8) (sigLen : ℕ) (rng : Option ρ) : SignResult ρ :=
  let ((ok, out), rng) := (hawkSignFinish msg priv).run (wcHawk512Rng generateBlock) rng
  if ok = 0 then ⟨codes.rngFailureE, some (overwrite buffer out.val), some sigLen, rng⟩
  else ⟨0, some (overwrite buffer out.val), some Scheme.hawk512.sigSize, rng⟩

/-- `wc_Hawk512_Sign` -/
def wcHawk512Sign (generateBlock : GenerateBlock ρ) (hawkSignFinish : HawkSignFinish)
    (malloc : Bool) : SignArgs ρ .hawk512 → SignResult ρ :=
  signWith codes (fun key rng ↦ key.hasPriv && rng.isSome) malloc
    (hawk512Attempt codes generateBlock hawkSignFinish)

/-! ## MAYO -/

/-- What `crypto_sign_signature` of MAYO leaves behind: its return value, the bytes in the
signature buffer and the length that it reports. -/
structure MayoSigned where
  ret : ℤ
  out : Bytes Scheme.mayo1.sigSize
  outLen : ℕ

/-- `wc_Mayo1_Sign` after its checks. -/
def mayo1Attempt (cryptoSignSignature : (msg priv : List UInt8) → MayoSigned)
    (msg priv buffer : List UInt8) (sigLen : ℕ) (rng : Option ρ) : SignResult ρ :=
  let signed := cryptoSignSignature msg priv
  if signed.ret ≠ 0 then
    ⟨signed.ret, some (overwrite buffer signed.out.val), some sigLen, rng⟩
  else ⟨0, some (overwrite buffer signed.out.val), some signed.outLen, rng⟩

/-- `wc_Mayo1_Sign` -/
def wcMayo1Sign (cryptoSignSignature : (msg priv : List UInt8) → MayoSigned) :
    SignArgs ρ .mayo1 → SignResult ρ :=
  signWith codes (fun key _ ↦ key.hasPriv) true (mayo1Attempt cryptoSignSignature)

/-! ## SNOVA -/

/-- What `crypto_sign` of SNOVA leaves behind: its return value, the signed message, of which the
signature is the beginning, and the length that it reports. -/
structure SnovaSigned (msgLen : ℕ) where
  ret : ℤ
  sm : Bytes (Scheme.snova2454.sigSize + msgLen)
  smLen : ℕ

/-- `wc_Snova2454_Sign` after its checks. -/
def snova2454Attempt (cryptoSign : (msg priv : List UInt8) → SnovaSigned msg.length)
    (msg priv buffer : List UInt8) (sigLen : ℕ) (rng : Option ρ) : SignResult ρ :=
  let signed := cryptoSign msg priv
  let size := Scheme.snova2454.sigSize
  if signed.ret = 0 ∧ size ≤ signed.smLen then
    ⟨signed.ret, some (overwrite buffer (signed.sm.val.take size)), some size, rng⟩
  else ⟨signed.ret, some buffer, some sigLen, rng⟩

/-- `wc_Snova2454_Sign` -/
def wcSnova2454Sign (cryptoSign : (msg priv : List UInt8) → SnovaSigned msg.length)
    (malloc : Bool) : SignArgs ρ .snova2454 → SignResult ρ :=
  signWith codes (fun key _ ↦ key.hasPriv) malloc (snova2454Attempt cryptoSign)

/-! ## The checks -/

/-- The call passes the checks and the allocation, and goes on with these arguments. -/
structure Attempts (ready : Key scheme → Option ρ → Bool) (allocates : Bool)
    (args : SignArgs ρ scheme) (msg buffer : List UInt8) (key : Key scheme) (sigLen : ℕ) :
    Prop where
  msg_eq : args.msg = some msg
  sig_eq : args.sig = some buffer
  key_eq : args.key = some key
  sigLen_eq : args.sigLen = some sigLen
  sigSize_le : scheme.sigSize ≤ sigLen
  ready_eq : ready key args.rng = true
  allocates_eq : allocates = true

variable {ready : Key scheme → Option ρ → Bool} {allocates : Bool}
  {attempt : (msg priv buffer : List UInt8) → (sigLen : ℕ) → Option ρ → SignResult ρ}

theorem signWith_of_attempts {args : SignArgs ρ scheme} {msg buffer : List UInt8}
    {key : Key scheme} {sigLen : ℕ}
    (h : Attempts ready allocates args msg buffer key sigLen) :
    signWith codes ready allocates attempt args
      = attempt msg key.priv.val buffer sigLen args.rng := by
  simp [signWith, h.msg_eq, h.sig_eq, h.key_eq, h.sigLen_eq, h.sigSize_le.not_gt, h.ready_eq,
    h.allocates_eq]

variable (ready allocates attempt) in
/-- A call asks for the size only, is refused with an error and without a change of the signature
buffer, or attempts to sign. -/
theorem signWith_cases (args : SignArgs ρ scheme) :
    (args.sig = none ∧ signWith codes ready allocates attempt args
      = ⟨0, none, some scheme.sigSize, args.rng⟩) ∨
    ((signWith codes ready allocates attempt args).ret < 0 ∧
      (signWith codes ready allocates attempt args).sig = args.sig) ∨
    ∃ msg buffer key sigLen, Attempts ready allocates args msg buffer key sigLen := by
  unfold signWith
  split
  · next sigLen key msg hsigLen hkey hmsg =>
    cases hsig : args.sig with
    | none => exact Or.inl ⟨rfl, rfl⟩
    | some buffer =>
      split_ifs with hshort hready hallocates
      · exact Or.inr (Or.inl ⟨codes.bufferE_neg, rfl⟩)
      · exact Or.inr (Or.inl ⟨codes.badFuncArg_neg, rfl⟩)
      · exact Or.inr (Or.inl ⟨codes.memoryE_neg, rfl⟩)
      · refine Or.inr (Or.inr ⟨msg, buffer, key, sigLen, hmsg, hsig, hkey, hsigLen,
          Nat.le_of_not_lt hshort, ?_, ?_⟩)
        · simpa using hready
        · simpa using hallocates
  · exact Or.inr (Or.inl ⟨codes.badFuncArg_neg, rfl⟩)

/-- A call without a signature buffer asks for the size. -/
theorem signWith_query {args : SignArgs ρ scheme} (hsig : args.sig = none)
    (hsigLen : args.sigLen.isSome) (hkey : args.key.isSome) (hmsg : args.msg.isSome) :
    signWith codes ready allocates attempt args
      = ⟨0, none, some scheme.sigSize, args.rng⟩ := by
  obtain ⟨sigLen, hsigLen⟩ := Option.isSome_iff_exists.mp hsigLen
  obtain ⟨key, hkey⟩ := Option.isSome_iff_exists.mp hkey
  obtain ⟨msg, hmsg⟩ := Option.isSome_iff_exists.mp hmsg
  simp only [signWith, hsig, hsigLen, hkey, hmsg]

end Sign

/-! ## Failures of the generator -/

section Rng

variable {ρ : Type} (codes : SignCodes) (generateBlock : GenerateBlock ρ) (malloc : Bool)
  (args : SignArgs ρ .hawk512)

/-- The calls of the callback while `hawk_sign_finish` signs. -/
def rngCalls (hawkSignFinish : HawkSignFinish) : List (Option ρ × UInt32) :=
  match args.msg, args.key with
  | some msg, some key =>
      (hawkSignFinish msg key.priv.val).calls (wcHawk512Rng generateBlock) args.rng
  | _, _ => []

/-- The call reaches `hawk_sign_finish`. -/
def Signs : Prop :=
  ∃ msg buffer key sigLen, Attempts (fun (key : Key .hawk512) rng ↦ key.hasPriv && rng.isSome)
    malloc args msg buffer key sigLen

/-- A call of `wc_RNG_GenerateBlock` failed. -/
def GenerateBlockFails (hawkSignFinish : HawkSignFinish) : Prop :=
  ∃ rng len, (some rng, len) ∈ rngCalls generateBlock args hawkSignFinish ∧
    (generateBlock rng len).1 ≠ 0

/-- When the generator fails while the call signs, the call returns an error. -/
def ReportsRngFailure (hawkSignFinish : HawkSignFinish) : Prop :=
  Signs malloc args → GenerateBlockFails generateBlock args hawkSignFinish →
    (wcHawk512Sign codes generateBlock hawkSignFinish malloc args).ret ≠ 0

/-- The generator never fails, whatever blocks are drawn from it. -/
def NeverFails (rng : ρ) : Prop :=
  ∀ (lengths : List UInt32) (len : UInt32),
    (generateBlock (lengths.foldl (fun rng len ↦ (generateBlock rng len).2.2) rng) len).1 = 0

theorem stateAfter_wcHawk512Rng (rng : ρ) (lengths : List UInt32) :
    Interaction.stateAfter (wcHawk512Rng generateBlock) (some rng) lengths
      = some (lengths.foldl (fun rng len ↦ (generateBlock rng len).2.2) rng) := by
  induction lengths generalizing rng with
  | nil => rfl
  | cons len lengths ih => exact ih _

/-- Signing with HAWK reports every failure of the generator, whatever `hawk_sign_finish` does,
exactly when the call does not come to signing or its generator cannot fail: the callback hides
every failure. -/
theorem rng_failure_reported_iff :
    (∀ hawkSignFinish : HawkSignFinish,
      ReportsRngFailure codes generateBlock malloc args hawkSignFinish) ↔
    (Signs malloc args → ∀ rng ∈ args.rng, NeverFails generateBlock rng) := by
  constructor
  · intro hreports hsigns rng hrng lengths len
    by_contra hfails
    -- A `hawk_sign_finish` that draws these blocks and signs does not learn of the failure.
    let finish : HawkSignFinish := fun _ _ ↦
      Interaction.script (1, .zero _) (lengths ++ [len])
    obtain ⟨msg, buffer, key, sigLen, hattempts⟩ := hsigns
    have hcalls : rngCalls generateBlock args finish
        = (finish msg key.priv.val).calls (wcHawk512Rng generateBlock) args.rng := by
      simp only [rngCalls, hattempts.msg_eq, hattempts.key_eq]
    have hcall := Interaction.mem_calls_script (wcHawk512Rng generateBlock)
      ((1 : ℤ), Bytes.zero Scheme.hawk512.sigSize) lengths len (some rng)
    rw [stateAfter_wcHawk512Rng] at hcall
    have hfailed : GenerateBlockFails generateBlock args finish := by
      refine ⟨_, len, ?_, hfails⟩
      rw [hcalls, Option.mem_def.mp hrng]
      exact hcall
    apply hreports finish ⟨msg, buffer, key, sigLen, hattempts⟩ hfailed
    rw [wcHawk512Sign, signWith_of_attempts codes hattempts]
    simp only [hawk512Attempt, finish, Interaction.run_script]
    rfl
  · rintro hnever finish hsigns ⟨rng, len, hcall, hfails⟩
    obtain ⟨msg, buffer, key, sigLen, hattempts⟩ := hsigns
    have hready := hattempts.ready_eq
    rw [Bool.and_eq_true] at hready
    obtain ⟨start, hstart⟩ := Option.isSome_iff_exists.mp hready.2
    simp only [rngCalls, hattempts.msg_eq, hattempts.key_eq, hstart] at hcall
    obtain ⟨lengths, hstate⟩ := Interaction.exists_stateAfter_of_mem_calls _ _ hcall
    rw [stateAfter_wcHawk512Rng] at hstate
    obtain rfl := Option.some.inj hstate
    exact absurd (hnever ⟨msg, buffer, key, sigLen, hattempts⟩ start hstart lengths len) hfails

end Rng

def sampleSignCodes : SignCodes := ⟨sampleWolfCodes, -199, by decide⟩

/-- The arguments of a call with everything in place. -/
def sampleArgs (scheme : Scheme) : SignArgs Unit scheme where
  msg := some [1, 2, 3]
  sig := some (List.replicate scheme.sigSize 0xff)
  sigLen := some scheme.sigSize
  key := some ⟨.zero _, .zero _, true, true⟩
  rng := some ()
  room := by
    rintro buffer ⟨⟩ length ⟨⟩
    rw [List.length_replicate]

/-- A generator that always fails. -/
def failingGenerator : GenerateBlock Unit := fun _ _ ↦ (-199, [], ())

/-- A signature that begins with a salt. -/
def saltedSignature (salt : List UInt8) : Bytes Scheme.hawk512.sigSize where
  val := (salt ++ List.replicate Scheme.hawk512.sigSize 7).take Scheme.hawk512.sigSize
  property := by
    rw [List.length_take, List.length_append, List.length_replicate]
    exact Nat.min_eq_left (Nat.le_add_left _ _)

/-- A signer that draws a salt of 24 bytes. -/
def saltingSignFinish : HawkSignFinish := fun _ _ ↦
  .ask 24 fun salt ↦ .finish (1, saltedSignature salt)

/-- The failure is hidden, and the signature that is returned begins with a salt of zeros. -/
theorem failing_generator_is_hidden :
    ¬ReportsRngFailure sampleSignCodes failingGenerator true (sampleArgs .hawk512)
      saltingSignFinish ∧
    (wcHawk512Sign sampleSignCodes failingGenerator saltingSignFinish true
      (sampleArgs .hawk512)).sig.map (·.take 24) = some (List.replicate 24 0) := by
  refine ⟨?_, rfl⟩
  intro hreports
  have hsigns : Signs true (sampleArgs .hawk512) :=
    ⟨[1, 2, 3], _, ⟨.zero _, .zero _, true, true⟩, _, ⟨rfl, rfl, rfl, rfl, le_rfl, rfl, rfl⟩⟩
  have hfails : GenerateBlockFails failingGenerator (sampleArgs .hawk512) saltingSignFinish :=
    ⟨(), 24, List.mem_singleton_self _, by decide⟩
  exact hreports hsigns hfails rfl

/-! ## What a signature is -/

/-- The primitives, the generator and the allocator of one call. -/
structure SignEnv (ρ : Type) where
  generateBlock : GenerateBlock ρ
  hawkSignFinish : HawkSignFinish
  mayoCryptoSignSignature : (msg priv : List UInt8) → MayoSigned
  snovaCryptoSign : (msg priv : List UInt8) → SnovaSigned msg.length
  malloc : Bool

section Delivers

variable {ρ : Type} (codes : SignCodes) (env : SignEnv ρ)

/-- The signing function of each scheme. -/
def wcSign : (scheme : Scheme) → SignArgs ρ scheme → SignResult ρ
  | .hawk512 => wcHawk512Sign codes env.generateBlock env.hawkSignFinish env.malloc
  | .mayo1 => wcMayo1Sign codes env.mayoCryptoSignSignature
  | .snova2454 => wcSnova2454Sign codes env.snovaCryptoSign env.malloc

/-- The key object, and for HAWK the generator, suffice for signing. -/
def signReady : (scheme : Scheme) → Key scheme → Option ρ → Bool
  | .hawk512, key, rng => key.hasPriv && rng.isSome
  | .mayo1, key, _ => key.hasPriv
  | .snova2454, key, _ => key.hasPriv

/-- The allocation of a signing function succeeds. -/
def SignEnv.allocates : Scheme → Bool
  | .hawk512 => env.malloc
  | .mayo1 => true
  | .snova2454 => env.malloc

/-- What a signing function does after its checks and its allocation. -/
def signAttempt : Scheme → (msg priv buffer : List UInt8) → (sigLen : ℕ) → Option ρ → SignResult ρ
  | .hawk512 => hawk512Attempt codes env.generateBlock env.hawkSignFinish
  | .mayo1 => mayo1Attempt env.mayoCryptoSignSignature
  | .snova2454 => snova2454Attempt env.snovaCryptoSign

theorem wcSign_eq_signWith (scheme : Scheme) :
    wcSign codes env scheme =
      signWith codes (signReady scheme) (env.allocates scheme) (signAttempt codes env scheme) := by
  cases scheme <;> rfl

/-- The call has all arguments, room for a signature, a private key and its working memory. -/
def PassesChecks {scheme : Scheme} (args : SignArgs ρ scheme) : Prop :=
  ∃ msg buffer key sigLen,
    Attempts (signReady scheme) (env.allocates scheme) args msg buffer key sigLen

/-- The bytes that the primitive produces, up to the length that it reports. -/
def SignEnv.produced : Scheme → (msg priv : List UInt8) → Option ρ → List UInt8
  | .hawk512, msg, priv, rng =>
      ((env.hawkSignFinish msg priv).run (wcHawk512Rng env.generateBlock) rng).1.2.val
  | .mayo1, msg, priv, _ =>
      (env.mayoCryptoSignSignature msg priv).out.val.take
        (env.mayoCryptoSignSignature msg priv).outLen
  | .snova2454, msg, priv, _ =>
      (env.snovaCryptoSign msg priv).sm.val.take (env.snovaCryptoSign msg priv).smLen

/-- A primitive that reports success reports the length of a signature: MAYO exactly, SNOVA at
least.  The primitive of HAWK reports no length. -/
def SignEnv.ReportsLength : Scheme → (msg priv : List UInt8) → Prop
  | .hawk512, _, _ => True
  | .mayo1, msg, priv =>
      (env.mayoCryptoSignSignature msg priv).ret = 0 →
        (env.mayoCryptoSignSignature msg priv).outLen = Scheme.mayo1.sigSize
  | .snova2454, msg, priv =>
      (env.snovaCryptoSign msg priv).ret = 0 →
        Scheme.snova2454.sigSize ≤ (env.snovaCryptoSign msg priv).smLen

/-- A result of zero comes with a whole signature: its length, and the bytes that the primitive
produced. -/
def WholeSignature (scheme : Scheme) (produced : List UInt8) (result : SignResult ρ) : Prop :=
  result.ret = 0 → result.sigLen = some scheme.sigSize ∧
    ∃ buffer ∈ result.sig, scheme.sigSize ≤ buffer.length ∧
      buffer.take scheme.sigSize = produced.take scheme.sigSize

/-- What a signing function promises. -/
structure Delivers {scheme : Scheme} (args : SignArgs ρ scheme) (result : SignResult ρ) :
    Prop where
  whole : args.sig.isSome → result.ret = 0 →
    ∃ msg ∈ args.msg, ∃ key ∈ args.key,
      WholeSignature scheme (env.produced scheme msg key.priv.val args.rng) result
  untouched : result.ret ≠ 0 → ¬PassesChecks env args → result.sig = args.sig
  query : args.sig = none → args.sigLen.isSome → args.key.isSome → args.msg.isSome →
    result = ⟨0, none, some scheme.sigSize, args.rng⟩

theorem length_overwrite {buffer bytes : List UInt8} (h : bytes.length ≤ buffer.length) :
    (overwrite buffer bytes).length = buffer.length := by
  rw [overwrite, List.length_append, List.length_drop, Nat.add_sub_cancel' h]

/-- A buffer that a whole signature was written to. -/
theorem wholeSignature_overwrite {scheme : Scheme} {buffer bytes produced : List UInt8}
    (hbytes : bytes.length = scheme.sigSize) (hbuffer : scheme.sigSize ≤ buffer.length)
    (hproduced : produced.take scheme.sigSize = bytes) (rng : Option ρ) :
    WholeSignature scheme produced
      ⟨0, some (overwrite buffer bytes), some scheme.sigSize, rng⟩ := by
  intro _
  refine ⟨rfl, _, rfl, ?_, ?_⟩
  · rw [length_overwrite (hbytes.trans_le hbuffer)]
    exact hbuffer
  · rw [take_overwrite hbytes, hproduced]

section Attempt

variable {msg priv buffer : List UInt8} {sigLen : ℕ} {rng : Option ρ}

theorem hawk512Attempt_whole (h : Scheme.hawk512.sigSize ≤ buffer.length) :
    WholeSignature .hawk512 (env.produced .hawk512 msg priv rng)
      (signAttempt codes env .hawk512 msg priv buffer sigLen rng) := by
  dsimp only [SignEnv.produced, signAttempt, hawk512Attempt]
  generalize (env.hawkSignFinish msg priv).run (wcHawk512Rng env.generateBlock) rng = ran
  obtain ⟨⟨ok, out⟩, rng⟩ := ran
  dsimp only
  split_ifs with hfailed
  · intro hzero
    exact absurd hzero codes.rngFailureE_neg.ne
  · exact wholeSignature_overwrite out.property h (List.take_of_length_le out.property.le) rng

theorem mayo1Attempt_whole_iff (h : Scheme.mayo1.sigSize ≤ buffer.length) :
    WholeSignature .mayo1 (env.produced .mayo1 msg priv rng)
      (signAttempt codes env .mayo1 msg priv buffer sigLen rng) ↔
        env.ReportsLength .mayo1 msg priv := by
  dsimp only [SignEnv.produced, SignEnv.ReportsLength, signAttempt, mayo1Attempt]
  generalize env.mayoCryptoSignSignature msg priv = signed
  obtain ⟨ret, out, outLen⟩ := signed
  dsimp only
  split_ifs with hfailed
  · exact iff_of_true (fun hzero ↦ absurd hzero hfailed) fun hzero ↦ absurd hzero hfailed
  · rw [not_not] at hfailed
    constructor
    · intro hwhole _
      obtain ⟨hlength, -⟩ := hwhole rfl
      exact Option.some.inj hlength
    · intro hreports
      obtain rfl : outLen = Scheme.mayo1.sigSize := hreports hfailed
      have hout : out.val.take Scheme.mayo1.sigSize = out.val :=
        List.take_of_length_le out.property.le
      exact wholeSignature_overwrite out.property h (by rw [hout, hout]) rng

theorem snova2454Attempt_whole_iff (h : Scheme.snova2454.sigSize ≤ buffer.length) :
    WholeSignature .snova2454 (env.produced .snova2454 msg priv rng)
      (signAttempt codes env .snova2454 msg priv buffer sigLen rng) ↔
        env.ReportsLength .snova2454 msg priv := by
  dsimp only [SignEnv.produced, SignEnv.ReportsLength, signAttempt, snova2454Attempt]
  generalize env.snovaCryptoSign msg priv = signed
  split_ifs with hsigned
  · obtain ⟨hzero, hlength⟩ := hsigned
    have hsm : (signed.sm.val.take Scheme.snova2454.sigSize).length
        = Scheme.snova2454.sigSize := by
      rw [List.length_take, signed.sm.property, Nat.min_eq_left (Nat.le_add_right _ _)]
    have htake : (signed.sm.val.take signed.smLen).take Scheme.snova2454.sigSize
        = signed.sm.val.take Scheme.snova2454.sigSize := by
      rw [List.take_take, Nat.min_eq_left hlength]
    have hwhole := wholeSignature_overwrite hsm h htake rng
    rw [hzero]
    exact ⟨fun _ _ ↦ hlength, fun _ ↦ hwhole⟩
  · constructor
    · intro hwhole hzero
      -- The buffer is left as it was, and would have to hold more bytes than were produced.
      obtain ⟨-, after, -, hlength, hbytes⟩ := hwhole hzero
      have hcount := congrArg List.length hbytes
      rw [List.take_take, List.length_take, List.length_take, signed.sm.property,
        Nat.min_eq_left hlength] at hcount
      omega
    · intro hreports hzero
      exact absurd ⟨hzero, hreports hzero⟩ hsigned

/-- An attempt to sign returns a whole signature with a zero exactly when the primitive reports
the length of one. -/
theorem signAttempt_whole_iff (scheme : Scheme) (h : scheme.sigSize ≤ buffer.length) :
    WholeSignature scheme (env.produced scheme msg priv rng)
      (signAttempt codes env scheme msg priv buffer sigLen rng) ↔
        env.ReportsLength scheme msg priv := by
  cases scheme with
  | hawk512 => exact iff_of_true (hawk512Attempt_whole codes env h) trivial
  | mayo1 => exact mayo1Attempt_whole_iff codes env h
  | snova2454 => exact snova2454Attempt_whole_iff codes env h

end Attempt

/-- A call that passes the checks delivers exactly when a zero comes with a whole signature. -/
theorem delivers_iff_whole {scheme : Scheme} {args : SignArgs ρ scheme} {result : SignResult ρ}
    {msg buffer : List UInt8} {key : Key scheme} {sigLen : ℕ}
    (h : Attempts (signReady scheme) (env.allocates scheme) args msg buffer key sigLen) :
    Delivers env args result ↔
      WholeSignature scheme (env.produced scheme msg key.priv.val args.rng) result := by
  constructor
  · intro hdelivers hzero
    have hsig : args.sig.isSome := Option.isSome_iff_exists.mpr ⟨buffer, h.sig_eq⟩
    obtain ⟨msg', hmsg, key', hkey, hwhole⟩ := hdelivers.whole hsig hzero
    obtain rfl := Option.some.inj (h.msg_eq.symm.trans hmsg)
    obtain rfl := Option.some.inj (h.key_eq.symm.trans hkey)
    exact hwhole hzero
  · intro hwhole
    refine ⟨fun _ _ ↦ ⟨msg, h.msg_eq, key, h.key_eq, hwhole⟩, ?_, ?_⟩
    · intro _ hrefused
      exact absurd ⟨msg, buffer, key, sigLen, h⟩ hrefused
    · intro hsig
      simp [h.sig_eq] at hsig

/-- A signing function keeps its promise exactly when its primitive, if the call comes to it and
it reports success, reports the length of a signature. -/
theorem sign_delivers_iff (scheme : Scheme) (args : SignArgs ρ scheme) :
    Delivers env args (wcSign codes env scheme args) ↔
      (PassesChecks env args → ∀ msg ∈ args.msg, ∀ key ∈ args.key,
        env.ReportsLength scheme msg key.priv.val) := by
  rw [wcSign_eq_signWith]
  by_cases hpasses : PassesChecks env args
  · obtain ⟨msg, buffer, key, sigLen, hattempts⟩ := id hpasses
    have hroom : scheme.sigSize ≤ buffer.length := hattempts.sigSize_le.trans
      (args.room buffer hattempts.sig_eq sigLen hattempts.sigLen_eq)
    rw [delivers_iff_whole env hattempts, signWith_of_attempts codes hattempts,
      signAttempt_whole_iff codes env scheme hroom, hattempts.msg_eq, hattempts.key_eq]
    simp [hpasses]
  · refine iff_of_true ?_ fun h ↦ absurd h hpasses
    rcases signWith_cases codes (signReady scheme) (env.allocates scheme)
      (signAttempt codes env scheme) args with
      ⟨hsig, hasked⟩ | ⟨hnegative, huntouched⟩ | hattempts
    · rw [hasked]
      refine ⟨?_, fun hret ↦ absurd rfl hret, fun _ _ _ _ ↦ rfl⟩
      intro hsome
      simp [hsig] at hsome
    · refine ⟨fun _ hzero ↦ absurd hzero hnegative.ne, fun _ _ ↦ huntouched, ?_⟩
      intro hsig hsigLen hkey hmsg
      exact signWith_query codes hsig hsigLen hkey hmsg
    · exact absurd hattempts hpasses

end Delivers

/-- Primitives that report success and no bytes. -/
def emptyPrimitives : SignEnv Unit where
  generateBlock := failingGenerator
  hawkSignFinish := saltingSignFinish
  mayoCryptoSignSignature := fun _ _ ↦ ⟨0, .zero _, 0⟩
  snovaCryptoSign := fun _ _ ↦ ⟨0, .zero _, 0⟩
  malloc := true

/-- MAYO returns zero with a signature of length zero, and SNOVA with an untouched buffer. -/
theorem empty_signatures_are_returned :
    ¬Delivers emptyPrimitives (sampleArgs .mayo1)
      (wcSign sampleSignCodes emptyPrimitives .mayo1 (sampleArgs .mayo1)) ∧
    ¬Delivers emptyPrimitives (sampleArgs .snova2454)
      (wcSign sampleSignCodes emptyPrimitives .snova2454 (sampleArgs .snova2454)) := by
  have hattempts (scheme : Scheme) : Attempts (signReady scheme)
      (emptyPrimitives.allocates scheme) (sampleArgs scheme) [1, 2, 3]
      (List.replicate scheme.sigSize 0xff) ⟨.zero _, .zero _, true, true⟩ scheme.sigSize := by
    refine ⟨rfl, rfl, rfl, rfl, le_rfl, ?_, ?_⟩ <;> cases scheme <;> rfl
  have hwhole (scheme : Scheme) : Delivers emptyPrimitives (sampleArgs scheme)
        (wcSign sampleSignCodes emptyPrimitives scheme (sampleArgs scheme)) ↔
      emptyPrimitives.ReportsLength scheme [1, 2, 3] (Bytes.zero scheme.privSize).val := by
    rw [delivers_iff_whole emptyPrimitives (hattempts scheme), wcSign_eq_signWith,
      signWith_of_attempts sampleSignCodes (hattempts scheme)]
    exact signAttempt_whole_iff _ _ scheme List.length_replicate.ge
  constructor
  · rw [hwhole]
    intro hreports
    exact absurd (hreports rfl) (by decide)
  · rw [hwhole]
    intro hreports
    exact absurd (hreports rfl) (by decide)

end PqMqtt.Signature
