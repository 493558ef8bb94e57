import PqMqtt.Foundation.Run
import PqMqtt.Signature.KeyShim

/-!
# Peer authentication in the patched handshake

The patch of wolfSSL adds three schemes at four places: `ProcessPeerCerts` imports the key of a
peer certificate, `DoTls13CertificateVerify` checks that the claimed algorithm has a key and then
verifies the signature of the handshake, and `ConfirmSignature` verifies a certificate.  The
state is what these places share; the rest of wolfSSL may set the authentication flag, name an
algorithm or free the keys at any time.  A key that is marked present always was imported from a
certificate, so the flag is raised only by a signature the primitive accepted.
-/

namespace PqMqtt.Signature

open Run

/-! ## State -/

/-- `ssl->options.peerSigAlgo`: one of the three added algorithms or another code. -/
inductive SigAlgo where
  | pq (scheme : Scheme)
  | other (code : ℕ)
deriving DecidableEq

/-- `ssl->peer*Key` and `ssl->peer*KeyPresent` -/
structure PeerSlot (scheme : Scheme) where
  key : Option (Key scheme)
  present : Bool

/-- The fields of `WOLFSSL` that the patch uses, and every certificate key that was offered to
`ProcessPeerCerts` so far. -/
structure Ssl where
  peer : (scheme : Scheme) → PeerSlot scheme
  peerSigAlgo : SigAlgo
  peerAuthGood : Bool
  certKeys : List (Scheme × List UInt8)

namespace Ssl

/-- The zeroed structure. -/
def start : Ssl := ⟨fun _ ↦ ⟨none, false⟩, .other 0, false, []⟩

def setPeer (ssl : Ssl) (scheme : Scheme) (slot : PeerSlot scheme) : Ssl :=
  { ssl with peer := Function.update ssl.peer scheme slot }

variable (ssl : Ssl) (scheme : Scheme) (slot : PeerSlot scheme)

@[simp]
theorem peer_setPeer_self : (ssl.setPeer scheme slot).peer scheme = slot :=
  Function.update_self ..

@[simp]
theorem peer_setPeer_of_ne {other : Scheme} (h : other ≠ scheme) :
    (ssl.setPeer scheme slot).peer other = ssl.peer other :=
  Function.update_of_ne h ..

@[simp]
theorem certKeys_setPeer : (ssl.setPeer scheme slot).certKeys = ssl.certKeys := rfl

end Ssl

/-! ## The patched code -/

section Patch

variable (codes : WolfCodes)

/-- `AllocKey` for a key pointer that is NULL. -/
def allocKey (scheme : Scheme) (alloc : Bool) : ℤ × Option (Key scheme) :=
  if !alloc then (codes.memoryE, none) else wcInit codes (some (Key.zero scheme))

/-- `ReuseKey` -/
def reuseKey {scheme : Scheme} (key : Option (Key scheme)) : ℤ × Option (Key scheme) :=
  wcInit codes (wcFree key)

/-- The `ProcessPeerCerts` case of a scheme up to the import: `keyRet` and the slot. -/
def preparePeerKey {scheme : Scheme} (slot : PeerSlot scheme) (alloc : Bool) :
    ℤ × PeerSlot scheme :=
  if slot.key.isNone then
    let allocated := allocKey codes scheme alloc
    (allocated.1, { slot with key := allocated.2 })
  else if slot.present then
    let reused := reuseKey codes slot.key
    (reused.1, ⟨reused.2, false⟩)
  else (0, slot)

/-- The `ProcessPeerCerts` case of a scheme, on the public key of the certificate. -/
def processPeerCert (ssl : Ssl) (scheme : Scheme) (alloc : Bool)
    (publicKey : Option (List UInt8)) (ret : ℤ) : ℤ × Ssl :=
  let prepared := preparePeerKey codes (ssl.peer scheme) alloc
  let offered := { ssl with certKeys := ssl.certKeys ++ publicKey.toList.map (scheme, ·) }
  if prepared.1 ≠ 0 then (codes.peerKeyError, offered.setPeer scheme prepared.2)
  else
    let imported := wcImportPublic codes publicKey prepared.2.key
    if imported.1 ≠ 0 then
      (codes.peerKeyError, offered.setPeer scheme { prepared.2 with key := imported.2 })
    else (ret, offered.setPeer scheme ⟨imported.2, true⟩)

/-- `FreeKey` on the key of a scheme and the reset of its flag. -/
def freePeerKey (ssl : Ssl) (scheme : Scheme) : Ssl := ssl.setPeer scheme ⟨none, false⟩

/-- The parts of `wolfSSL_ResourceFree` and `FreeHandshakeResources`. -/
def freePeerKeys (ssl : Ssl) : Ssl :=
  freePeerKey (freePeerKey (freePeerKey ssl .hawk512) .mayo1) .snova2454

/-- The `validSigAlgo` cases of `DoTls13CertificateVerify`. -/
def validSigAlgo (ssl : Ssl) (validSigAlgo : Bool) : Bool :=
  match ssl.peerSigAlgo with
  | .pq scheme => (ssl.peer scheme).key.isSome && (ssl.peer scheme).present
  | .other _ => validSigAlgo

variable (env : VerifyEnv) (sig sigData : Option (List UInt8))

/-- The verification branch of one scheme in `DoTls13CertificateVerify`, with `ret` before it. -/
def verifyBranch (scheme : Scheme) (state : ℤ × Ssl) : ℤ × Ssl :=
  let ssl := state.2
  if ssl.peerSigAlgo = .pq scheme ∧ (ssl.peer scheme).present then
    let outcome := wcVerify codes env scheme sig sigData (some 0) (ssl.peer scheme).key
    if outcome.1 ≥ 0 ∧ outcome.2 = some 1 then
      (outcome.1, freePeerKey { ssl with peerAuthGood := true } scheme)
    else if outcome.1 ≥ 0 ∧ outcome.2 = some 0 then (codes.sigVerifyE, ssl)
    else (outcome.1, ssl)
  else state

/-- The three branches of `DoTls13CertificateVerify`, one after the other. -/
def verifyBranches (state : ℤ × Ssl) : ℤ × Ssl :=
  verifyBranch codes env sig sigData .snova2454
    (verifyBranch codes env sig sigData .mayo1
      (verifyBranch codes env sig sigData .hawk512 state))

/-- `ConfirmSignature` for a key type of the patch: set up the key, verify, check the result.
Between the last two steps the unpatched code leaves on a negative code. -/
def confirmSignature (scheme : Scheme) (alloc : Bool) (key sig buf : Option (List UInt8)) : ℤ :=
  if !alloc then codes.memoryE
  else
    let object := wcInit codes (some (Key.zero scheme))
    if object.1 ≠ 0 then object.1
    else
      let imported := wcImportPublic codes key object.2
      if imported.1 ≠ 0 then imported.1
      else
        let outcome := wcVerify codes env scheme sig buf (some 0) imported.2
        if outcome.1 < 0 then outcome.1
        else if outcome.2 = some 1 then 0 else codes.asnSigConfirmE

/-- What can happen to the shared state.  `rest` is any other code of wolfSSL. -/
inductive Event where
  | peerCert (scheme : Scheme) (alloc : Bool) (publicKey : Option (List UInt8))
  | sigAlgo (algo : SigAlgo)
  | certificateVerify (env : VerifyEnv) (sig sigData : Option (List UInt8))
  | freeKeys
  | rest (peerAuthGood : Bool)

def Ssl.step (ssl : Ssl) : Event → Ssl
  | .peerCert scheme alloc publicKey => (processPeerCert codes ssl scheme alloc publicKey 0).2
  | .sigAlgo algo => { ssl with peerSigAlgo := algo }
  | .certificateVerify env sig sigData => (verifyBranches codes env sig sigData (0, ssl)).2
  | .freeKeys => freePeerKeys ssl
  | .rest peerAuthGood => { ssl with peerAuthGood := peerAuthGood }

end Patch

/-! ## Keys come from certificates -/

/-- A slot marked present holds a key object with a public key from a certificate. -/
def SlotImported (certKeys : List (Scheme × List UInt8)) {scheme : Scheme}
    (slot : PeerSlot scheme) : Prop :=
  slot.present = true → ∃ key, slot.key = some key ∧ key.hasPub = true ∧
    (scheme, key.pub.val) ∈ certKeys

def KeysImported (ssl : Ssl) : Prop :=
  ∀ scheme, SlotImported ssl.certKeys (ssl.peer scheme)

section Invariant

variable (codes : WolfCodes)

theorem slotImported_absent (certKeys : List (Scheme × List UInt8)) {scheme : Scheme}
    (key : Option (Key scheme)) : SlotImported certKeys (⟨key, false⟩ : PeerSlot scheme) :=
  fun h ↦ absurd h Bool.false_ne_true

theorem KeysImported.setPeer {ssl : Ssl} (h : KeysImported ssl) {scheme : Scheme}
    {slot : PeerSlot scheme} (hslot : SlotImported ssl.certKeys slot) :
    KeysImported (ssl.setPeer scheme slot) := by
  intro other
  by_cases hother : other = scheme
  · subst hother
    simpa using hslot
  · simpa [hother] using h other

theorem KeysImported.freePeerKey {ssl : Ssl} (h : KeysImported ssl) (scheme : Scheme) :
    KeysImported (freePeerKey ssl scheme) :=
  h.setPeer (slotImported_absent _ none)

/-- Preparing a slot never marks it present. -/
theorem preparePeerKey_present {scheme : Scheme} (slot : PeerSlot scheme) (alloc : Bool)
    (himported : slot.present = true → slot.key.isSome = true) :
    (preparePeerKey codes slot alloc).2.present = false := by
  unfold preparePeerKey
  cases hpresent : slot.present with
  | true =>
    have hkey := himported hpresent
    have hnone : ¬ slot.key.isNone = true := by
      rw [Option.isNone_iff_eq_none]
      exact Option.isSome_iff_ne_none.mp hkey
    rw [if_neg hnone, if_pos rfl]
  | false => split_ifs <;> simp_all

theorem keysImported_processPeerCert {ssl : Ssl} (h : KeysImported ssl) (scheme : Scheme)
    (alloc : Bool) (publicKey : Option (List UInt8)) (ret : ℤ) :
    KeysImported (processPeerCert codes ssl scheme alloc publicKey ret).2 := by
  have hoffered : KeysImported
      { ssl with certKeys := ssl.certKeys ++ publicKey.toList.map (scheme, ·) } := by
    intro other hpresent
    obtain ⟨key, hkey, hpub, hmem⟩ := h other hpresent
    exact ⟨key, hkey, hpub, List.mem_append_left _ hmem⟩
  have habsent := preparePeerKey_present codes (ssl.peer scheme) alloc fun hpresent ↦ by
    obtain ⟨key, hkey, -⟩ := h scheme hpresent
    rw [hkey, Option.isSome_some]
  unfold processPeerCert
  dsimp only
  split_ifs with hprepared himported
  · refine hoffered.setPeer fun hpresent ↦ ?_
    rw [habsent] at hpresent
    exact absurd hpresent Bool.false_ne_true
  · refine hoffered.setPeer fun hpresent ↦ ?_
    rw [habsent] at hpresent
    exact absurd hpresent Bool.false_ne_true
  · obtain ⟨bytes, before, hbytes, -, hkey⟩ := wcImportPublic_eq_zero codes (not_not.mp himported)
    refine hoffered.setPeer fun _ ↦ ⟨_, hkey, rfl, ?_⟩
    simp [hbytes]

variable (env : VerifyEnv) (sig sigData : Option (List UInt8))

theorem keysImported_verifyBranch (scheme : Scheme) {state : ℤ × Ssl}
    (h : KeysImported state.2) :
    KeysImported (verifyBranch codes env sig sigData scheme state).2 := by
  have hauthenticated : KeysImported { state.2 with peerAuthGood := true } := h
  unfold verifyBranch
  dsimp only
  split_ifs
  · exact hauthenticated.freePeerKey scheme
  · exact h
  · exact h
  · exact h

theorem keysImported_step {ssl : Ssl} (event : Event) (h : KeysImported ssl) :
    KeysImported (ssl.step codes event) := by
  cases event with
  | peerCert scheme alloc publicKey =>
    exact keysImported_processPeerCert codes h scheme alloc publicKey 0
  | sigAlgo algo => exact h
  | certificateVerify env sig sigData =>
    apply keysImported_verifyBranch
    apply keysImported_verifyBranch
    exact keysImported_verifyBranch codes env sig sigData .hawk512 h
  | freeKeys => exact ((h.freePeerKey .hawk512).freePeerKey .mayo1).freePeerKey .snova2454
  | rest peerAuthGood => exact h

/-- In every reachable state, keys marked present were imported from certificates. -/
theorem keysImported_run (events : List Event) :
    KeysImported (run (Ssl.step codes) Ssl.start events) :=
  run_invariant (fun _ ↦ slotImported_absent _ none)
    (fun _ event h ↦ keysImported_step codes event h) events

/-- On imported keys the algorithm check of an added scheme is the guard of its branch. -/
theorem validSigAlgo_iff {ssl : Ssl} (h : KeysImported ssl) {scheme : Scheme}
    (halgo : ssl.peerSigAlgo = .pq scheme) (before : Bool) :
    validSigAlgo ssl before = true ↔ (ssl.peer scheme).present = true := by
  unfold validSigAlgo
  rw [halgo, Bool.and_eq_true]
  refine and_iff_right_of_imp fun hpresent ↦ ?_
  obtain ⟨key, hkey, -⟩ := h scheme hpresent
  rw [hkey, Option.isSome_some]

end Invariant

/-! ## The verdict -/

/-- The guard of the branch of a scheme. -/
def BranchRuns (ssl : Ssl) (scheme : Scheme) : Prop :=
  ssl.peerSigAlgo = .pq scheme ∧ (ssl.peer scheme).present = true

/-- The key object of the scheme is present and was imported from a certificate key of the right
size, the signature has the size of the scheme, and the primitive accepts it over the data under
that key. -/
def Authenticated (ssl : Ssl) (scheme : Scheme) (env : VerifyEnv)
    (sig sigData : Option (List UInt8)) : Prop :=
  ∃ (key : Key scheme) (sigBytes data : List UInt8),
    (ssl.peer scheme).present = true ∧ (ssl.peer scheme).key = some key ∧
    (scheme, key.pub.val) ∈ ssl.certKeys ∧ key.pub.val.length = scheme.pubSize ∧
    sig = some sigBytes ∧ sigData = some data ∧ sigBytes.length = scheme.sigSize ∧
    env.accepts scheme sigBytes data key.pub.val = true

section Verdict

variable (codes : WolfCodes) (env : VerifyEnv) (sig sigData : Option (List UInt8))

theorem verifyBranch_of_not_runs {scheme : Scheme} {state : ℤ × Ssl}
    (h : state.2.peerSigAlgo ≠ .pq scheme) :
    verifyBranch codes env sig sigData scheme state = state := by
  unfold verifyBranch
  exact if_neg fun hguard ↦ h hguard.1

theorem peerSigAlgo_verifyBranch (scheme : Scheme) (state : ℤ × Ssl) :
    (verifyBranch codes env sig sigData scheme state).2.peerSigAlgo = state.2.peerSigAlgo := by
  unfold verifyBranch
  dsimp only
  split_ifs <;> rfl

/-- Of the three branches only the one of the claimed algorithm can run. -/
theorem verifyBranches_eq {scheme : Scheme} {state : ℤ × Ssl}
    (h : state.2.peerSigAlgo = .pq scheme) :
    verifyBranches codes env sig sigData state =
      verifyBranch codes env sig sigData scheme state := by
  have hskip : ∀ (other : Scheme) (later : ℤ × Ssl), later.2.peerSigAlgo = .pq scheme →
      other ≠ scheme → verifyBranch codes env sig sigData other later = later := by
    intro other later hlater hother
    apply verifyBranch_of_not_runs
    intro heq
    exact hother (SigAlgo.pq.inj (heq.symm.trans hlater))
  have hkeep := (peerSigAlgo_verifyBranch codes env sig sigData scheme state).trans h
  unfold verifyBranches
  cases scheme with
  | hawk512 => rw [hskip .mayo1 _ hkeep (by decide), hskip .snova2454 _ hkeep (by decide)]
  | mayo1 => rw [hskip .hawk512 _ h (by decide), hskip .snova2454 _ hkeep (by decide)]
  | snova2454 => rw [hskip .hawk512 _ h (by decide), hskip .mayo1 _ h (by decide)]

theorem verifyBranches_of_other {state : ℤ × Ssl}
    (h : ∀ scheme, state.2.peerSigAlgo ≠ .pq scheme) :
    verifyBranches codes env sig sigData state = state := by
  unfold verifyBranches
  rw [verifyBranch_of_not_runs _ _ _ _ (h .hawk512), verifyBranch_of_not_runs _ _ _ _ (h .mayo1),
    verifyBranch_of_not_runs _ _ _ _ (h .snova2454)]

/-- A branch that runs authenticates the peer or leaves an error and the flag as it was. -/
theorem verifyBranch_verdict {ssl : Ssl} (himported : KeysImported ssl) {scheme : Scheme}
    (hruns : BranchRuns ssl scheme) (ret : ℤ) :
    let after := verifyBranch codes env sig sigData scheme (ret, ssl)
    (Authenticated ssl scheme env sig sigData ∧ after.1 = 0 ∧ after.2.peerAuthGood = true) ∨
      (after.1 < 0 ∧ after.2.peerAuthGood = ssl.peerAuthGood) := by
  obtain ⟨halgo, hpresent⟩ := hruns
  obtain ⟨key, hkey, -, hmem⟩ := himported scheme hpresent
  have hguard : ssl.peerSigAlgo = .pq scheme ∧ (ssl.peer scheme).present = true :=
    ⟨halgo, hpresent⟩
  unfold verifyBranch
  dsimp only
  rw [if_pos hguard]
  obtain ⟨herror, -⟩ | hrefused | ⟨haccepted, hverified⟩ :=
    wcVerify_cases codes env sig sigData (ssl.peer scheme).key 0
  · have hnot : ¬ 0 ≤ (wcVerify codes env scheme sig sigData (some 0) (ssl.peer scheme).key).1 :=
      not_le.mpr herror
    simp only [ge_iff_le, hnot, false_and, if_false]
    exact Or.inr ⟨herror, trivial⟩
  · rw [hrefused]
    exact Or.inr ⟨codes.sigVerifyE_neg, rfl⟩
  · rw [haccepted]
    obtain ⟨sigBytes, data, object, hsig, hdata, hobject, -, hsize, haccepts⟩ := hverified
    obtain rfl : key = object := Option.some.inj (hkey.symm.trans hobject)
    exact Or.inl ⟨⟨key, sigBytes, data, hpresent, hkey, hmem, key.pub.property, hsig, hdata,
      hsize, haccepts⟩, rfl, rfl⟩

/-- `ConfirmSignature` reports success only for a signature of the right size that the primitive
accepts under a key of the right size. -/
theorem confirmSignature_eq_zero {scheme : Scheme} {alloc : Bool}
    {key buf : Option (List UInt8)} (h : confirmSignature codes env scheme alloc key sig buf = 0) :
    ∃ keyBytes sigBytes data, key = some keyBytes ∧ sig = some sigBytes ∧ buf = some data ∧
      keyBytes.length = scheme.pubSize ∧ sigBytes.length = scheme.sigSize ∧
      env.accepts scheme sigBytes data keyBytes = true := by
  unfold confirmSignature at h
  dsimp only at h
  split_ifs at h with halloc hinit himport hnegative hresult
  · exact absurd h codes.memoryE_neg.ne
  · exact absurd h hinit
  · exact absurd h himport
  · exact absurd h hnegative.ne
  · obtain ⟨bytes, before, hbytes, -, hobject⟩ := wcImportPublic_eq_zero codes (not_not.mp himport)
    rw [hobject] at hnegative hresult
    obtain ⟨herror, -⟩ | hrefused | ⟨-, hverified⟩ := wcVerify_cases codes env sig buf
      (some { before with pub := bytes, hasPub := true }) 0
    · exact absurd herror hnegative
    · rw [hrefused] at hresult
      exact absurd (Option.some.inj hresult) (by decide)
    · obtain ⟨sigBytes, data, object, hsig, hdata, hsame, -, hsize, haccepts⟩ := hverified
      rw [← Option.some.inj hsame] at haccepts
      exact ⟨bytes.val, sigBytes, data, hbytes, hsig, hdata, bytes.property, hsize, haccepts⟩
  · exact absurd h codes.asnSigConfirmE_neg.ne

/-- In every reachable state, the verification of the handshake raises the flag only for an
authenticated peer, and a branch that runs without authenticating leaves an error and the flag
as it was; `ConfirmSignature` succeeds only on an accepted signature. -/
theorem peer_auth_needs_verified_signature (events : List Event) (ret : ℤ) :
    let ssl := run (Ssl.step codes) Ssl.start events
    let after := verifyBranches codes env sig sigData (ret, ssl)
    (ssl.peerAuthGood = false → after.2.peerAuthGood = true →
      ∃ scheme, ssl.peerSigAlgo = .pq scheme ∧ Authenticated ssl scheme env sig sigData) ∧
    (∀ scheme, BranchRuns ssl scheme →
      (Authenticated ssl scheme env sig sigData ∧ after.1 = 0 ∧ after.2.peerAuthGood = true) ∨
        (after.1 < 0 ∧ after.2.peerAuthGood = ssl.peerAuthGood)) ∧
    (∀ scheme alloc key buf, confirmSignature codes env scheme alloc key sig buf = 0 →
      ∃ keyBytes sigBytes data, key = some keyBytes ∧ sig = some sigBytes ∧ buf = some data ∧
        keyBytes.length = scheme.pubSize ∧ sigBytes.length = scheme.sigSize ∧
        env.accepts scheme sigBytes data keyBytes = true) := by
  intro ssl after
  have himported : KeysImported ssl := keysImported_run codes events
  have hverdict : ∀ scheme, BranchRuns ssl scheme →
      (Authenticated ssl scheme env sig sigData ∧ after.1 = 0 ∧ after.2.peerAuthGood = true) ∨
        (after.1 < 0 ∧ after.2.peerAuthGood = ssl.peerAuthGood) := by
    intro scheme hruns
    have heq : after = verifyBranch codes env sig sigData scheme (ret, ssl) :=
      verifyBranches_eq codes env sig sigData hruns.1
    rw [heq]
    exact verifyBranch_verdict codes env sig sigData himported hruns ret
  refine ⟨fun hbefore hafter ↦ ?_, hverdict, fun scheme alloc key buf ↦
    confirmSignature_eq_zero codes env sig⟩
  cases halgo : ssl.peerSigAlgo with
  | other code =>
    have heq : after = (ret, ssl) := verifyBranches_of_other codes env sig sigData fun scheme h ↦ by
      rw [halgo] at h
      cases h
    rw [heq] at hafter
    exact absurd (hbefore.symm.trans hafter) Bool.false_ne_true
  | pq scheme =>
    cases hpresent : (ssl.peer scheme).present with
    | true =>
      obtain ⟨hauthenticated, -⟩ | ⟨-, hunchanged⟩ := hverdict scheme ⟨halgo, hpresent⟩
      · exact ⟨scheme, rfl, hauthenticated⟩
      · rw [hunchanged, hbefore] at hafter
        exact absurd hafter Bool.false_ne_true
    | false =>
      have heq : after = verifyBranch codes env sig sigData scheme (ret, ssl) :=
        verifyBranches_eq codes env sig sigData halgo
      have hskip : verifyBranch codes env sig sigData scheme (ret, ssl) = (ret, ssl) :=
        if_neg fun hguard ↦ Bool.false_ne_true (hpresent.symm.trans hguard.2)
      rw [heq, hskip] at hafter
      exact absurd (hbefore.symm.trans hafter) Bool.false_ne_true

end Verdict

end PqMqtt.Signature
