import PqMqtt.Signature.PeerAuth
import PqMqtt.Signature.Signing

/-!
# Authentication of an honest peer

A signature that a signing function returns, under a key that `ProcessPeerCerts` was offered,
passes the patched `DoTls13CertificateVerify`, whatever else happens to the handshake before and
in between.  The primitives are parameters that agree with each other: what one signs the other
accepts.
-/

namespace PqMqtt.Signature

open Run

/-! ## Signatures that verify -/

section Agreement

variable {ρ : Type} (signer : SignEnv ρ) (verifier : VerifyEnv)

/-- What a primitive signs of the message with a private key is accepted under the public key; SNOVA
signs to the signature followed by the message, and opens that to the message. -/
def PrimitivesAgree : (scheme : Scheme) → (msg priv pub : List UInt8) → Prop
  | .hawk512, msg, priv, pub => ∀ rng,
      let finished := ((signer.hawkSignFinish msg priv).run (wcHawk512Rng signer.generateBlock) rng).1
      finished.1 ≠ 0 → verifier.hawkVerifyFinish finished.2.val msg pub ≠ 0
  | .mayo1, msg, priv, pub =>
      let signed := signer.mayoCryptoSignSignature msg priv
      signed.ret = 0 → signed.outLen = Scheme.mayo1.sigSize ∧
        verifier.mayoCryptoSignVerify signed.out.val msg pub = 0
  | .snova2454, msg, priv, pub =>
      let signed := signer.snovaCryptoSign msg priv
      signed.ret = 0 → signed.smLen = Scheme.snova2454.sigSize + msg.length ∧
        signed.sm.val.drop Scheme.snova2454.sigSize = msg ∧
        verifier.snovaCryptoSignOpen signed.sm.val signed.smLen.toUInt32 pub = ⟨0, msg, msg.length⟩

/-- A signature that is returned has the size of the scheme and is accepted over the message. -/
structure SignedFor (scheme : Scheme) (result : SignResult ρ) (msg pub sig : List UInt8) : Prop where
  sigLen : result.sigLen = some scheme.sigSize
  returned : result.sig.map (List.take scheme.sigSize) = some sig
  length : sig.length = scheme.sigSize
  accepts : verifier.accepts scheme sig msg pub = true

variable {signer verifier} (codes : SignCodes)

theorem signedFor_overwrite {scheme : Scheme} {buffer bytes msg pub : List UInt8} {rng : Option ρ}
    (hbytes : bytes.length = scheme.sigSize)
    (haccepts : verifier.accepts scheme bytes msg pub = true) :
    SignedFor verifier scheme
      ⟨0, some (overwrite buffer bytes), some scheme.sigSize, rng⟩ msg pub bytes where
  sigLen := rfl
  returned := congrArg some (take_overwrite hbytes)
  length := hbytes
  accepts := haccepts

theorem hawk512_signedFor {msg priv pub buffer : List UInt8} {sigLen : ℕ} {rng : Option ρ}
    (hagree : PrimitivesAgree signer verifier .hawk512 msg priv pub)
    (h : (signAttempt codes signer .hawk512 msg priv buffer sigLen rng).ret = 0) :
    ∃ sig, SignedFor verifier .hawk512
      (signAttempt codes signer .hawk512 msg priv buffer sigLen rng) msg pub sig := by
  have hfinished := hagree rng
  dsimp only [signAttempt, hawk512Attempt] at h hfinished ⊢
  generalize (signer.hawkSignFinish msg priv).run (wcHawk512Rng signer.generateBlock) rng = ran
    at h hfinished ⊢
  obtain ⟨⟨ok, out⟩, after⟩ := ran
  dsimp only at h hfinished ⊢
  split_ifs at h ⊢ with hfailed
  · exact absurd h codes.rngFailureE_neg.ne
  · exact ⟨out.val, signedFor_overwrite out.property (decide_eq_true (hfinished hfailed))⟩

theorem mayo1_signedFor {msg priv pub buffer : List UInt8} {sigLen : ℕ} {rng : Option ρ}
    (hagree : PrimitivesAgree signer verifier .mayo1 msg priv pub)
    (h : (signAttempt codes signer .mayo1 msg priv buffer sigLen rng).ret = 0) :
    ∃ sig, SignedFor verifier .mayo1
      (signAttempt codes signer .mayo1 msg priv buffer sigLen rng) msg pub sig := by
  have hsigned := hagree
  dsimp only [PrimitivesAgree, signAttempt, mayo1Attempt] at h hsigned ⊢
  generalize signer.mayoCryptoSignSignature msg priv = signed at h hsigned ⊢
  split_ifs at h ⊢ with hfailed
  · exact absurd h hfailed
  · obtain ⟨hlength, haccepts⟩ := hsigned (not_not.mp hfailed)
    rw [hlength]
    exact ⟨signed.out.val, signedFor_overwrite signed.out.property (decide_eq_true haccepts)⟩

theorem snova2454_signedFor {msg priv pub buffer : List UInt8} {sigLen : ℕ} {rng : Option ρ}
    (hagree : PrimitivesAgree signer verifier .snova2454 msg priv pub)
    (h : (signAttempt codes signer .snova2454 msg priv buffer sigLen rng).ret = 0) :
    ∃ sig, SignedFor verifier .snova2454
      (signAttempt codes signer .snova2454 msg priv buffer sigLen rng) msg pub sig := by
  have hsigned := hagree
  dsimp only [PrimitivesAgree, signAttempt, snova2454Attempt] at h hsigned ⊢
  generalize signer.snovaCryptoSign msg priv = signed at h hsigned ⊢
  split_ifs at h ⊢ with hlength
  · obtain ⟨hsmLen, hmessage, hopened⟩ := hsigned hlength.1
    have hsize : (signed.sm.val.take Scheme.snova2454.sigSize).length = Scheme.snova2454.sigSize := by
      rw [List.length_take, signed.sm.property, Nat.min_eq_left (Nat.le_add_right _ _)]
    have hsm : signed.sm.val.take Scheme.snova2454.sigSize ++ msg = signed.sm.val :=
      (congrArg (signed.sm.val.take _ ++ ·) hmessage.symm).trans (List.take_append_drop _ _)
    have hlengths : Scheme.snova2454.sigSize.toUInt32 + msg.length.toUInt32
        = signed.smLen.toUInt32 := by
      rw [hsmLen]
      exact (UInt32.ofNat_add _ _).symm
    rw [hlength.1]
    refine ⟨_, signedFor_overwrite hsize ?_⟩
    change verifier.snovaAccepts _ msg pub = true
    unfold VerifyEnv.snovaAccepts
    rw [hsm, hsize, hlengths, hopened]
    simp
  · exact absurd ⟨h, (hsigned h).1.ge.trans' (Nat.le_add_right _ _)⟩ hlength

/-- A call with a signature buffer that returns zero leaves a signature that is accepted. -/
theorem wcSign_signedFor {scheme : Scheme} {args : SignArgs ρ scheme} {key : Key scheme}
    {msg : List UInt8} (hkey : args.key = some key) (hmsg : args.msg = some msg)
    (hsig : args.sig.isSome)
    (hagree : PrimitivesAgree signer verifier scheme msg key.priv.val key.pub.val)
    (h : (wcSign codes signer scheme args).ret = 0) :
    ∃ sig, SignedFor verifier scheme (wcSign codes signer scheme args) msg
      key.pub.val sig := by
  rw [wcSign_eq_signWith] at h ⊢
  obtain ⟨hnone, -⟩ | ⟨hnegative, -⟩ | ⟨msg', buffer, key', sigLen, hattempts⟩ :=
    signWith_cases codes (signReady scheme) (signer.allocates scheme)
      (signAttempt codes signer scheme) args
  · rw [hnone] at hsig
    exact absurd hsig Bool.false_ne_true
  · exact absurd h hnegative.ne
  · obtain rfl := Option.some.inj (hkey.symm.trans hattempts.key_eq)
    obtain rfl := Option.some.inj (hmsg.symm.trans hattempts.msg_eq)
    rw [signWith_of_attempts codes hattempts] at h ⊢
    cases scheme with
    | hawk512 => exact hawk512_signedFor codes hagree h
    | mayo1 => exact mayo1_signedFor codes hagree h
    | snova2454 => exact snova2454_signedFor codes hagree h

end Agreement

/-! ## Verification -/

section Verification

variable (codes : WolfCodes) {env : VerifyEnv} {scheme : Scheme} {sig octets : List UInt8}

theorem wcVerify_of_accepts (object : Key scheme) (hpub : object.hasPub = true)
    (hsig : sig.length = scheme.sigSize) (hallocates : env.allocates scheme = true)
    (haccepts : env.accepts scheme sig octets object.pub.val = true) :
    wcVerify codes env scheme (some sig) (some octets) (some 0) (some object) = (0, some 1) := by
  rw [wcVerify_eq_verifyWith]
  simp [verifyWith, hpub, hsig, hallocates, haccepts]

/-- A certificate whose signature the primitive accepts is confirmed. -/
theorem confirmSignature_of_accepts {key : List UInt8} (hkey : key.length = scheme.pubSize)
    (hsig : sig.length = scheme.sigSize) (hallocates : env.allocates scheme = true)
    (haccepts : env.accepts scheme sig octets key = true) :
    confirmSignature codes env scheme true (some key) (some sig) (some octets) = 0 := by
  have hverify := wcVerify_of_accepts codes
    { Key.zero scheme with pub := ⟨key, hkey⟩, hasPub := true } rfl hsig hallocates haccepts
  simp [confirmSignature, wcInit, wcImportPublic, hkey, hverify]

end Verification

/-! ## The handshake -/

section Handshake

variable (codes : WolfCodes) {scheme : Scheme}

/-- The event leaves the peer key of a scheme as it is. -/
def Leaves (scheme : Scheme) : Event → Prop
  | .peerCert other _ _ => other ≠ scheme
  | .sigAlgo _ | .rest _ => True
  | .certificateVerify _ _ _ | .freeKeys => False

theorem peer_step_of_leaves {event : Event} (h : Leaves scheme event) (ssl : Ssl) :
    (ssl.step codes event).peer scheme = ssl.peer scheme := by
  cases event with
  | peerCert other alloc publicKey =>
    have hother : scheme ≠ other := fun heq ↦ h heq.symm
    change (processPeerCert codes ssl other alloc publicKey 0).2.peer scheme = ssl.peer scheme
    unfold processPeerCert
    dsimp only
    split_ifs <;> exact Ssl.peer_setPeer_of_ne _ _ _ hother
  | sigAlgo algo => rfl
  | certificateVerify env sig sigData => exact absurd h id
  | freeKeys => exact absurd h id
  | rest peerAuthGood => rfl

theorem peer_run_of_leaves {events : List Event} (h : ∀ event ∈ events, Leaves scheme event)
    (ssl : Ssl) : (run (Ssl.step codes) ssl events).peer scheme = ssl.peer scheme := by
  induction events generalizing ssl with
  | nil => rfl
  | cons event events ih =>
    rw [List.forall_mem_cons] at h
    calc (run (Ssl.step codes) ssl (event :: events)).peer scheme
        = (ssl.step codes event).peer scheme := ih h.2 _
      _ = ssl.peer scheme := peer_step_of_leaves codes h.1 ssl

/-- With memory a slot is prepared in every state. -/
theorem preparePeerKey_of_alloc (slot : PeerSlot scheme) :
    (preparePeerKey codes slot true).1 = 0 ∧
      ∃ object, (preparePeerKey codes slot true).2.key = some object := by
  obtain ⟨key, present⟩ := slot
  cases key with
  | none => exact ⟨rfl, _, rfl⟩
  | some key =>
    cases present with
    | true => exact ⟨rfl, _, rfl⟩
    | false => exact ⟨rfl, key, rfl⟩

/-- A public key of the right size is imported. -/
theorem peer_step_peerCert (ssl : Ssl) {key : List UInt8} (hkey : key.length = scheme.pubSize) :
    ∃ object : Key scheme, object.hasPub = true ∧ object.pub.val = key ∧
      (ssl.step codes (.peerCert scheme true (some key))).peer scheme = ⟨some object, true⟩ := by
  obtain ⟨hret, object, hobject⟩ := preparePeerKey_of_alloc codes (ssl.peer scheme)
  have himport : wcImportPublic codes (some key) (some object)
      = (0, some { object with pub := ⟨key, hkey⟩, hasPub := true }) := by
    rw [wcImportPublic, dif_pos hkey]
  refine ⟨{ object with pub := ⟨key, hkey⟩, hasPub := true }, rfl, rfl, ?_⟩
  change (processPeerCert codes ssl scheme true (some key) 0).2.peer scheme = _
  unfold processPeerCert
  dsimp only
  rw [if_neg (not_not.mpr hret), hobject, himport, if_neg (not_not.mpr rfl)]
  exact Ssl.peer_setPeer_self ..

/-- A signature that is accepted under the present key authenticates the peer. -/
theorem verifyBranches_of_accepts {env : VerifyEnv} {ssl : Ssl} {object : Key scheme}
    {sig octets : List UInt8} (halgo : ssl.peerSigAlgo = .pq scheme)
    (hslot : ssl.peer scheme = ⟨some object, true⟩) (hpub : object.hasPub = true)
    (hsig : sig.length = scheme.sigSize) (hallocates : env.allocates scheme = true)
    (haccepts : env.accepts scheme sig octets object.pub.val = true) (ret : ℤ) :
    verifyBranches codes env (some sig) (some octets) (ret, ssl) =
      (0, freePeerKey { ssl with peerAuthGood := true } scheme) := by
  rw [verifyBranches_eq codes env (some sig) (some octets) halgo]
  have hpresent : (ssl.peer scheme).present = true := by rw [hslot]
  have hkey : (ssl.peer scheme).key = some object := by rw [hslot]
  unfold verifyBranch
  dsimp only
  rw [if_pos ⟨halgo, hpresent⟩, hkey, wcVerify_of_accepts codes object hpub hsig hallocates haccepts,
    if_pos ⟨le_rfl, rfl⟩]

/-- The handshake after a certificate of the scheme was processed, with `between` after it and the
signature algorithm of the `CertificateVerify` last. -/
def handshake (scheme : Scheme) (before between : List Event) (publicKey : List UInt8) : Ssl :=
  run (Ssl.step codes) Ssl.start
    (before ++ .peerCert scheme true (some publicKey) :: between ++ [.sigAlgo (.pq scheme)])

theorem peerSigAlgo_handshake (before between : List Event) (publicKey : List UInt8) :
    (handshake codes scheme before between publicKey).peerSigAlgo = .pq scheme := by
  unfold handshake
  rw [run_append]
  rfl

/-- Nothing that leaves the slot alone undoes the import of the key. -/
theorem peer_handshake (before : List Event) {between : List Event}
    (hbetween : ∀ event ∈ between, Leaves scheme event) {publicKey : List UInt8}
    (hkey : publicKey.length = scheme.pubSize) :
    ∃ object : Key scheme, object.hasPub = true ∧ object.pub.val = publicKey ∧
      (handshake codes scheme before between publicKey).peer scheme = ⟨some object, true⟩ := by
  have hleaves : ∀ event ∈ between ++ [.sigAlgo (.pq scheme)], Leaves scheme event := by
    rw [List.forall_mem_append, List.forall_mem_singleton]
    exact ⟨hbetween, trivial⟩
  obtain ⟨object, hpub, hpublic, hslot⟩ :=
    peer_step_peerCert codes (run (Ssl.step codes) Ssl.start before) hkey
  refine ⟨object, hpub, hpublic, ?_⟩
  calc (handshake codes scheme before between publicKey).peer scheme
      = (run (Ssl.step codes) ((run (Ssl.step codes) Ssl.start before).step codes
          (.peerCert scheme true (some publicKey)))
          (between ++ [.sigAlgo (.pq scheme)])).peer scheme := by
        unfold handshake
        rw [List.append_assoc, run_append]
        rfl
    _ = _ := peer_run_of_leaves codes hleaves _
    _ = ⟨some object, true⟩ := hslot

/-- What a signing function returns authenticates its signer to a client that was offered the
matching certificate, whatever came before that and whatever else came after it. -/
theorem signed_handshake_is_accepted {ρ : Type} {signCodes : SignCodes} {signer : SignEnv ρ}
    {verifier : VerifyEnv} {args : SignArgs ρ scheme} {key : Key scheme} {msg : List UInt8}
    (hkey : args.key = some key) (hmsg : args.msg = some msg) (hsig : args.sig.isSome)
    (hagree : PrimitivesAgree signer verifier scheme msg key.priv.val key.pub.val)
    (hsigned : (wcSign signCodes signer scheme args).ret = 0)
    (hallocates : verifier.allocates scheme = true) :
    (wcSign signCodes signer scheme args).sigLen = some scheme.sigSize ∧
    ∀ sig, (wcSign signCodes signer scheme args).sig.map (List.take scheme.sigSize) = some sig →
      ∀ before between, (∀ event ∈ between, Leaves scheme event) →
        let ssl := handshake codes scheme before between key.pub.val
        validSigAlgo ssl false = true ∧
          verifyBranches codes verifier (some sig) (some msg) (0, ssl) =
            (0, freePeerKey { ssl with peerAuthGood := true } scheme) := by
  obtain ⟨signature, hsignature⟩ := wcSign_signedFor signCodes hkey hmsg hsig hagree hsigned
  refine ⟨hsignature.sigLen, ?_⟩
  intro sig hreturned before between hbetween ssl
  obtain rfl := Option.some.inj (hreturned.symm.trans hsignature.returned)
  have halgo : ssl.peerSigAlgo = .pq scheme := peerSigAlgo_handshake codes before between _
  obtain ⟨object, hpub, hpublic, hslot⟩ := peer_handshake codes before hbetween
    key.pub.property
  have haccepts := hsignature.accepts
  rw [← hpublic] at haccepts
  constructor
  · unfold validSigAlgo
    rw [halgo]
    dsimp only
    rw [hslot]
    rfl
  · exact verifyBranches_of_accepts codes halgo hslot hpub hsignature.length hallocates haccepts 0

end Handshake

/-! ## A run -/

/-- An octet, repeated to the size of a signature. -/
def repeated (scheme : Scheme) (octet : UInt8) : Bytes scheme.sigSize :=
  ⟨List.replicate scheme.sigSize octet, List.length_replicate⟩

/-- Signs with the first octet of the private key. -/
def repeatingSigner : SignEnv Unit where
  generateBlock := failingGenerator
  hawkSignFinish := fun _ priv ↦ .finish (1, repeated .hawk512 (priv.headD 0))
  mayoCryptoSignSignature := fun _ priv ↦
    ⟨0, repeated .mayo1 (priv.headD 0), Scheme.mayo1.sigSize⟩
  snovaCryptoSign := fun msg priv ↦
    ⟨0, ⟨(repeated .snova2454 (priv.headD 0)).val ++ msg, by
      rw [List.length_append, (repeated .snova2454 (priv.headD 0)).property]⟩,
      Scheme.snova2454.sigSize + msg.length⟩
  malloc := true

/-- Accepts a signature, or opens a message, whose first octet is that of the key. -/
def repeatingVerifier : VerifyEnv where
  hawkVerifyFinish := fun sig _ pub ↦ if sig.head? = some (pub.headD 0) then 1 else 0
  mayoCryptoSignVerify := fun sig _ pub ↦ if sig.head? = some (pub.headD 0) then 0 else 1
  snovaCryptoSignOpen := fun sm smLen pub ↦
    if sm.head? = some (pub.headD 0) then
      ⟨0, sm.drop Scheme.snova2454.sigSize, smLen.toNat - Scheme.snova2454.sigSize⟩
    else ⟨1, [], 0⟩
  malloc := fun _ ↦ true

section Repeating

variable {msg priv pub : List UInt8}

theorem repeating_hawk512_agrees (hkeys : priv.headD 0 = pub.headD 0) :
    PrimitivesAgree repeatingSigner repeatingVerifier .hawk512 msg priv pub := by
  intro rng finished _
  have hhead : finished.2.val.head? = some (pub.headD 0) := congrArg some hkeys
  have haccepts : repeatingVerifier.hawkVerifyFinish finished.2.val msg pub = 1 := if_pos hhead
  rw [haccepts]
  exact one_ne_zero

theorem repeating_mayo1_agrees (hkeys : priv.headD 0 = pub.headD 0) :
    PrimitivesAgree repeatingSigner repeatingVerifier .mayo1 msg priv pub := by
  have hhead : (repeatingSigner.mayoCryptoSignSignature msg priv).out.val.head?
      = some (pub.headD 0) := congrArg some hkeys
  exact fun _ ↦ ⟨rfl, if_pos hhead⟩

theorem repeating_snova2454_agrees (hkeys : priv.headD 0 = pub.headD 0)
    (hmsg : Scheme.snova2454.sigSize + msg.length < UInt32.size) :
    PrimitivesAgree repeatingSigner repeatingVerifier .snova2454 msg priv pub := by
  let signed := repeatingSigner.snovaCryptoSign msg priv
  have hopened : signed.smLen.toUInt32.toNat - Scheme.snova2454.sigSize = msg.length := by
    change (Scheme.snova2454.sigSize + msg.length) % 2 ^ 32 - _ = _
    rw [Nat.mod_eq_of_lt hmsg, Nat.add_sub_cancel_left]
  have hdrop : signed.sm.val.drop Scheme.snova2454.sigSize = msg :=
    List.drop_left' List.length_replicate
  have hhead : signed.sm.val.head? = some (pub.headD 0) := congrArg some hkeys
  refine fun _ ↦ ⟨rfl, hdrop, ?_⟩
  calc repeatingVerifier.snovaCryptoSignOpen signed.sm.val signed.smLen.toUInt32 pub
      = ⟨0, signed.sm.val.drop Scheme.snova2454.sigSize,
          signed.smLen.toUInt32.toNat - Scheme.snova2454.sigSize⟩ := if_pos hhead
    _ = ⟨0, msg, msg.length⟩ := by rw [hdrop, hopened]

end Repeating

/-- A signature of `[1, 2, 3]` under the zero keys authenticates its signer. -/
def RepeatedKeyAccepted (scheme : Scheme) : Prop :=
  (wcSign sampleSignCodes repeatingSigner scheme (sampleArgs scheme)).sigLen
    = some scheme.sigSize ∧
  ∀ sig, (wcSign sampleSignCodes repeatingSigner scheme (sampleArgs scheme)).sig.map
      (List.take scheme.sigSize) = some sig →
    ∀ before between, (∀ event ∈ between, Leaves scheme event) →
      let ssl := handshake sampleWolfCodes scheme before between (Bytes.zero scheme.pubSize).val
      validSigAlgo ssl false = true ∧
        verifyBranches sampleWolfCodes repeatingVerifier (some sig) (some [1, 2, 3]) (0, ssl) =
          (0, freePeerKey { ssl with peerAuthGood := true } scheme)

theorem repeated_key_is_accepted :
    RepeatedKeyAccepted .hawk512 ∧ RepeatedKeyAccepted .mayo1 ∧
      RepeatedKeyAccepted .snova2454 := by
  have hkey (scheme : Scheme) : (sampleArgs scheme).key = some ⟨.zero _, .zero _, true, true⟩ := rfl
  have hhawk : PrimitivesAgree repeatingSigner repeatingVerifier .hawk512 [1, 2, 3]
      (Bytes.zero Scheme.hawk512.privSize).val (Bytes.zero Scheme.hawk512.pubSize).val :=
    repeating_hawk512_agrees (by decide +kernel)
  have hmayo : PrimitivesAgree repeatingSigner repeatingVerifier .mayo1 [1, 2, 3]
      (Bytes.zero Scheme.mayo1.privSize).val (Bytes.zero Scheme.mayo1.pubSize).val :=
    repeating_mayo1_agrees (by decide +kernel)
  have hsnova : PrimitivesAgree repeatingSigner repeatingVerifier .snova2454 [1, 2, 3]
      (Bytes.zero Scheme.snova2454.privSize).val (Bytes.zero Scheme.snova2454.pubSize).val :=
    repeating_snova2454_agrees (by decide +kernel) (by decide)
  exact ⟨signed_handshake_is_accepted sampleWolfCodes (hkey _) rfl rfl hhawk rfl rfl,
    signed_handshake_is_accepted sampleWolfCodes (hkey _) rfl rfl hmayo rfl rfl,
    signed_handshake_is_accepted sampleWolfCodes (hkey _) rfl rfl hsnova rfl rfl⟩

end PqMqtt.Signature
