import PqMqtt.Foundation.Run
import PqMqtt.Signature.KeyShim

/-!
# Key objects over their lifetime

A key object is initialised, filled by imports and freed, in any order and with any arguments.
An import that fails leaves it alone, and what it holds is what the last successful imports gave
it.  The three shims have the same five functions, each under its own name.
-/

namespace PqMqtt.Signature

open Run

/-! ## The three shims -/

/-- The functions of a shim that write key objects. -/
structure Shim (scheme : Scheme) where
  init : Option (Key scheme) → ℤ × Option (Key scheme)
  free : Option (Key scheme) → Option (Key scheme)
  importPublic : Option (List UInt8) → Option (Key scheme) → ℤ × Option (Key scheme)
  importPrivateKey : Option (List UInt8) → Option (List UInt8) → Option (Key scheme) →
    ℤ × Option (Key scheme)
  importPrivateKeyPair : Option (List UInt8) → Option (Key scheme) → ℤ × Option (Key scheme)

section Shims

variable (codes : WolfCodes)

/-- `wc_Hawk512_Init`, `wc_Hawk512_Free`, `wc_Hawk512_ImportPublic`, `wc_Hawk512_ImportPrivateKey`
and `wc_Hawk512_ImportPrivateKeyPair` -/
def wcHawk512 : Shim .hawk512 :=
  ⟨wcInit codes, wcFree, wcImportPublic codes, wcImportPrivateKey codes,
    wcImportPrivateKeyPair codes⟩

/-- `wc_Mayo1_Init` to `wc_Mayo1_ImportPrivateKeyPair` -/
def wcMayo1 : Shim .mayo1 :=
  ⟨wcInit codes, wcFree, wcImportPublic codes, wcImportPrivateKey codes,
    wcImportPrivateKeyPair codes⟩

/-- `wc_Snova2454_Init` to `wc_Snova2454_ImportPrivateKeyPair` -/
def wcSnova2454 : Shim .snova2454 :=
  ⟨wcInit codes, wcFree, wcImportPublic codes, wcImportPrivateKey codes,
    wcImportPrivateKeyPair codes⟩

def wcShim : (scheme : Scheme) → Shim scheme
  | .hawk512 => wcHawk512 codes
  | .mayo1 => wcMayo1 codes
  | .snova2454 => wcSnova2454 codes

theorem wcShim_eq (scheme : Scheme) :
    wcShim codes scheme = ⟨wcInit codes, wcFree, wcImportPublic codes, wcImportPrivateKey codes,
      wcImportPrivateKeyPair codes⟩ := by
  cases scheme <;> rfl

end Shims

/-! ## Calls -/

/-- A function of a shim and its arguments besides the key; `none` is a NULL pointer. -/
inductive Request where
  | init
  | free
  | importPublic (pub : Option (List UInt8))
  | importPrivateKey (priv pub : Option (List UInt8))
  | importPrivateKeyPair (keyPair : Option (List UInt8))

/-- A call passes the address of the key object or NULL. -/
structure Call where
  request : Request
  onObject : Bool

/-- Key material that an import gives to the object. -/
structure Supply where
  pub : List UInt8
  priv : Option (List UInt8)

namespace Request

def IsImport : Request → Prop
  | init => False
  | free => False
  | _ => True

/-- The material in the arguments.  A key pair is split after the private key. -/
def supply (scheme : Scheme) : Request → Option Supply
  | importPublic (some pub) => some ⟨pub, none⟩
  | importPrivateKey (some priv) (some pub) => some ⟨pub, some priv⟩
  | importPrivateKeyPair (some keyPair) =>
      some ⟨keyPair.drop scheme.privSize, some (keyPair.take scheme.privSize)⟩
  | _ => none

end Request

section Calls

variable {scheme : Scheme} (shim : Shim scheme)

/-- The return value and the object that the pointer refers to.  `wc_*_Free` returns nothing. -/
def perform : Request → Option (Key scheme) → ℤ × Option (Key scheme)
  | .init, key => shim.init key
  | .free, key => (0, shim.free key)
  | .importPublic pub, key => shim.importPublic pub key
  | .importPrivateKey priv pub, key => shim.importPrivateKey priv pub key
  | .importPrivateKeyPair keyPair, key => shim.importPrivateKeyPair keyPair key

/-- The call of a shim on the object. -/
def answer (object : Key scheme) (call : Call) : ℤ × Option (Key scheme) :=
  perform shim call.request (if call.onObject then some object else none)

/-- The object after a call. -/
def callStep (object : Key scheme) (call : Call) : Key scheme :=
  (answer shim object call).2.getD object

/-- What a successful import gave to the object. -/
def supplied (object : Key scheme) (call : Call) : List Supply :=
  if (answer shim object call).1 = 0 then (call.request.supply scheme).toList else []

/-- The object after `wc_*_Init` and more calls. -/
def objectAfter (start : Key scheme) (calls : List Call) : Key scheme :=
  run (callStep shim) start (⟨.init, true⟩ :: calls)

/-- What the successful imports of these calls gave to the object, in order. -/
def imported (start : Key scheme) (calls : List Call) : List Supply :=
  trace (callStep shim) (supplied shim) start (⟨.init, true⟩ :: calls)

end Calls

/-- The bytes of the last import that supplied a public key. -/
def lastPub (supplies : List Supply) : Option (List UInt8) := supplies.getLast?.map Supply.pub

/-- The bytes of the last import that supplied a private key. -/
def lastPriv (supplies : List Supply) : Option (List UInt8) :=
  (supplies.filterMap Supply.priv).getLast?

/-! ## One call -/

section Imports

variable (codes : WolfCodes) {scheme : Scheme}

/-- The size of the private key is checked before anything is written, and the import of the
public key writes nothing when it fails. -/
theorem wcImportPrivateKey_cases (priv pub : Option (List UInt8)) (key : Option (Key scheme)) :
    (∃ ret < 0, wcImportPrivateKey codes priv pub key = (ret, key)) ∨
      ∃ (privBytes : Bytes scheme.privSize) (pubBytes : Bytes scheme.pubSize)
        (object : Key scheme), priv = some privBytes.val ∧ pub = some pubBytes.val ∧
        key = some object ∧
        wcImportPrivateKey codes priv pub key
          = (0, some (object.receive pubBytes (some privBytes))) := by
  unfold wcImportPrivateKey
  split
  · next object privBytes pubBytes =>
    split_ifs with hlength
    · rcases wcImportPublic_cases codes (some pubBytes) (some object) with
        ⟨ret, hneg, hpublic⟩ | ⟨bytes, before, hbytes, hbefore, hpublic⟩
      · refine Or.inl ⟨ret, hneg, ?_⟩
        rw [hpublic]
        split
        · next hzero => exact absurd (Prod.mk.inj hzero).1 hneg.ne
        · next hret => exact hret.symm
      · obtain rfl := Option.some.inj hbefore
        refine Or.inr ⟨⟨privBytes, hlength⟩, bytes, object, rfl, hbytes, rfl, ?_⟩
        rw [hpublic]
        rfl
    · exact Or.inl ⟨_, codes.bufferE_neg, rfl⟩
  · exact Or.inl ⟨_, codes.badFuncArg_neg, rfl⟩

theorem wcImportPrivateKeyPair_cases (keyPair : Option (List UInt8)) (key : Option (Key scheme)) :
    (∃ ret < 0, wcImportPrivateKeyPair codes keyPair key = (ret, key)) ∨
      ∃ (bytes : List UInt8) (privBytes : Bytes scheme.privSize) (pubBytes : Bytes scheme.pubSize)
        (object : Key scheme), keyPair = some bytes ∧
        bytes.take scheme.privSize = privBytes.val ∧ bytes.drop scheme.privSize = pubBytes.val ∧
        key = some object ∧
        wcImportPrivateKeyPair codes keyPair key
          = (0, some (object.receive pubBytes (some privBytes))) := by
  cases keyPair with
  | none => exact Or.inl ⟨_, codes.badFuncArg_neg, rfl⟩
  | some bytes =>
    rw [wcImportPrivateKeyPair]
    split_ifs with hlength
    · exact Or.inl ⟨_, codes.bufferE_neg, rfl⟩
    · rcases wcImportPrivateKey_cases codes (some (bytes.take scheme.privSize))
          (some (bytes.drop scheme.privSize)) key with
        hfailed | ⟨privBytes, pubBytes, object, hpriv, hpub, hkey, himport⟩
      · exact Or.inl hfailed
      · exact Or.inr ⟨bytes, privBytes, pubBytes, object, rfl, Option.some.inj hpriv,
          Option.some.inj hpub, hkey, himport⟩

end Imports

section Steps

variable (codes : WolfCodes) {scheme : Scheme} (object : Key scheme)

/-- An import fails and changes nothing, or gives the object all that its arguments supply. -/
theorem answer_import_cases {call : Call} (h : call.request.IsImport) :
    (∃ ret < 0, answer (wcShim codes scheme) object call
        = (ret, if call.onObject then some object else none)) ∨
      ∃ (pub : Bytes scheme.pubSize) (priv : Option (Bytes scheme.privSize)),
        call.request.supply scheme = some ⟨pub.val, priv.map Subtype.val⟩ ∧
        answer (wcShim codes scheme) object call = (0, some (object.receive pub priv)) := by
  obtain ⟨request, onObject⟩ := call
  have hkey : ∀ {target}, (if onObject then some object else none) = some target →
      object = target := by
    intro target htarget
    cases onObject with
    | false => exact absurd htarget (Option.some_ne_none _).symm
    | true => exact Option.some.inj htarget
  rw [answer, wcShim_eq]
  cases request with
  | init => exact absurd h not_false
  | free => exact absurd h not_false
  | importPublic pub =>
    rcases wcImportPublic_cases codes pub (if onObject then some object else none) with
      hfailed | ⟨bytes, target, rfl, htarget, himport⟩
    · exact Or.inl hfailed
    · obtain rfl := hkey htarget
      exact Or.inr ⟨bytes, none, rfl, himport⟩
  | importPrivateKey priv pub =>
    rcases wcImportPrivateKey_cases codes priv pub (if onObject then some object else none) with
      hfailed | ⟨privBytes, pubBytes, target, rfl, rfl, htarget, himport⟩
    · exact Or.inl hfailed
    · obtain rfl := hkey htarget
      exact Or.inr ⟨pubBytes, some privBytes, rfl, himport⟩
  | importPrivateKeyPair keyPair =>
    rcases wcImportPrivateKeyPair_cases codes keyPair (if onObject then some object else none) with
      hfailed | ⟨bytes, privBytes, pubBytes, target, rfl, hpriv, hpub, htarget, himport⟩
    · exact Or.inl hfailed
    · obtain rfl := hkey htarget
      refine Or.inr ⟨pubBytes, some privBytes, ?_, himport⟩
      rw [Request.supply, hpriv, hpub]
      rfl

theorem getD_ite (onObject : Bool) :
    (if onObject then some object else none).getD object = object := by
  cases onObject <;> rfl

theorem supplied_of_not_import {call : Call} (h : ¬call.request.IsImport) :
    supplied (wcShim codes scheme) object call = [] := by
  obtain ⟨request, onObject⟩ := call
  rw [supplied]
  cases request with
  | init => exact ite_self _
  | free => exact ite_self _
  | importPublic => exact absurd trivial h
  | importPrivateKey => exact absurd trivial h
  | importPrivateKeyPair => exact absurd trivial h

theorem callStep_of_not_import {call : Call} (h : ¬call.request.IsImport) :
    callStep (wcShim codes scheme) object call = object ∨
      callStep (wcShim codes scheme) object call = Key.zero scheme := by
  obtain ⟨request, onObject⟩ := call
  rw [callStep, answer, wcShim_eq]
  cases request with
  | init =>
    cases onObject with
    | false => exact Or.inl rfl
    | true => exact Or.inr rfl
  | free =>
    cases onObject with
    | false => exact Or.inl rfl
    | true => exact Or.inr rfl
  | importPublic => exact absurd trivial h
  | importPrivateKey => exact absurd trivial h
  | importPrivateKeyPair => exact absurd trivial h

/-- What a call does to the object, and what it supplies. -/
theorem call_cases (call : Call) :
    (callStep (wcShim codes scheme) object call = object ∧
        supplied (wcShim codes scheme) object call = []) ∨
      (callStep (wcShim codes scheme) object call = Key.zero scheme ∧
        supplied (wcShim codes scheme) object call = []) ∨
      ∃ (pub : Bytes scheme.pubSize) (priv : Option (Bytes scheme.privSize)),
        callStep (wcShim codes scheme) object call = object.receive pub priv ∧
        supplied (wcShim codes scheme) object call = [⟨pub.val, priv.map Subtype.val⟩] := by
  by_cases himport : call.request.IsImport
  · rcases answer_import_cases codes object himport with
      ⟨ret, hneg, hanswer⟩ | ⟨pub, priv, hsupply, hanswer⟩
    · refine Or.inl ⟨?_, ?_⟩
      · rw [callStep, hanswer, getD_ite]
      · rw [supplied, hanswer, if_neg hneg.ne]
    · refine Or.inr (Or.inr ⟨pub, priv, ?_, ?_⟩)
      · rw [callStep, hanswer]
        rfl
      · rw [supplied, hanswer, if_pos rfl, hsupply]
        rfl
  · have hsupplied := supplied_of_not_import codes object himport
    rcases callStep_of_not_import codes object himport with hobject | hobject
    · exact Or.inl ⟨hobject, hsupplied⟩
    · exact Or.inr (Or.inl ⟨hobject, hsupplied⟩)

end Steps

/-! ## Whole lifetimes -/

/-- The object holds what the last imports supplied, and a private key only with its public
key. -/
structure Holds {scheme : Scheme} (object : Key scheme) (supplies : List Supply) : Prop where
  hasPub_of_hasPriv : object.hasPriv → object.hasPub
  pub_eq : object.hasPub → lastPub supplies = some object.pub.val
  priv_eq : object.hasPriv → lastPriv supplies = some object.priv.val

theorem holds_zero (scheme : Scheme) (supplies : List Supply) :
    Holds (Key.zero scheme) supplies where
  hasPub_of_hasPriv h := h
  pub_eq h := absurd h Bool.false_ne_true
  priv_eq h := absurd h Bool.false_ne_true

theorem Holds.receive {scheme : Scheme} {object : Key scheme} {supplies : List Supply}
    (h : Holds object supplies) (pub : Bytes scheme.pubSize)
    (priv : Option (Bytes scheme.privSize)) :
    Holds (object.receive pub priv) (supplies ++ [⟨pub.val, priv.map Subtype.val⟩]) where
  hasPub_of_hasPriv _ := rfl
  pub_eq _ := by
    rw [lastPub, List.getLast?_append, List.getLast?_singleton]
    rfl
  priv_eq hpriv := by
    rw [lastPriv, List.filterMap_append, List.getLast?_append]
    cases priv with
    | none => exact h.priv_eq hpriv
    | some bytes => rfl

/-- A shim keeps its key objects consistent and its imports are atomic. -/
structure KeepsKeys {scheme : Scheme} (shim : Shim scheme) : Prop where
  atomic : ∀ object call, call.request.IsImport → (answer shim object call).1 ≠ 0 →
    callStep shim object call = object
  holds : ∀ start calls, Holds (objectAfter shim start calls) (imported shim start calls)
  splits : ∀ object keyPair, keyPair.length = scheme.keypairSize →
    (answer shim object ⟨.importPrivateKeyPair (some keyPair), true⟩).1 = 0 ∧
      ∃ (priv : Bytes scheme.privSize) (pub : Bytes scheme.pubSize),
        priv.val = keyPair.take scheme.privSize ∧ pub.val = keyPair.drop scheme.privSize ∧
        callStep shim object ⟨.importPrivateKeyPair (some keyPair), true⟩
          = ⟨priv, pub, true, true⟩
  cleared : ∀ object, callStep shim object ⟨.init, true⟩ = Key.zero scheme ∧
    callStep shim object ⟨.free, true⟩ = Key.zero scheme

theorem keepsKeys (codes : WolfCodes) (scheme : Scheme) : KeepsKeys (wcShim codes scheme) where
  atomic object call himport hret := by
    rcases answer_import_cases codes object himport with
      ⟨ret, -, hanswer⟩ | ⟨pub, priv, -, hanswer⟩
    · rw [callStep, hanswer, getD_ite]
    · rw [hanswer] at hret
      exact absurd rfl hret
  holds start calls := by
    -- The first call clears the object, so nothing is asked of the memory before it.
    have hstep : ∀ object supplies call, Holds object supplies →
        Holds (callStep (wcShim codes scheme) object call)
          (supplies ++ supplied (wcShim codes scheme) object call) := by
      intro object supplies call h
      rcases call_cases codes object call with
        ⟨hobject, hsupplied⟩ | ⟨hobject, hsupplied⟩ | ⟨pub, priv, hobject, hsupplied⟩
      · rw [hobject, hsupplied, List.append_nil]
        exact h
      · rw [hobject, hsupplied, List.append_nil]
        exact holds_zero scheme supplies
      · rw [hobject, hsupplied]
        exact h.receive pub priv
    have hinit : callStep (wcShim codes scheme) start ⟨.init, true⟩ = Key.zero scheme := by
      rw [callStep, answer, wcShim_eq]
      rfl
    have hnothing : supplied (wcShim codes scheme) start ⟨.init, true⟩ = [] := ite_self _
    rw [objectAfter, imported, run_cons, trace, hinit, hnothing, List.nil_append]
    exact run_trace_invariant hstep (holds_zero scheme []) calls
  splits object keyPair hlength := by
    have hpriv : (keyPair.take scheme.privSize).length = scheme.privSize := by
      rw [List.length_take, hlength, Scheme.keypairSize]
      exact Nat.min_eq_left (Nat.le_add_right _ _)
    have hpub : (keyPair.drop scheme.privSize).length = scheme.pubSize := by
      rw [List.length_drop, hlength, Scheme.keypairSize, Nat.add_sub_cancel_left]
    have hanswer : answer (wcShim codes scheme) object ⟨.importPrivateKeyPair (some keyPair), true⟩
        = (0, some ⟨⟨_, hpriv⟩, ⟨_, hpub⟩, true, true⟩) := by
      have himport := wcImportPrivateKeyPair_append codes ⟨_, hpriv⟩ ⟨_, hpub⟩ object
      rw [List.take_append_drop] at himport
      rw [answer, wcShim_eq]
      exact himport
    refine ⟨by rw [hanswer], ⟨_, hpriv⟩, ⟨_, hpub⟩, rfl, rfl, ?_⟩
    rw [callStep, hanswer]
    rfl
  cleared object := by
    rw [callStep, callStep, answer, answer, wcShim_eq]
    exact ⟨rfl, rfl⟩

theorem shims_keep_keys (codes : WolfCodes) :
    KeepsKeys (wcHawk512 codes) ∧ KeepsKeys (wcMayo1 codes) ∧ KeepsKeys (wcSnova2454 codes) :=
  ⟨keepsKeys codes .hawk512, keepsKeys codes .mayo1, keepsKeys codes .snova2454⟩

end PqMqtt.Signature
