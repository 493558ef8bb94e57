import PqMqtt.Foundation.CertificatePath
import PqMqtt.Foundation.FileStore
import PqMqtt.Foundation.Pem
import PqMqtt.Signature.HawkCertificate
import PqMqtt.Signature.HonestPeer
import PqMqtt.Signature.PemFile
import PqMqtt.Signature.SerialNumber

/-!
# The HAWK certificates of the lab

`gen_hawk_pki` makes three key pairs, lets the first one sign three certificates and writes six
PEM files.  The shell, the clock, HAWK and the file system are parameters.  The files are read
back as an anchor and two certificates that it vouches for, and as the keys that belong to them.
-/

namespace PqMqtt.Signature

open Der X509 FileStore LineWrapping

/-! ## The generator -/

/-- What `main` meets outside of itself; the `n`th key pair, certificate time and signature are
those of the `n`th call.  `hawkKeygen` has no result where it fails or where there is no
`/dev/urandom`.  A file that can be opened takes the whole text: `write_pem` ignores what `fprintf`,
`fputc` and `fclose` return, and the model assumes that none of them fails. -/
structure PkiHost (Context : Type) where
  system : List Char → ℤ
  keygenMalloc : ℕ → Bool
  hawkKeygen : ℕ → Option HawkKeypair
  time : ℕ → ℤ
  signing : ℕ → HawkApi Context
  fopen : List Char → Bool

/-- Paths and texts. -/
abbrev Directory := Files (List Char) (List Char)

/-- `die`: the program stops with status 1 and leaves the files. -/
def orDie {α : Type} (files : Directory) : Option α → Except Directory α
  | none => .error files
  | some a => .ok a

/-- `pico-hawk-client` -/
def clientCn : List UInt8 :=
  [0x70, 0x69, 0x63, 0x6f, 0x2d, 0x68, 0x61, 0x77, 0x6b, 0x2d, 0x63, 0x6c, 0x69, 0x65, 0x6e, 0x74]

/-- The key pairs and certificates of a run. -/
structure Pki where
  ca : HawkKeypair
  server : HawkKeypair
  client : HawkKeypair
  caCert : DerBuf
  serverCert : DerBuf
  clientCert : DerBuf

section Generator

variable {Context : Type} (host : PkiHost Context)

/-- `gen_key`, at its `n`th call. -/
def genKey (n : ℕ) : Option HawkKeypair :=
  if host.keygenMalloc n then host.hawkKeygen n else none

/-- `snprintf` into `path`, which has 1024 bytes. -/
def pathIn (outdir name : List Char) : List Char := (outdir ++ '/' :: name).take 1023

/-- `cmd` -/
def mkdirCommand (outdir : List Char) : List Char :=
  ("mkdir -p '".toList ++ outdir ++ "'".toList).take 1023

/-- `main` before it opens a file. -/
def makePki (outdir : List Char) : Option Pki :=
  if host.system (mkdirCommand outdir) ≠ 0 then none
  else do
    let ca ← genKey host 0
    let server ← genKey host 1
    let client ← genKey host 2
    let caCert ← makeCert (host.signing 0) (host.time 0) .empty 1 rootCn ca rootCn ca true false
    let serverCert ←
      makeCert (host.signing 1) (host.time 1) .empty 2 rootCn ca brokerDns server false true
    let clientCert ←
      makeCert (host.signing 2) (host.time 2) .empty 3 rootCn ca clientCn client false false
    some ⟨ca, server, client, caCert, serverCert, clientCert⟩

/-- `write_pem`, when the writes to an open file succeed. -/
def writePemFile (path type : List Char) (der : DerBuf) (files : Directory) :
    Except Directory Directory :=
  if host.fopen path then .ok (create files path (writePem type der.bytes)) else .error files

def certificateType : List Char := "CERTIFICATE".toList

def privateKeyType : List Char := "PRIVATE KEY".toList

/-- `write_pair` -/
def writePair (certPath keyPath : List Char) (cert : DerBuf) (kp : HawkKeypair)
    (files : Directory) : Except Directory Directory := do
  let key ← orDie files (pkcs8 .empty kp)
  let files ← writePemFile host certPath certificateType cert files
  writePemFile host keyPath privateKeyType key files

/-- `main` from its first file on. -/
def writePki (outdir : List Char) (pki : Pki) (files : Directory) : Except Directory Directory := do
  let files ← writePemFile host (pathIn outdir "ca.cert.pem".toList) certificateType pki.caCert
    files
  let caKey ← orDie files (pkcs8 .empty pki.ca)
  let files ← writePemFile host (pathIn outdir "ca.key.pem".toList) privateKeyType caKey files
  let files ← writePair host (pathIn outdir "server.cert.pem".toList)
    (pathIn outdir "server.key.pem".toList) pki.serverCert pki.server files
  writePair host (pathIn outdir "client_hawk512.cert.pem".toList)
    (pathIn outdir "client_hawk512.key.pem".toList) pki.clientCert pki.client files

/-- The directory of the files. -/
def outdirOf (argv : Option (List Char)) : List Char := argv.getD "certlab/hawk512".toList

/-- `main`: the files that it leaves, and whether its status is 0. -/
def main (argv : Option (List Char)) (files : Directory) : Except Directory Directory := do
  let pki ← orDie files (makePki host (outdirOf argv))
  writePki host (outdirOf argv) pki files

end Generator

/-! ## The six files -/

/-- A certificate file and the file of its key, as they are named and filled. -/
def Pki.texts (pki : Pki) (outdir : List Char) : List (List Char × List Char) :=
  [(pathIn outdir "ca.cert.pem".toList, writePem certificateType pki.caCert.bytes),
    (pathIn outdir "ca.key.pem".toList, writePem privateKeyType pki.ca.info.der),
    (pathIn outdir "server.cert.pem".toList, writePem certificateType pki.serverCert.bytes),
    (pathIn outdir "server.key.pem".toList, writePem privateKeyType pki.server.info.der),
    (pathIn outdir "client_hawk512.cert.pem".toList, writePem certificateType pki.clientCert.bytes),
    (pathIn outdir "client_hawk512.key.pem".toList, writePem privateKeyType pki.client.info.der)]

section Files

variable {Context : Type} (host : PkiHost Context)

theorem writePemFile_eq (path type : List Char) (der : DerBuf) :
    writePemFile host path type der = createAll host.fopen [(path, writePem type der.bytes)] := rfl

theorem orDie_some_bind {α : Type} (files : Directory) (a : α)
    (next : α → Except Directory Directory) : (orDie files (some a) >>= next) = next a := rfl

/-- A key file always fits its buffer. -/
theorem writePair_eq (certPath keyPath : List Char) (cert : DerBuf) (kp : HawkKeypair) :
    writePair host certPath keyPath cert kp =
      createAll host.fopen [(certPath, writePem certificateType cert.bytes),
        (keyPath, writePem privateKeyType kp.info.der)] := by
  obtain ⟨key, hkey, hbytes⟩ := pkcs8_empty kp
  funext files
  unfold writePair
  rw [hkey, orDie_some_bind, writePemFile_eq, writePemFile_eq, hbytes]
  exact (createAll_append host.fopen [_] [_] files).symm

/-- Only `fopen` can stop the writing. -/
theorem writePki_eq (outdir : List Char) (pki : Pki) :
    writePki host outdir pki = createAll host.fopen (pki.texts outdir) := by
  obtain ⟨key, hkey, hbytes⟩ := pkcs8_empty pki.ca
  funext files
  unfold writePki
  simp only [hkey, orDie_some_bind, writePemFile_eq, writePair_eq, hbytes]
  change _ = createAll host.fopen ([_] ++ ([_] ++ ([_, _] ++ [_, _]))) files
  rw [createAll_append]
  congr 1
  funext files
  rw [createAll_append]
  congr 1
  funext files
  exact (createAll_append ..).symm

end Files

/-! ## Reading the files -/

/-- The names in the directory, in the order in which the files are written. -/
def fileNames : List (List Char) :=
  ["ca.cert.pem".toList, "ca.key.pem".toList, "server.cert.pem".toList, "server.key.pem".toList,
    "client_hawk512.cert.pem".toList, "client_hawk512.key.pem".toList]

theorem map_fst_texts (pki : Pki) (outdir : List Char) :
    (pki.texts outdir).map Prod.fst = fileNames.map (pathIn outdir) := rfl

/-- The paths differ where no name is cut off. -/
theorem paths_nodup {outdir : List Char} (h : outdir.length ≤ 999) :
    (fileNames.map (pathIn outdir)).Nodup := by
  have hlength : ∀ name ∈ fileNames, name.length ≤ 23 := by decide
  have hpath : ∀ name ∈ fileNames, pathIn outdir name = outdir ++ '/' :: name := by
    intro name hname
    apply List.take_of_length_le
    rw [List.length_append, List.length_cons]
    have := hlength name hname
    omega
  have hnames : fileNames.Nodup := by decide
  rw [List.nodup_map_iff_inj_on hnames]
  intro first hfirst second hsecond heq
  rw [hpath first hfirst, hpath second hsecond, List.append_cancel_left_eq] at heq
  exact List.tail_eq_of_cons_eq heq

/-- Three pieces of text around a label and a body make the lines of a block. -/
theorem block_of_pieces {type first last dashes body : List Char} {lines : List (List Char)}
    (hfirst : first = List.replicate 5 '-' ++ "BEGIN".toList ++ [' '])
    (hlast : last = List.replicate 5 '-' ++ "END".toList ++ [' '])
    (hdashes : dashes = List.replicate 5 '-' ++ ['\n'])
    (hbody : body = Delimited.unlines '\n' lines) :
    first ++ type ++ dashes ++ body ++ last ++ type ++ dashes = Delimited.unlines '\n'
      (Pem.boundary "BEGIN".toList type :: lines ++ [Pem.boundary "END".toList type]) := by
  subst hfirst hlast hdashes hbody
  rw [List.cons_append, Delimited.unlines_cons, unlines_concat]
  simp only [Pem.boundary, List.append_assoc, List.cons_append, List.nil_append]

theorem writePem_eq (type : List Char) (der : List UInt8) :
    ∃ lines, writePem type der = Delimited.unlines '\n'
        (Pem.boundary "BEGIN".toList type :: lines ++ [Pem.boundary "END".toList type]) ∧
      lines.flatten = Base64.encode Base64.standard der := by
  have hempty : Wrapped '\n' 64 [] Writer.empty := wrapped_empty (by decide)
  obtain ⟨lines, hfinish, hflatten, -⟩ :=
    (hempty.foldl_put (Base64.encode Base64.standard der)).finish
  have hbody : pemBody der = Delimited.unlines '\n' lines := by
    rw [pemBody, pemLoop_eq, List.drop_zero, hfinish]
  exact ⟨lines, block_of_pieces (by decide +kernel) (by decide +kernel) (by decide +kernel) hbody,
    hflatten⟩

/-- A written file is read back under its type. -/
theorem read_writePem {type : List Char} (htype : '\n' ∉ type) (der : List UInt8) :
    Pem.read type (writePem type der) = some der := by
  obtain ⟨lines, htext, hflatten⟩ := writePem_eq type der
  have hclean {c : Char} (hdigits : ∀ v, Base64.standard.digit v ≠ c)
      (hpadding : Base64.standard.padding ≠ c) : ∀ line ∈ lines, c ∉ line := by
    intro line hline hmem
    have hencoded : c ∈ Base64.encode Base64.standard der :=
      hflatten ▸ List.mem_flatten.mpr ⟨line, hline, hmem⟩
    exact Base64.forall_mem_encode (p := (· ≠ c)) hdigits hpadding der c hencoded rfl
  rw [htext, Pem.read_block htype (hclean (by decide) (by decide))
    (hclean (by decide) (by decide)), hflatten]
  exact Base64.decode_encode der

/-- The certificate of a file. -/
def certificateFile (files : Directory) (path : List Char) : Option Certificate := do
  let text ← files path
  let der ← Pem.read certificateType text
  readWhole certificate der

/-- The private key of a file. -/
def keyFile (files : Directory) (path : List Char) : Option PrivateKeyInfo := do
  let text ← files path
  let der ← Pem.read privateKeyType text
  PrivateKeyInfo.read der

theorem certificateFile_of_text {files : Directory} {path : List Char} {der : List UInt8}
    (h : files path = some (writePem certificateType der)) :
    certificateFile files path = readWhole certificate der := by
  unfold certificateFile
  rw [h, Option.bind_eq_bind, Option.bind_some, read_writePem (by decide), Option.bind_eq_bind,
    Option.bind_some]

theorem keyFile_of_text {files : Directory} {path : List Char} {kp : HawkKeypair}
    (h : files path = some (writePem privateKeyType kp.info.der)) :
    keyFile files path = some kp.info := by
  unfold keyFile
  rw [h, Option.bind_eq_bind, Option.bind_some, read_writePem (by decide), Option.bind_eq_bind,
    Option.bind_some]
  exact PrivateKeyInfo.read_der kp.info (by rw [length_der]; norm_num)

/-! ## Certificates fit -/

theorem length_element_le {content : List UInt8} {n : ℕ} (hcontent : content.length ≤ n)
    (hn : n < 2 ^ 16) (tag : UInt8) : (element tag content).length ≤ n + 4 := by
  have hlength : (lengthOctets content.length).length ≤ 3 := by
    unfold lengthOctets
    split
    · exact (by decide : 1 ≤ 3)
    · have hoctets : (toOctets content.length).length ≤ 2 :=
        length_toOctets_le (hcontent.trans_lt (hn.trans_eq (by norm_num)))
      exact Nat.succ_le_succ hoctets
  rw [length_element]
  omega

theorem length_nameOctets_le {cn : List UInt8} (h : cn.length ≤ 64) :
    (nameOctets (commonName cn)).length ≤ 96 := by
  have hattribute : (Attribute.der ⟨oidCn, 0x13, cn⟩).length ≤ 64 + 4 + 5 + 4 := by
    apply length_element_le _ (by norm_num)
    have hvalue := length_element_le h (by norm_num) 0x13
    have htype : (element 0x06 oidCn).length = 5 := by decide
    rw [List.length_append, htype]
    dsimp only
    omega
  have hset : (element 0x31 (Attribute.der ⟨oidCn, 0x13, cn⟩)).length ≤ 64 + 4 + 5 + 4 + 4 :=
    length_element_le hattribute (by norm_num) 0x31
  have hname := length_element_le hset (by norm_num) 0x30
  unfold nameOctets commonName
  simp only [List.flatMap_cons, List.flatMap_nil, List.append_nil]
  omega

section Room

variable (now : ℤ) (serial : UInt32) {issuerCn subjectCn : List UInt8}
  (subjectKey : HawkKeypair) (isCa isServer : Bool)

theorem length_tbsForm_le (hissuer : issuerCn.length ≤ 64) (hsubject : subjectCn.length ≤ 64) :
    (tbsForm now serial issuerCn subjectCn subjectKey isCa isServer).der.length ≤ 2048 := by
  have hversion : (element 0xa0 (element 0x02 (DerBuf.smallOctets 2))).length = 5 := by decide
  have hnumber : (element 0x02 (DerBuf.smallOctets serial.toNat)).length ≤ 3 + 4 :=
    length_element_le (length_smallOctets_le _) (by norm_num) 0x02
  have halgorithm : (algorithmOctets oidHawk).length = 16 := by decide
  have htime (t : ℤ) : (element 0x18 (timeString t)).length ≤ 15 + 4 :=
    length_element_le (List.length_take_le ..) (by norm_num) 0x18
  have hvalidity : (element 0x30 (element 0x18 (timeString now) ++
      element 0x18 (timeString (now + validitySeconds)))).length ≤ 38 + 4 := by
    apply length_element_le _ (by norm_num)
    have hfirst := htime now
    have hlast := htime (now + validitySeconds)
    rw [List.length_append]
    omega
  have hkey : (element 0x30 (algorithmOctets oidHawk ++
      element 0x03 (0 :: subjectKey.pub.val))).length ≤ 16 + (1025 + 4) + 4 := by
    apply length_element_le _ (by norm_num)
    have hbits : (0 :: subjectKey.pub.val).length ≤ 1025 := by
      rw [List.length_cons, subjectKey.pub.property]
      decide
    rw [List.length_append, halgorithm]
    exact Nat.add_le_add_left (length_element_le hbits (by norm_num) 0x03) 16
  have hextensions : (element 0xa3 (element 0x30
      ((rawExtensions isCa isServer).flatMap RawExtension.der))).length ≤ 200 := by
    cases isCa <;> cases isServer <;> decide +kernel
  have hissuerName := length_nameOctets_le hissuer
  have hsubjectName := length_nameOctets_le hsubject
  have hbody : (tbsForm now serial issuerCn subjectCn subjectKey isCa isServer).body.length
      ≤ 2044 := by
    unfold TbsForm.body tbsForm
    simp only [List.length_append, hversion, halgorithm]
    omega
  exact length_element_le hbody (by norm_num) 0x30

/-- A certificate is never too long for its buffer: the keys and the memory decide. -/
theorem makeCert_isSome_iff {Context : Type} (api : HawkApi Context) (issuerKey : HawkKeypair)
    (hissuer : issuerCn.length ≤ 64) (hsubject : subjectCn.length ≤ 64) :
    (∃ written, makeCert api now .empty serial issuerCn issuerKey subjectCn subjectKey isCa isServer
        = some written) ↔
      api.malloc = true ∧
        ∃ sig, api.sign (tbsForm now serial issuerCn subjectCn subjectKey isCa isServer).der
          issuerKey.priv = some sig := by
  have hlength := length_tbsForm_le now serial subjectKey isCa isServer hissuer hsubject
  constructor
  · rintro ⟨written, hwritten⟩
    obtain ⟨tbs, htbs, hrest⟩ := Option.bind_eq_some_iff.mp hwritten
    obtain ⟨sig, hsig, -⟩ := Option.bind_eq_some_iff.mp hrest
    have hbytes : tbs.bytes =
        (tbsForm now serial issuerCn subjectCn subjectKey isCa isServer).der :=
      (writes_makeTbs now serial issuerCn subjectCn subjectKey isCa isServer).eq_some_iff.mp htbs
    unfold signTbs at hsig
    split_ifs at hsig with hmalloc
    rw [← hbytes]
    exact ⟨hmalloc, sig, hsig⟩
  · rintro ⟨hmalloc, sig, hsig⟩
    apply exists_makeCert api now serial issuerCn subjectCn subjectKey isCa isServer hmalloc hsig
    have halgorithm : (algorithmOctets oidHawk).length = 16 := by decide
    have hbits : (0 :: sig.val).length ≤ 556 := by
      rw [List.length_cons, sig.property]
      decide
    have hsignature := length_element_le hbits (by norm_num) 0x03
    apply (length_element_le (n := 2048 + (16 + (556 + 4))) _ (by norm_num) 0x30).trans
      (by decide)
    rw [List.length_append, List.length_append, halgorithm]
    omega

end Room

/-! ## The three certificates -/

/-- What one call of `make_cert` is asked for; serial numbers count the calls from one on. -/
structure CertRequest where
  call : ℕ
  subjectCn : List UInt8
  subjectKey : HawkKeypair
  isCa : Bool
  isServer : Bool

namespace CertRequest

variable {Context : Type} (host : PkiHost Context) (ca : HawkKeypair) (request : CertRequest)

def serial : UInt32 := UInt32.ofNat (request.call + 1)

def made : Option DerBuf :=
  makeCert (host.signing request.call) (host.time request.call) .empty request.serial rootCn ca
    request.subjectCn request.subjectKey request.isCa request.isServer

/-- What the certificate says. -/
def tbs : TbsCertificate :=
  requestedTbs (host.time request.call) request.serial rootCn request.subjectCn request.subjectKey
    request.isCa request.isServer

/-- The certificate with its signed octets and their signature. -/
def certificate (tbsOctets : List UInt8) (sig : Bytes Scheme.hawk512.sigSize) : Certificate :=
  ⟨tbsOctets, request.tbs host, oidHawk, sig.val⟩

/-- The key signs what the certificate says, and there is memory for it. -/
def Signed : Prop :=
  (host.signing request.call).malloc = true ∧
    ∃ sig, (host.signing request.call).sign
      (tbsForm (host.time request.call) request.serial rootCn request.subjectCn request.subjectKey
        request.isCa request.isServer).der ca.priv = some sig

/-- Both times of the certificate have years of four digits. -/
def Dated : Prop :=
  FourDigitYear (host.time request.call) ∧
    FourDigitYear (host.time request.call + validitySeconds)

variable {host ca request}

theorem exists_made_iff (h : request.subjectCn.length ≤ 64) :
    (∃ der, request.made host ca = some der) ↔ request.Signed host ca :=
  makeCert_isSome_iff _ _ _ _ _ _ _ (by decide) h

/-- A certificate is read back from its file as what was asked for, signed over its octets. -/
theorem read_made {der : DerBuf} (h : request.made host ca = some der)
    (hcall : request.call < 3) (hdated : request.Dated host) :
    ∃ tbsOctets sig, (host.signing request.call).sign tbsOctets ca.priv = some sig ∧
      readWhole X509.certificate der.bytes = some (request.certificate host tbsOctets sig) := by
  have hserial : request.serial.toNat ≤ 0xffff := by
    rw [serial, UInt32.toNat_ofNat']
    exact (Nat.mod_le _ _).trans (by omega)
  obtain ⟨tbs, sig, htbs, hsig, hbytes⟩ := exists_of_makeCert _ _ _ _ _ _ _ _ h
  have htbsBytes : tbs.bytes = _ :=
    (writes_makeTbs (host.time request.call) request.serial rootCn request.subjectCn
      request.subjectKey request.isCa request.isServer).eq_some_iff.mp htbs
  have hreads := reads_tbsCertificate (standsFor_tbsForm (host.time request.call) request.serial
    rootCn request.subjectCn request.subjectKey request.isCa request.isServer hserial hdated.1
    hdated.2)
  have hlength := DerBuf.length_lt hbytes
  have hder : der.bytes = _ := hbytes
  refine ⟨tbs.bytes, sig, hsig, ?_⟩
  rw [hder]
  rw [htbsBytes] at hlength ⊢
  exact (reads_certificate hreads oidHawk sig.val).readWhole hlength

end CertRequest

/-! ## The run -/

section Run

variable {Context : Type} (host : PkiHost Context)

namespace Pki

def caRequest (pki : Pki) : CertRequest := ⟨0, rootCn, pki.ca, true, false⟩

def serverRequest (pki : Pki) : CertRequest := ⟨1, brokerDns, pki.server, false, true⟩

def clientRequest (pki : Pki) : CertRequest := ⟨2, clientCn, pki.client, false, false⟩

/-- How the key pairs and the certificates of a run came about. -/
structure Made (pki : Pki) (outdir : List Char) : Prop where
  shell : host.system (mkdirCommand outdir) = 0
  ca : genKey host 0 = some pki.ca
  server : genKey host 1 = some pki.server
  client : genKey host 2 = some pki.client
  caCert : pki.caRequest.made host pki.ca = some pki.caCert
  serverCert : pki.serverRequest.made host pki.ca = some pki.serverCert
  clientCert : pki.clientRequest.made host pki.ca = some pki.clientCert

end Pki

variable {host}

theorem makePki_eq_some_iff {outdir : List Char} {pki : Pki} :
    makePki host outdir = some pki ↔ pki.Made host outdir := by
  constructor
  · intro h
    unfold makePki at h
    split_ifs at h with hsystem
    obtain ⟨ca, hca, h⟩ := Option.bind_eq_some_iff.mp h
    obtain ⟨server, hserver, h⟩ := Option.bind_eq_some_iff.mp h
    obtain ⟨client, hclient, h⟩ := Option.bind_eq_some_iff.mp h
    obtain ⟨caCert, hcaCert, h⟩ := Option.bind_eq_some_iff.mp h
    obtain ⟨serverCert, hserverCert, h⟩ := Option.bind_eq_some_iff.mp h
    obtain ⟨clientCert, hclientCert, h⟩ := Option.bind_eq_some_iff.mp h
    obtain rfl := Option.some.inj h
    exact ⟨not_not.mp hsystem, hca, hserver, hclient, hcaCert, hserverCert, hclientCert⟩
  · intro h
    have hca : makeCert (host.signing 0) (host.time 0) .empty 1 rootCn pki.ca rootCn pki.ca true
        false = some pki.caCert := h.caCert
    have hserver : makeCert (host.signing 1) (host.time 1) .empty 2 rootCn pki.ca brokerDns
        pki.server false true = some pki.serverCert := h.serverCert
    have hclient : makeCert (host.signing 2) (host.time 2) .empty 3 rootCn pki.ca clientCn
        pki.client false false = some pki.clientCert := h.clientCert
    unfold makePki
    rw [if_neg (not_not.mpr h.shell), h.ca, h.server, h.client]
    simp only [Option.bind_eq_bind, Option.bind_some, hca, hserver, hclient]

theorem main_eq_ok_iff {argv : Option (List Char)} {files after : Directory} :
    main host argv files = .ok after ↔ ∃ pki : Pki, pki.Made host (outdirOf argv) ∧
      (∀ name ∈ fileNames, host.fopen (pathIn (outdirOf argv) name) = true) ∧
      after = created (pki.texts (outdirOf argv)) files := by
  have hopens (pki : Pki) : (∀ file ∈ pki.texts (outdirOf argv), host.fopen file.1 = true) ↔
      ∀ name ∈ fileNames, host.fopen (pathIn (outdirOf argv) name) = true := by
    rw [← List.forall_mem_map (f := Prod.fst) (P := fun path ↦ host.fopen path = true),
      map_fst_texts, List.forall_mem_map]
  unfold main
  cases hpki : makePki host (outdirOf argv) with
  | none =>
    apply iff_of_false (fun h ↦ nomatch h)
    rintro ⟨pki, hmade, -⟩
    rw [makePki_eq_some_iff.mpr hmade] at hpki
    cases hpki
  | some pki =>
    rw [orDie_some_bind, writePki_eq, createAll_eq_ok_iff, hopens]
    constructor
    · intro h
      exact ⟨pki, makePki_eq_some_iff.mp hpki, h⟩
    · rintro ⟨other, hother, h⟩
      rw [makePki_eq_some_iff.mpr hother] at hpki
      obtain rfl := Option.some.inj hpki
      exact h

end Run

/-! ## What the files are good for -/

section Readers

variable {Context : Type} (host : PkiHost Context) (env : VerifyEnv)

/-- The verification of HAWK signatures in the firmware. -/
def firmwareVerify : Verify := fun key octets signature ↦ env.accepts .hawk512 signature octets key

/-- The HAWK of the firmware accepts what the HAWK of the generator signs with its key pairs. -/
def SignsFor : Prop :=
  ∀ n kp call octets sig, genKey host n = some kp →
    (host.signing call).sign octets kp.priv = some sig →
    env.accepts .hawk512 sig.val octets kp.pub.val = true

/-- A key pair and its certificate. -/
structure Identity where
  keypair : HawkKeypair
  certificate : Certificate

/-- An identity is read back from its two files, and the key of the certificate is that of the
key file. -/
structure Identity.StoredIn (identity : Identity) (files : Directory)
    (certPath keyPath : List Char) : Prop where
  certificate : certificateFile files certPath = some identity.certificate
  key : keyFile files keyPath = some identity.keypair.info
  same : identity.certificate.tbs.publicKey = identity.keypair.pub.val

/-- The time lies in the validity of all certificates. -/
def InValidity (t : ℤ) : Prop :=
  ∀ call < 3, host.time call ≤ t ∧ t ≤ host.time call + validitySeconds

/-- What the readers of the directory find. -/
structure Published (outdir : List Char) (files : Directory) (root server client : Identity) :
    Prop where
  rootFiles : root.StoredIn files (pathIn outdir "ca.cert.pem".toList)
    (pathIn outdir "ca.key.pem".toList)
  serverFiles : server.StoredIn files (pathIn outdir "server.cert.pem".toList)
    (pathIn outdir "server.key.pem".toList)
  clientFiles : client.StoredIn files (pathIn outdir "client_hawk512.cert.pem".toList)
    (pathIn outdir "client_hawk512.key.pem".toList)
  serials : [root, server, client].map (fun identity ↦ identity.certificate.tbs.serial) = [1, 2, 3]
  acceptsServer : ∀ t, InValidity host t →
    Accepted (firmwareVerify env) root.certificate server.certificate oidServerAuth t
  acceptsClient : ∀ t, InValidity host t →
    Accepted (firmwareVerify env) root.certificate client.certificate oidClientAuth t
  broker : server.certificate.Names (0x82, brokerDns) ∧ server.certificate.Names (0x87, brokerIp)
  confirmed : ∀ codes, env.malloc 0 = true →
    confirmSignature codes env .hawk512 true (some root.certificate.tbs.publicKey)
      (some server.certificate.signature) (some server.certificate.tbsOctets) = 0

end Readers

theorem signsCertificates_of {cert : Certificate} {isServer : Bool}
    (h : cert.tbs.extensions = impliedExtensions true isServer) : cert.SignsCertificates := by
  unfold Certificate.SignsCertificates Certificate.values
  rw [h]
  refine ⟨?_, usages true, ?_, by decide⟩
  · cases isServer <;> decide
  · cases isServer <;> decide

theorem signsHandshakes_of {cert : Certificate} (isServer : Bool)
    (h : cert.tbs.extensions = impliedExtensions false isServer) :
    cert.SignsHandshakes (if isServer then oidServerAuth else oidClientAuth) := by
  unfold Certificate.SignsHandshakes Certificate.values
  rw [h]
  refine ⟨?_, ⟨usages false, ?_, by decide⟩, [if isServer then oidServerAuth else oidClientAuth],
    ?_, List.mem_singleton_self _⟩
  · cases isServer <;> decide
  · cases isServer <;> decide
  · cases isServer <;> decide

theorem names_of {cert : Certificate} {isCa : Bool}
    (h : cert.tbs.extensions = impliedExtensions isCa true) :
    cert.Names (0x82, brokerDns) ∧ cert.Names (0x87, brokerIp) := by
  unfold Certificate.Names Certificate.values
  rw [h]
  refine ⟨⟨[(0x82, brokerDns), (0x87, brokerIp)], ?_, by decide⟩,
    ⟨[(0x82, brokerDns), (0x87, brokerIp)], ?_, by decide⟩⟩
  · cases isCa <;> decide
  · cases isCa <;> decide

section Result

variable {Context : Type} {host : PkiHost Context} {env : VerifyEnv}

/-- Every certificate of the run is issued by the first one. -/
theorem issuedBy_root (hsigns : SignsFor host env) {pki : Pki} (hca : genKey host 0 = some pki.ca)
    {request : CertRequest} {tbsOctets rootOctets : List UInt8}
    {sig rootSig : Bytes Scheme.hawk512.sigSize}
    (hsig : (host.signing request.call).sign tbsOctets pki.ca.priv = some sig) :
    (request.certificate host tbsOctets sig).IssuedBy (firmwareVerify env)
      (pki.caRequest.certificate host rootOctets rootSig) where
  name := rfl
  algorithm := ⟨rfl, rfl⟩
  signature := hsigns 0 pki.ca request.call tbsOctets sig hca hsig

theorem validAt_of_inValidity {t : ℤ} (h : InValidity host t) {request : CertRequest}
    (hcall : request.call < 3) (tbsOctets : List UInt8) (sig : Bytes Scheme.hawk512.sigSize) :
    (request.certificate host tbsOctets sig).ValidAt t := h request.call hcall

/-- When the generator ends with status 0, its six files are read back as three key pairs with
their certificates.  The first certificate is an anchor, from which the certificate of the broker is
accepted for servers under its name and address, and that of the device for clients, as long as
all are valid; the firmware confirms the certificate of the broker, and all other files stay as
they were. -/
theorem generated_pki_is_accepted {argv : Option (List Char)} {files after : Directory}
    (h : main host argv files = .ok after) (hdir : (outdirOf argv).length ≤ 999)
    (hdated : ∀ call < 3, FourDigitYear (host.time call) ∧
      FourDigitYear (host.time call + validitySeconds))
    (hsigns : SignsFor host env) :
    (∃ root server client, Published host env (outdirOf argv) after root server client) ∧
      ∀ path, path ∉ fileNames.map (pathIn (outdirOf argv)) → after path = files path := by
  obtain ⟨pki, hmade, -, rfl⟩ := main_eq_ok_iff.mp h
  have hpaths : ((pki.texts (outdirOf argv)).map Prod.fst).Nodup := paths_nodup hdir
  have hfile {path text : List Char} (hmem : (path, text) ∈ pki.texts (outdirOf argv)) :
      created (pki.texts (outdirOf argv)) files path = some text := created_of_mem hpaths hmem
  have hzero : pki.caRequest.call < 3 := (by decide : 0 < 3)
  have hone : pki.serverRequest.call < 3 := (by decide : 1 < 3)
  have htwo : pki.clientRequest.call < 3 := (by decide : 2 < 3)
  obtain ⟨rootOctets, rootSig, hrootSig, hroot⟩ :=
    CertRequest.read_made hmade.caCert hzero (hdated 0 hzero)
  obtain ⟨serverOctets, serverSig, hserverSig, hserver⟩ :=
    CertRequest.read_made hmade.serverCert hone (hdated 1 hone)
  obtain ⟨clientOctets, clientSig, hclientSig, hclient⟩ :=
    CertRequest.read_made hmade.clientCert htwo (hdated 2 htwo)
  have hanchor : Anchor (firmwareVerify env)
      (pki.caRequest.certificate host rootOctets rootSig) :=
    ⟨issuedBy_root hsigns hmade.ca hrootSig, signsCertificates_of rfl⟩
  constructor
  · refine ⟨⟨pki.ca, pki.caRequest.certificate host rootOctets rootSig⟩,
      ⟨pki.server, pki.serverRequest.certificate host serverOctets serverSig⟩,
      ⟨pki.client, pki.clientRequest.certificate host clientOctets clientSig⟩, ?_⟩
    exact
      { rootFiles := ⟨(certificateFile_of_text (hfile (by simp [Pki.texts]))).trans hroot,
          keyFile_of_text (hfile (by simp [Pki.texts])), rfl⟩
        serverFiles := ⟨(certificateFile_of_text (hfile (by simp [Pki.texts]))).trans hserver,
          keyFile_of_text (hfile (by simp [Pki.texts])), rfl⟩
        clientFiles := ⟨(certificateFile_of_text (hfile (by simp [Pki.texts]))).trans hclient,
          keyFile_of_text (hfile (by simp [Pki.texts])), rfl⟩
        serials := rfl
        acceptsServer := fun t ht ↦ ⟨hanchor, validAt_of_inValidity ht hzero _ _,
          issuedBy_root hsigns hmade.ca hserverSig, validAt_of_inValidity ht hone _ _,
          signsHandshakes_of true rfl⟩
        acceptsClient := fun t ht ↦ ⟨hanchor, validAt_of_inValidity ht hzero _ _,
          issuedBy_root hsigns hmade.ca hclientSig, validAt_of_inValidity ht htwo _ _,
          signsHandshakes_of false rfl⟩
        broker := names_of rfl
        confirmed := fun codes hmalloc ↦ confirmSignature_of_accepts codes pki.ca.pub.property
          serverSig.property hmalloc (hsigns 0 pki.ca 1 serverOctets serverSig hmade.ca hserverSig) }
  · intro path hpath
    exact created_of_notMem hpath

/-! ## When the generator succeeds -/

/-- The shell makes the directory, there are three key pairs, and the first one signs. -/
def Generates (host : PkiHost Context) (outdir : List Char) : Prop :=
  host.system (mkdirCommand outdir) = 0 ∧
    ∃ ca server client, genKey host 0 = some ca ∧ genKey host 1 = some server ∧
      genKey host 2 = some client ∧
      ∀ request ∈ [CertRequest.mk 0 rootCn ca true false, ⟨1, brokerDns, server, false, true⟩,
        ⟨2, clientCn, client, false, false⟩], request.Signed host ca

theorem exists_made_iff {outdir : List Char} :
    (∃ pki : Pki, pki.Made host outdir) ↔ Generates host outdir := by
  have hca : rootCn.length ≤ 64 := by decide
  have hbroker : brokerDns.length ≤ 64 := by decide
  have hclient : clientCn.length ≤ 64 := by decide
  constructor
  · rintro ⟨pki, hmade⟩
    refine ⟨hmade.shell, pki.ca, pki.server, pki.client, hmade.ca, hmade.server, hmade.client, ?_⟩
    rw [List.forall_mem_cons, List.forall_mem_cons, List.forall_mem_singleton]
    exact ⟨(CertRequest.exists_made_iff hca).mp ⟨_, hmade.caCert⟩,
      (CertRequest.exists_made_iff hbroker).mp ⟨_, hmade.serverCert⟩,
      (CertRequest.exists_made_iff hclient).mp ⟨_, hmade.clientCert⟩⟩
  · rintro ⟨hshell, ca, server, client, hcaKey, hserverKey, hclientKey, hsigned⟩
    rw [List.forall_mem_cons, List.forall_mem_cons, List.forall_mem_singleton] at hsigned
    obtain ⟨caCert, hcaCert⟩ := (CertRequest.exists_made_iff hca).mpr hsigned.1
    obtain ⟨serverCert, hserverCert⟩ := (CertRequest.exists_made_iff hbroker).mpr hsigned.2.1
    obtain ⟨clientCert, hclientCert⟩ := (CertRequest.exists_made_iff hclient).mpr hsigned.2.2
    exact ⟨⟨ca, server, client, caCert, serverCert, clientCert⟩,
      ⟨hshell, hcaKey, hserverKey, hclientKey, hcaCert, hserverCert, hclientCert⟩⟩

theorem exists_main_iff {argv : Option (List Char)} {files : Directory} :
    (∃ after, main host argv files = .ok after) ↔ Generates host (outdirOf argv) ∧
      ∀ name ∈ fileNames, host.fopen (pathIn (outdirOf argv) name) = true := by
  rw [← exists_made_iff]
  constructor
  · rintro ⟨after, hafter⟩
    obtain ⟨pki, hmade, hopens, -⟩ := main_eq_ok_iff.mp hafter
    exact ⟨⟨pki, hmade⟩, hopens⟩
  · rintro ⟨⟨pki, hmade⟩, hopens⟩
    exact ⟨_, main_eq_ok_iff.mpr ⟨pki, hmade, hopens, rfl⟩⟩

/-- Only the world outside stops the generator: no buffer is ever too small for it.  Where it
stops, every file is as it was, or one of the six with its whole text. -/
theorem generator_stops_cleanly (host : PkiHost Context) (argv : Option (List Char))
    (files : Directory) :
    ((∃ after, main host argv files = .ok after) ↔ Generates host (outdirOf argv) ∧
      ∀ name ∈ fileNames, host.fopen (pathIn (outdirOf argv) name) = true) ∧
    ∀ left, main host argv files = .error left → ∀ path, left path = files path ∨
      ∃ pki : Pki, pki.Made host (outdirOf argv) ∧ ∃ text,
        (path, text) ∈ pki.texts (outdirOf argv) ∧ left path = some text := by
  refine ⟨exists_main_iff, ?_⟩
  intro left hleft path
  unfold main at hleft
  cases hpki : makePki host (outdirOf argv) with
  | none =>
    rw [hpki] at hleft
    exact Or.inl (congrFun (Except.error.inj hleft).symm path)
  | some pki =>
    rw [hpki, orDie_some_bind, writePki_eq] at hleft
    rcases whole_of_createAll hleft path with hsame | hwhole
    · exact Or.inl hsame
    · exact Or.inr ⟨pki, makePki_eq_some_iff.mp hpki, hwhole⟩

end Result

/-! ## A run -/

/-- Three key pairs, the signatures of `sampleHawkApi`, and a directory that can be written. -/
def sampleHost : PkiHost ℕ where
  system := fun _ ↦ 0
  keygenMalloc := fun _ ↦ true
  hawkKeygen := fun n ↦ some ⟨⟨List.replicate 184 (UInt8.ofNat n), List.length_replicate⟩,
    ⟨List.replicate 1024 (UInt8.ofNat (n + 7)), List.length_replicate⟩⟩
  time := fun n ↦ 1758240000 + n
  signing := fun _ ↦ sampleHawkApi
  fopen := fun _ ↦ true

/-- Accepts the signatures of `sampleHawkApi`. -/
def sampleVerifier : VerifyEnv where
  hawkVerifyFinish := fun sig msg _ ↦
    if sig = List.replicate 555 (UInt8.ofNat
      (msg.foldl (fun sum octet ↦ sum + octet.toNat) 0 + 184)) then 1 else 0
  mayoCryptoSignVerify := fun _ _ _ ↦ 1
  snovaCryptoSignOpen := fun _ _ _ ↦ ⟨1, [], 0⟩
  malloc := fun _ ↦ true

theorem signsFor_sample : SignsFor sampleHost sampleVerifier := by
  intro n kp call octets sig _ hsig
  have hlength : kp.priv.val.length = 184 := kp.priv.property
  obtain rfl := Option.some.inj hsig
  change decide (sampleVerifier.hawkVerifyFinish _ octets kp.pub.val ≠ 0) = true
  apply decide_eq_true
  change (if _ then (1 : ℤ) else 0) ≠ 0
  rw [if_pos]
  · decide
  · rw [← hlength]
    rfl

theorem exists_sample_run : ∃ after, main sampleHost none (fun _ ↦ none) = .ok after := by
  have hsigned (request : CertRequest) (ca : HawkKeypair) : request.Signed sampleHost ca :=
    ⟨rfl, _, rfl⟩
  apply exists_main_iff.mpr
  exact ⟨⟨rfl, _, _, _, rfl, rfl, rfl, fun request _ ↦ hsigned request _⟩, fun _ _ ↦ rfl⟩

theorem sample_pki_is_accepted :
    ∃ after, main sampleHost none (fun _ ↦ none) = .ok after ∧
      ((∃ root server client,
        Published sampleHost sampleVerifier (outdirOf none) after root server client) ∧
      ∀ path, path ∉ fileNames.map (pathIn (outdirOf none)) → after path = none) := by
  obtain ⟨after, hafter⟩ := exists_sample_run
  have hdated : ∀ call < 3, FourDigitYear (sampleHost.time call) ∧
      FourDigitYear (sampleHost.time call + validitySeconds) := by
    unfold FourDigitYear
    decide +kernel
  exact ⟨after, hafter, generated_pki_is_accepted hafter (by decide) hdated signsFor_sample⟩

end PqMqtt.Signature
