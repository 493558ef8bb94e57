import PqMqtt.Analysis.SerialLog

/-!
# The RESULT rows of the primitive benchmarks

`benchmark_main.c` prints one row for signing and one for verifying, `snova_verify_main.c` one for
verifying.  The labels of a row are strings that the build chooses, and none is quoted.
`CRYPTO_ALGNAME` comes from a header of SNOVA and the decimal conversions of doubles from the
SDK; of both it is only known that they have printable characters, no commas and no quotes.
-/

namespace PqMqtt.Analysis

open Delimited

/-! ## Labels -/

/-- The characters of a label: those of a field and the space. -/
def LabelChar (c : Char) : Prop :=
  0x20 ≤ c.toNat ∧ c.toNat ≤ 0x7e ∧ c ≠ ',' ∧ c ≠ quotechar

instance (c : Char) : Decidable (LabelChar c) := inferInstanceAs (Decidable (_ ∧ _))

theorem Plain.labelChar {c : Char} (h : Plain c) : LabelChar c := by
  obtain ⟨hlow, hhigh, hcomma, hquote⟩ := h
  exact ⟨by omega, hhigh, hcomma, hquote⟩

/-- A text that is read back as one field, without quotes. -/
structure Label (text : Text) : Prop where
  labelChar : ∀ c ∈ text, LabelChar c
  length_le : text.length ≤ fieldSizeLimit

theorem PlainField.label {text : Text} (h : PlainField text) : Label text :=
  ⟨fun c hc ↦ (h.plain c hc).labelChar, h.length_le⟩

instance (text : Text) : Decidable (Label text) :=
  decidable_of_iff (text.Forall LabelChar ∧ text.length ≤ fieldSizeLimit)
    ⟨fun h ↦ ⟨List.forall_iff_forall_mem.mp h.1, h.2⟩,
      fun h ↦ ⟨List.forall_iff_forall_mem.mpr h.labelChar, h.length_le⟩⟩

namespace Label

variable {text : Text}

theorem notMem_comma (h : Label text) : ',' ∉ text := by
  intro hc
  obtain ⟨-, -, hcomma, -⟩ := h.labelChar _ hc
  exact hcomma rfl

theorem notMem_quotechar (h : Label text) : quotechar ∉ text := by
  intro hc
  obtain ⟨-, -, -, hquote⟩ := h.labelChar _ hc
  exact hquote rfl

end Label

/-! ## Builds -/

/-- What a row is printed by: `benchmark_main.c` with one of the adapters, for SNOVA with the
reference or the optimized code, or `snova_verify_main.c`, without and with
`STATIC_EXPANDED_PK_HEADER`. -/
inductive Build where
  | rsa2048
  | ecdsaP256
  | mldsa44
  | falcon512
  | hawk512
  | mayo1
  | snovaReference
  | snovaOptimized
  | snovaVerify
  | snovaVerifyExpanded
deriving DecidableEq

namespace Build

/-- `scheme_name()` and `SNOVA_DISPLAY_NAME` -/
def schemeName : Build → String
  | rsa2048 => "RSA-2048 PKCS#1 v1.5 SHA-256"
  | ecdsaP256 => "ECDSA P-256 SHA-256"
  | mldsa44 => "ML-DSA-44"
  | falcon512 => "Falcon-512"
  | hawk512 => "HAWK-512"
  | mayo1 => "MAYO-1"
  | snovaReference | snovaOptimized | snovaVerify | snovaVerifyExpanded => "SNOVA-24-5-16-4"

/-- `scheme_parameter_set()` and `CRYPTO_ALGNAME` -/
def schemeParameterSet (cryptoAlgname : Text) : Build → Text
  | rsa2048 => "RSA-2048-SHA-256".toList
  | ecdsaP256 => "ECDSA-P256-SHA-256".toList
  | mldsa44 => "ML-DSA-44".toList
  | falcon512 => "Falcon-512".toList
  | hawk512 => "HAWK-512".toList
  | mayo1 => "MAYO-1".toList
  | snovaReference | snovaOptimized | snovaVerify | snovaVerifyExpanded => cryptoAlgname

/-- `scheme_implementation()` and `SNOVA_VERIFY_IMPLEMENTATION` -/
def schemeImplementation : Build → String
  | rsa2048 | ecdsaP256 => "wolfSSL 5.9.1"
  | mldsa44 | falcon512 => "PQClean clean"
  | hawk512 => "HAWK reference portable C"
  | mayo1 => "MAYO-M4 memory-reduced reference C"
  | snovaReference => "SNOVA 2.3 portable reference C (SHAKE)"
  | snovaOptimized | snovaVerify => "SNOVA 2.3 optimized portable C (SHAKE)"
  | snovaVerifyExpanded => "SNOVA 2.3 core verify, host-expanded public key"

/-- `scheme_status()`, and the status of the verify-only programs. -/
def schemeStatus : Build → String
  | rsa2048 | ecdsaP256 => "classical"
  | mldsa44 => "FIPS 204"
  | falcon512 => "Selected for FN-DSA / FIPS 206 in development"
  | hawk512 | mayo1 | snovaReference | snovaOptimized => "NIST additional signatures Round 3"
  | snovaVerify | snovaVerifyExpanded => "verify-only on Pico W"

/-- The build links `snova_verify_main.c`. -/
def verifyOnly : Build → Bool
  | snovaVerify | snovaVerifyExpanded => true
  | _ => false

theorem schemeName_label (build : Build) : Label build.schemeName.toList := by
  cases build <;> decide

theorem schemeParameterSet_label {cryptoAlgname : Text} (h : Label cryptoAlgname)
    (build : Build) : Label (build.schemeParameterSet cryptoAlgname) := by
  cases build with
  | rsa2048 => exact (by decide : Label "RSA-2048-SHA-256".toList)
  | ecdsaP256 => exact (by decide : Label "ECDSA-P256-SHA-256".toList)
  | mldsa44 => exact (by decide : Label "ML-DSA-44".toList)
  | falcon512 => exact (by decide : Label "Falcon-512".toList)
  | hawk512 => exact (by decide : Label "HAWK-512".toList)
  | mayo1 => exact (by decide : Label "MAYO-1".toList)
  | snovaReference | snovaOptimized | snovaVerify | snovaVerifyExpanded => exact h

theorem schemeStatus_label (build : Build) : Label build.schemeStatus.toList := by
  cases build <;> decide

/-- The pieces of the implementation label between its commas. -/
def implementationPieces (build : Build) : List Text :=
  build.schemeImplementation.toList.splitOn ','

theorem implementationPieces_label (build : Build) :
    ∀ piece ∈ build.implementationPieces, Label piece := by
  cases build <;> decide

/-- The label of the expanded-key program is the only one with a comma. -/
theorem implementationPieces_of_ne {build : Build} (h : build ≠ snovaVerifyExpanded) :
    build.implementationPieces = [build.schemeImplementation.toList] := by
  cases build
  case snovaVerifyExpanded => exact absurd rfl h
  all_goals decide

theorem length_implementationPieces_expanded :
    snovaVerifyExpanded.implementationPieces.length = 2 := by decide

end Build

/-! ## Rows -/

/-- The conversions `%.4f`, `%.0f` and `%.2f`, by their number of decimals. -/
inductive Conversion where
  | f4
  | f0
  | f2
deriving DecidableEq

/-- A program for a board, with what it takes from SNOVA and from the SDK. -/
structure Firmware where
  build : Build
  board : Board
  cryptoAlgname : Text
  cryptoAlgname_label : Label cryptoAlgname
  printf : Conversion → Binary64.Double → Text
  printf_label : ∀ conversion value, Label (printf conversion value)

inductive Operation where
  | sign
  | verify
deriving DecidableEq

def Operation.name : Operation → String
  | sign => "sign"
  | verify => "verify"

/-- `bench_stats_t` -/
structure BenchStats where
  n : UInt32
  meanMs : Binary64.Double
  stdMs : Binary64.Double
  minMs : Binary64.Double
  maxMs : Binary64.Double
  medianMs : Binary64.Double
  meanCyc : Binary64.Double
  medianCyc : Binary64.Double
  opsPerS : Binary64.Double

/-- A completed benchmark. -/
structure ResultRow where
  firmware : Firmware
  operation : Operation
  verify_of_verifyOnly : firmware.build.verifyOnly = true → operation = .verify
  clkHz : UInt32
  msgLen : UInt32
  pkBytes : UInt32
  skBytes : UInt32
  sigBytes : UInt32
  stats : BenchStats

namespace ResultRow

/-- The values after the implementation label. -/
def valuesAfter (row : ResultRow) : List Text :=
  let stats := row.stats
  [row.firmware.build.schemeStatus.toList, row.firmware.board.name, formatU row.clkHz.toNat,
    formatU row.msgLen.toNat, formatU row.pkBytes.toNat, formatU row.skBytes.toNat,
    formatU row.sigBytes.toNat, row.operation.name.toList, formatU stats.n.toNat,
    row.firmware.printf .f4 stats.meanMs, row.firmware.printf .f4 stats.stdMs,
    row.firmware.printf .f4 stats.minMs, row.firmware.printf .f4 stats.maxMs,
    row.firmware.printf .f4 stats.medianMs, row.firmware.printf .f0 stats.meanCyc,
    row.firmware.printf .f0 stats.medianCyc, row.firmware.printf .f2 stats.opsPerS]

/-- The twenty printed values. -/
def values (row : ResultRow) : List Text :=
  row.firmware.build.schemeName.toList ::
  row.firmware.build.schemeParameterSet row.firmware.cryptoAlgname ::
  row.firmware.build.schemeImplementation.toList :: row.valuesAfter

/-- The line of the row, without its line break. -/
def line (row : ResultRow) : Text := [','].intercalate ("RESULT".toList :: row.values)

/-- The line of the row cut at every comma. -/
def pieces (row : ResultRow) : List Text :=
  "RESULT".toList :: row.firmware.build.schemeName.toList ::
  row.firmware.build.schemeParameterSet row.firmware.cryptoAlgname ::
  (row.firmware.build.implementationPieces ++ row.valuesAfter)

theorem formatU_label (n : UInt32) : Label (formatU n.toNat) :=
  (formatU_plain (n.toNat_lt.trans (by decide))).label

theorem valuesAfter_label (row : ResultRow) : ∀ value ∈ row.valuesAfter, Label value := by
  have hstatus := row.firmware.build.schemeStatus_label
  have hboard : Label row.firmware.board.name := row.firmware.board.name_plain.label
  have hoperation : Label row.operation.name.toList := by
    cases row.operation <;> decide
  have hprintf := row.firmware.printf_label
  simp only [valuesAfter, List.forall_mem_cons, List.not_mem_nil, false_implies, implies_true]
  exact ⟨hstatus, hboard, formatU_label _, formatU_label _, formatU_label _, formatU_label _,
    formatU_label _, hoperation, formatU_label _, hprintf _ _, hprintf _ _, hprintf _ _,
    hprintf _ _, hprintf _ _, hprintf _ _, hprintf _ _, hprintf _ _, trivial⟩

theorem pieces_label (row : ResultRow) : ∀ piece ∈ row.pieces, Label piece := by
  have hresult : Label "RESULT".toList := by decide
  have hparameters :=
    row.firmware.build.schemeParameterSet_label row.firmware.cryptoAlgname_label
  have hrest : ∀ piece ∈ row.firmware.build.implementationPieces ++ row.valuesAfter,
      Label piece := by
    intro piece hpiece
    rcases List.mem_append.mp hpiece with himplementation | hafter
    · exact row.firmware.build.implementationPieces_label piece himplementation
    · exact row.valuesAfter_label piece hafter
  rw [pieces, List.forall_mem_cons, List.forall_mem_cons, List.forall_mem_cons]
  exact ⟨hresult, row.firmware.build.schemeName_label, hparameters, hrest⟩

/-- Cutting at the commas takes no character away. -/
theorem intercalate_pieces (row : ResultRow) : [','].intercalate row.pieces = row.line := by
  have hafter : row.valuesAfter ≠ [] := by simp [valuesAfter]
  have himplementation : [','].intercalate (row.firmware.build.implementationPieces
        ++ row.valuesAfter)
      = row.firmware.build.schemeImplementation.toList ++ ',' ::
        [','].intercalate row.valuesAfter := by
    rw [Build.implementationPieces, intercalate_append ',' (List.splitOn_ne_nil _ _) hafter,
      List.intercalate_splitOn]
  rw [line, pieces, values, intercalate_cons _ _ (by simp), intercalate_cons _ _ (by simp),
    intercalate_cons _ _ (by simp [hafter]), himplementation, intercalate_cons _ _ (by simp),
    intercalate_cons _ _ (by simp), intercalate_cons _ _ (by simp), intercalate_cons _ _ hafter]

theorem length_valuesAfter (row : ResultRow) : row.valuesAfter.length = 17 := rfl

theorem length_pieces (row : ResultRow) :
    row.pieces.length = 20 + row.firmware.build.implementationPieces.length := by
  rw [pieces, List.length_cons, List.length_cons, List.length_cons, List.length_append,
    length_valuesAfter]
  omega

theorem pieces_of_ne {row : ResultRow} (h : row.firmware.build ≠ .snovaVerifyExpanded) :
    row.pieces = "RESULT".toList :: row.values := by
  rw [pieces, Build.implementationPieces_of_ne h]
  rfl

/-- A line has printable characters only. -/
theorem mem_line (row : ResultRow) : ∀ c ∈ row.line, 0x20 ≤ c.toNat ∧ c.toNat ≤ 0x7e := by
  rw [← row.intercalate_pieces]
  intro c hc
  rcases mem_intercalate ',' hc with ⟨piece, hpiece, hmem⟩ | rfl
  · obtain ⟨hlow, hhigh, -, -⟩ := (row.pieces_label piece hpiece).labelChar c hmem
    exact ⟨hlow, hhigh⟩
  · decide

end ResultRow

end PqMqtt.Analysis
