import PqMqtt.Analysis.PrimitiveRows
import PqMqtt.Foundation.Transcript
import PqMqtt.Statistics.BoardStatistics

/-!
# The benchmark of a signature scheme

`benchmark_main.c` with `bench.c`: the image signs one message again and again, makes one more
signature, verifies that again and again, and prints a RESULT row for each operation.  It stops at
the first call of the scheme that fails.  The world answers every call.
-/

namespace PqMqtt.Firmware

open Analysis Binary64 Statistics

/-! ## Lines -/

/-- Text that fits into a line of the serial log. -/
structure Printable where
  text : Text
  printable : ∀ c ∈ text, 0x20 ≤ c.toNat ∧ c.toNat ≤ 0x7e

namespace Printable

instance : Append Printable where
  append first second := ⟨first.text ++ second.text, by
    rw [List.forall_mem_append]
    exact ⟨first.printable, second.printable⟩⟩

def ofLabel (text : Text) (h : Label text) : Printable :=
  ⟨text, fun c hc ↦ ⟨(h.labelChar c hc).1, (h.labelChar c hc).2.1⟩⟩

def lit (text : String)
    (h : text.toList.Forall fun c ↦ 0x20 ≤ c.toNat ∧ c.toNat ≤ 0x7e) : Printable :=
  ⟨text.toList, List.forall_iff_forall_mem.mp h⟩

/-- `%u` -/
def u (n : UInt32) : Printable := ofLabel (formatU n.toNat) (ResultRow.formatU_label n)

/-- `%d` -/
def d (n : ℤ) : Printable where
  text := formatD n
  printable := by
    have hdigits : ∀ c ∈ formatU n.natAbs, 0x20 ≤ c.toNat ∧ c.toNat ≤ 0x7e := by
      intro c hc
      have hlabel := (isDigit_plain (formatU_isDigit _ c hc)).labelChar
      exact ⟨hlabel.1, hlabel.2.1⟩
    unfold formatD
    split_ifs
    · rw [List.forall_mem_cons]
      exact ⟨by decide, hdigits⟩
    · exact hdigits

/-- The texts with a separator between them. -/
def intercalate (separator : Printable) : List Printable → Printable
  | [] => ⟨[], List.forall_mem_nil _⟩
  | [text] => text
  | text :: texts => text ++ separator ++ intercalate separator texts

end Printable

/-- A line that is no RESULT row, from its first character on. -/
def otherLine (first : Char) (h : (0x20 ≤ first.toNat ∧ first.toNat ≤ 0x7e) ∧ first ≠ 'R')
    (rest : Printable) : SerialLine :=
  .other ⟨first :: rest.text, by
    rw [List.forall_mem_cons]
    exact ⟨isLineBoundary_of_printable h.1, fun c hc ↦
      isLineBoundary_of_printable (rest.printable c hc)⟩, by
    intro hprefix
    obtain ⟨_, htext⟩ := hprefix
    exact h.2 (List.cons.inj htext).1.symm⟩

def emptyLine : SerialLine := .other ⟨[], List.forall_mem_nil _, by decide⟩

/-! ## Calls -/

/-- The calls of the image into the SDK, the scheme and the memory monitor. -/
inductive BenchCall where
  | stdioInitAll
  | stdioUsbConnected
  | sleepMs (ms : ℕ)
  | benchInit
  | schemeInit
  | benchClkHz
  | benchCycles
  | benchUs
  | schemeDoSign (msg : List UInt8)
  | schemeDoVerify (sig : List UInt8) (sigLen : UInt32) (msg : List UInt8)
  | runtimeMemoryBegin
  | runtimeMemorySetStage (stage : MemoryStage)
  | runtimeMemoryEnd
  | print (line : SerialLine)

/-- The value that a call returns, and for `scheme_do_sign` what it leaves in its buffer and in
`siglen`. -/
structure BenchAnswer where
  rc : ℤ
  connected : Bool
  hz : UInt32
  counter : UInt64
  sig : List UInt8
  sigLen : UInt32
  memory : MemoryResult

abbrev BenchProgram := Interaction BenchCall BenchAnswer

def call (question : BenchCall) : BenchProgram BenchAnswer := .ask question .finish

def printLine (line : SerialLine) : BenchProgram Unit := do
  let _ ← call (.print line)

def printLines : List SerialLine → BenchProgram Unit
  | [] => pure ()
  | line :: lines => do
    printLine line
    printLines lines

/-! ## bench.c -/

/-- `BENCH_MAX_ITERS` -/
def benchMaxIters : ℕ := 256

/-- `bench_stats_t`, with the fields that no RESULT row has. -/
structure BenchResult extends BenchStats where
  stdCyc : Double
  minCyc : Double
  maxCyc : Double

/-- The median of `bench_run`, from the sorted values. -/
def boardMedian (sorted : List Double) : Double :=
  let iters := sorted.length
  if iters % 2 = 1 then boardItem sorted (iters / 2)
  else (Double.fin (1 / 2)).mul ((boardItem sorted (iters / 2 - 1)).add (boardItem sorted (iters / 2)))

/-- `bench_run` after its calls. -/
def benchStats (sqrt : Double → Double) (ms cyc : List Double) : BenchResult :=
  let iters := ms.length
  let msLoop := boardLoop ms (boardItem ms 0)
  let cycLoop := boardLoop cyc (boardItem cyc 0)
  let meanMs := msLoop.1.div (ofRat iters)
  let meanCyc := cycLoop.1.div (ofRat iters)
  let denom : Double := if 1 < iters then ofRat (iters - 1 : ℕ) else .fin 1
  { n := iters.toUInt32
    meanMs := meanMs
    stdMs := sqrt ((boardVariance ms meanMs).div denom)
    minMs := msLoop.2.1
    maxMs := msLoop.2.2
    medianMs := boardMedian (boardSort ms)
    meanCyc := meanCyc
    stdCyc := sqrt ((boardVariance cyc meanCyc).div denom)
    minCyc := cycLoop.2.1
    maxCyc := cycLoop.2.2
    medianCyc := boardMedian (boardSort cyc)
    opsPerS := if (Double.fin 0).lt meanMs then (ofRat (1000 : ℕ)).div meanMs else .fin 0 }

/-- `g_sig` and `g_siglen` -/
structure Globals where
  sig : List UInt8
  sigLen : UInt32

/-- A `bench_fn_t`: its call and what that does to the globals. -/
structure BenchFn where
  question : Globals → BenchCall
  after : BenchAnswer → Globals → Globals

/-- The answers around one measured call. -/
structure Sample where
  startCycles : BenchAnswer
  startUs : BenchAnswer
  called : BenchAnswer
  endUs : BenchAnswer
  endCycles : BenchAnswer

/-- `(double)(u1 - u0) / 1000.0` -/
def Sample.ms (sample : Sample) : Double :=
  (ofRat (sample.endUs.counter - sample.startUs.counter).toNat).div (ofRat (1000 : ℕ))

/-- `(double)(c1 - c0)` -/
def Sample.cyc (sample : Sample) : Double :=
  ofRat (sample.endCycles.counter - sample.startCycles.counter).toNat

section Bench

variable (sqrt : Double → Double) (fn : BenchFn)

def warmupRound (globals : Globals) : BenchProgram (Except ℤ BenchAnswer × Globals) := do
  let answer ← call (fn.question globals)
  if answer.rc ≠ 0 then pure (.error answer.rc, fn.after answer globals)
  else pure (.ok answer, fn.after answer globals)

def measuredRound (globals : Globals) : BenchProgram (Except ℤ Sample × Globals) := do
  let startCycles ← call .benchCycles
  let startUs ← call .benchUs
  let answer ← call (fn.question globals)
  let endUs ← call .benchUs
  let endCycles ← call .benchCycles
  if answer.rc ≠ 0 then pure (.error answer.rc, fn.after answer globals)
  else pure (.ok ⟨startCycles, startUs, answer, endUs, endCycles⟩, fn.after answer globals)

/-- `bench_run` -/
def benchRun (iters warmup : ℕ) (globals : Globals) :
    BenchProgram (Except ℤ BenchResult × Globals) :=
  if iters = 0 then pure (.error (-1), globals)
  else do
    match ← Interaction.rounds (warmupRound fn) warmup globals with
    | (.error rc, globals) => pure (.error rc, globals)
    | (.ok _, globals) =>
      match ← Interaction.rounds (measuredRound fn) (min iters benchMaxIters) globals with
      | (.error rc, globals) => pure (.error rc, globals)
      | (.ok samples, globals) =>
        pure (.ok (benchStats sqrt (samples.map Sample.ms) (samples.map Sample.cyc)), globals)

end Bench

/-! ## benchmark_main.c -/

/-- What the image is built with. -/
structure BenchImage where
  firmware : Analysis.Firmware
  /-- Only `snova_verify_main.c` builds the programs that sign nothing. -/
  signs : firmware.build.verifyOnly = false
  sqrt : Double → Double
  benchIters : ℕ
  benchWarmup : ℕ
  msgLen : ℕ
  sigBuf : ℕ
  nistLevel : UInt32
  pkBytes : UInt32
  skBytes : UInt32
  sigMaxBytes : UInt32

namespace BenchImage

variable (image : BenchImage)

/-- `g_msg` -/
def msg : List UInt8 := (List.range image.msgLen).map fun i ↦ i.toUInt8

def schemeName : Printable := .ofLabel _ image.firmware.build.schemeName_label

def boardName : Printable := .ofLabel _ image.firmware.board.name_plain.label

def schemeImplementation : Printable where
  text := image.firmware.build.schemeImplementation.toList
  printable := by
    have hforall : image.firmware.build.schemeImplementation.toList.Forall fun c ↦
        0x20 ≤ c.toNat ∧ c.toNat ≤ 0x7e := by
      cases image.firmware.build <;> decide
    exact List.forall_iff_forall_mem.mp hforall

/-- A double as `printf` prints it. -/
def float (conversion : Conversion) (value : Double) : Printable :=
  .ofLabel _ (image.firmware.printf_label conversion value)

def ruler (c : Char) (h : (0x20 ≤ c.toNat ∧ c.toNat ≤ 0x7e) ∧ c ≠ 'R') : SerialLine :=
  otherLine c h ⟨List.replicate 49 c, fun _ hc ↦ List.eq_of_mem_replicate hc ▸ h.1⟩

/-- The lines before the benchmark. -/
def header (hz : UInt32) : List SerialLine :=
  [emptyLine, ruler '=' (by decide),
    otherLine ' ' (by decide) (.lit "PQC signature benchmark : " (by decide) ++ image.schemeName),
    ruler '-' (by decide),
    otherLine ' ' (by decide) (.lit "clk_sys    : " (by decide) ++
      image.float .f2 ((ofRat hz.toNat).div (ofRat (1000000 : ℕ))) ++ .lit " MHz" (by decide)),
    otherLine ' ' (by decide) (.lit "board      : " (by decide) ++ image.boardName),
    otherLine ' ' (by decide) (.lit "impl       : " (by decide) ++ image.schemeImplementation),
    otherLine ' ' (by decide) (.lit "params     : " (by decide) ++ .ofLabel _
      (image.firmware.build.schemeParameterSet_label image.firmware.cryptoAlgname_label)),
    otherLine ' ' (by decide) (.lit "status     : " (by decide) ++
      .ofLabel _ image.firmware.build.schemeStatus_label),
    otherLine ' ' (by decide) (.lit "NIST level : " (by decide) ++ .u image.nistLevel),
    otherLine ' ' (by decide) (.lit "pk bytes   : " (by decide) ++ .u image.pkBytes),
    otherLine ' ' (by decide) (.lit "sk bytes   : " (by decide) ++ .u image.skBytes),
    otherLine ' ' (by decide) (.lit "sig max B  : " (by decide) ++ .u image.sigMaxBytes),
    otherLine ' ' (by decide) (.lit "msg bytes  : " (by decide) ++ .u image.msgLen.toUInt32),
    otherLine ' ' (by decide) (.lit "iters      : " (by decide) ++ .d image.benchIters ++
      .lit " (warmup " (by decide) ++ .d image.benchWarmup ++ .lit ")" (by decide)),
    ruler '=' (by decide),
    otherLine 'C' (by decide) (.lit "SV_HEADER,scheme,params,impl,status,board,clock_hz,msg_bytes,"
      (by decide) ++ .lit "pk_bytes,sk_bytes,sig_bytes,operation,n,mean_ms,std_ms,min_ms,"
      (by decide) ++ .lit "max_ms,median_ms,mean_cycles,median_cycles,ops_per_s" (by decide)),
    otherLine 'M' (by decide) (.lit "EMORY_HEADER,scheme,board,operation,heap_capacity_bytes,"
      (by decide) ++ .lit "heap_in_use_before_bytes,heap_peak_in_use_bytes,heap_peak_delta_bytes,"
      (by decide) ++ .lit "heap_in_use_after_bytes,free_before_bytes,min_free_bytes,"
      (by decide) ++ .lit "free_after_bytes,maximum_allocation_request_bytes,allocation_calls,"
      (by decide) ++ .lit "free_calls,failed_allocations,stack_capacity_bytes,"
      (by decide) ++ .lit "stack_high_water_bytes,stack_unused_bytes,stack_guard_corrupted,"
      (by decide) ++ .lit "alloc_failed,alloc_failure_stage,alloc_failure_bytes" (by decide))]

def operationName : Operation → Printable
  | .sign => .lit "sign" (by decide)
  | .verify => .lit "verify" (by decide)

def comma : Printable := .lit "," (by decide)

def flag (b : Bool) : Printable := .u (if b then 1 else 0)

def stageName (stage : MemoryStage) : Printable := .ofLabel _ stage.name_plain.label

/-- `print_memory_result` -/
def memoryLine (operation : Operation) (m : MemoryResult) : SerialLine :=
  otherLine 'M' (by decide) (.intercalate comma [.lit "EMORY" (by decide), image.schemeName,
    image.boardName, operationName operation, .u m.heapCapacityBytes, .u m.heapInUseBeforeBytes,
    .u m.heapPeakInUseBytes, .u m.heapPeakDeltaBytes, .u m.heapInUseAfterBytes, .u m.freeBeforeBytes,
    .u m.minFreeBytes, .u m.freeAfterBytes, .u m.maximumAllocationRequestBytes, .u m.allocationCalls,
    .u m.freeCalls, .u m.failedAllocations, .u m.stackCapacityBytes, .u m.stackHighWaterBytes,
    .u m.stackUnusedBytes, flag m.stackGuardCorrupted, flag m.allocationFailed,
    stageName m.allocationFailureStage, .u m.allocationFailureBytes])

def memoryStartLine (operation : Operation) : SerialLine :=
  otherLine 'M' (by decide) (.intercalate comma [.lit "EMORY_START" (by decide), image.schemeName,
    image.boardName, operationName operation])

/-- The label of `bench_print` in a field of seven characters. -/
def paddedName : Operation → Printable
  | .sign => .lit "sign   " (by decide)
  | .verify => .lit "verify " (by decide)

/-- `bench_print` -/
def benchPrint (operation : Operation) (s : BenchResult) : List SerialLine :=
  [otherLine ' ' (by decide) (.lit " " (by decide) ++ paddedName operation ++
      .lit " n=" (by decide) ++ .u s.n),
    otherLine ' ' (by decide) (.lit "   time  : mean " (by decide) ++ image.float .f4 s.meanMs ++
      .lit " ms  std " (by decide) ++ image.float .f4 s.stdMs ++ .lit "  min " (by decide) ++
      image.float .f4 s.minMs ++ .lit "  max " (by decide) ++ image.float .f4 s.maxMs ++
      .lit "  median " (by decide) ++ image.float .f4 s.medianMs),
    otherLine ' ' (by decide) (.lit "   cycles: mean " (by decide) ++ image.float .f0 s.meanCyc ++
      .lit "     std " (by decide) ++ image.float .f0 s.stdCyc ++ .lit "      min " (by decide) ++
      image.float .f0 s.minCyc ++ .lit "      max " (by decide) ++ image.float .f0 s.maxCyc ++
      .lit "      median " (by decide) ++ image.float .f0 s.medianCyc),
    otherLine ' ' (by decide) (.lit "   throughput: " (by decide) ++ image.float .f2 s.opsPerS ++
      .lit " ops/s" (by decide)),
    otherLine ' ' (by decide) (.lit "   " (by decide) ++ .intercalate comma [.lit "CSV" (by decide),
      operationName operation, .u s.n, image.float .f4 s.meanMs, image.float .f4 s.stdMs,
      image.float .f4 s.minMs, image.float .f4 s.maxMs, image.float .f4 s.medianMs,
      image.float .f0 s.meanCyc, image.float .f0 s.medianCyc, image.float .f2 s.opsPerS])]

/-- The RESULT row of an operation. -/
def resultRow (operation : Operation) (s : BenchResult) (hz sigLen : UInt32) : ResultRow where
  firmware := image.firmware
  operation := operation
  verify_of_verifyOnly h := absurd (image.signs.symm.trans h) Bool.false_ne_true
  clkHz := hz
  msgLen := image.msgLen.toUInt32
  pkBytes := image.pkBytes
  skBytes := image.skBytes
  sigBytes := sigLen
  stats := s.toBenchStats

def errorLine : Operation → ℤ → SerialLine
  | .sign, rc => otherLine 'E' (by decide)
      (.lit "RROR: signing failed, implementation return code=" (by decide) ++ .d rc)
  | .verify, rc => otherLine 'E' (by decide)
      (.lit "RROR: verification failed, implementation return code=" (by decide) ++ .d rc)

def sanityLine (ok bad : ℤ) : SerialLine :=
  otherLine ' ' (by decide) (.lit "sanity: valid=" (by decide) ++ .d ok ++
    .lit " (expect 0), tampered=" (by decide) ++ .d bad ++
    .lit " (expect nonzero) -> " (by decide) ++
    (if ok = 0 ∧ bad ≠ 0 then .lit "PASS" (by decide) else .lit "FAIL" (by decide)))

def doneLine : SerialLine :=
  otherLine '=' (by decide) (.lit "== DONE: " (by decide) ++ image.schemeName ++
    .lit " ===" (by decide))

/-- `sign_iter` -/
def signIter : BenchFn where
  question _ := .schemeDoSign image.msg
  after answer _ := ⟨answer.sig, answer.sigLen⟩

/-- `verify_iter` -/
def verifyIter : BenchFn where
  question globals := .schemeDoVerify globals.sig globals.sigLen image.msg
  after _ globals := globals

/-- The wait for a host: at most `n` times 100 ms. -/
def usbWait : ℕ → BenchProgram Unit
  | 0 => pure ()
  | n + 1 => do
    let answer ← call .stdioUsbConnected
    if answer.connected then pure ()
    else do
      let _ ← call (.sleepMs 100)
      usbWait n

def memoryStage : Operation → MemoryStage
  | .sign => .primitiveSign
  | .verify => .primitiveVerify

/-- The benchmark of one operation in the window of the memory monitor; an error is printed. -/
def measure (operation : Operation) (fn : BenchFn) (globals : Globals) :
    BenchProgram (Except ℤ BenchResult × Globals) := do
  printLine (image.memoryStartLine operation)
  let _ ← call .runtimeMemoryBegin
  let _ ← call (.runtimeMemorySetStage (memoryStage operation))
  let (outcome, globals) ← benchRun image.sqrt fn image.benchIters image.benchWarmup globals
  let answer ← call .runtimeMemoryEnd
  printLine (image.memoryLine operation answer.memory)
  match outcome with
  | .error rc =>
    printLine (errorLine operation rc)
    pure (.error rc, globals)
  | .ok s => pure (.ok s, globals)

/-- `bench_print` and the RESULT row. -/
def printResult (operation : Operation) (s : BenchResult) (globals : Globals) :
    BenchProgram Unit := do
  printLines (image.benchPrint operation s)
  let answer ← call .benchClkHz
  printLine (.result (image.resultRow operation s answer.hz globals.sigLen))

/-- The check that the signature is accepted and one with a flipped bit is not. -/
def sanityCheck (globals : Globals) : BenchProgram Unit := do
  let ok ← call (.schemeDoVerify globals.sig globals.sigLen image.msg)
  let bad ← call (.schemeDoVerify (globals.sig.modifyHead (· ^^^ 1)) globals.sigLen image.msg)
  printLine (sanityLine ok.rc bad.rc)
  printLine image.doneLine

/-- The verifying half of `main`, from the reference signature on. -/
def verifyHalf : BenchProgram Unit := do
  let reference ← call (.schemeDoSign image.msg)
  if reference.rc ≠ 0 then
    printLine (otherLine 'E' (by decide)
      (.lit "RROR: could not produce reference signature" (by decide)))
  else
    match ← image.measure .verify image.verifyIter ⟨reference.sig, reference.sigLen⟩ with
    | (.error _, _) => pure ()
    | (.ok s, globals) => do
      image.printResult .verify s globals
      image.sanityCheck globals

/-- The signing half of `main`, and what follows it. -/
def benchmark : BenchProgram Unit := do
  match ← image.measure .sign image.signIter ⟨List.replicate image.sigBuf 0, 0⟩ with
  | (.error _, _) => pure ()
  | (.ok s, globals) => do
    printLine (otherLine ' ' (by decide) (.lit "actual sig len: " (by decide) ++
      .u globals.sigLen ++ .lit " bytes" (by decide)))
    image.printResult .sign s globals
    image.verifyHalf

/-- `main`; it finishes where the source spins. -/
def main : BenchProgram Unit := do
  let _ ← call .stdioInitAll
  usbWait 30
  let _ ← call (.sleepMs 500)
  let _ ← call .benchInit
  let init ← call .schemeInit
  if init.rc ≠ 0 then
    printLine (otherLine 'F' (by decide)
      (.lit "ATAL: scheme initialization failed for " (by decide) ++ image.schemeName))
  else if image.sigMaxBytes.toNat > image.sigBuf then
    printLine (otherLine 'F' (by decide) (.lit "ATAL: SIG_BUF too small for " (by decide) ++
      image.schemeName ++ .lit " (need " (by decide) ++ .u image.sigMaxBytes ++
      .lit ")" (by decide)))
  else do
    let answer ← call .benchClkHz
    printLines (image.header answer.hz)
    image.benchmark

end BenchImage

end PqMqtt.Firmware
