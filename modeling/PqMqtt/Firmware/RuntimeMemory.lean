import Mathlib.Logic.Function.Basic
import PqMqtt.Analysis.SerialLog
import PqMqtt.Foundation.Run

/-!
# The memory monitor

`runtime_memory.c`.  The monitor reads how much of the heap is in use and the words of the stack;
`size_t` and addresses have 32 bits.  Between two of its operations the heap changes only in the
wrapped allocator functions, and words are written to the stack.
-/

namespace PqMqtt.Firmware

open Run
open Analysis (MemoryResult MemoryStage)

/-- The symbols of the linker script. -/
structure MemoryLayout where
  heapStart : UInt32
  heapEnd : UInt32
  stackBottom : UInt32
  stackTop : UInt32

/-- The file-level variables; a null pointer is the address zero. -/
structure Monitor where
  monitoring : Bool
  currentStage : MemoryStage
  heapBefore : UInt32
  heapPeak : UInt32
  freeBeforeTls : UInt32
  maximumAllocationRequest : UInt32
  allocationCalls : UInt32
  freeCalls : UInt32
  failedAllocations : UInt32
  allocationFailed : Bool
  allocationFailureBytes : UInt32
  allocationFailureStage : MemoryStage
  paintBegin : UInt32
  paintEnd : UInt32
  stackGuardEnd : UInt32

/-- The monitor with what it looks at: `mallinfo().uordblks` and the words of memory. -/
structure MonitoredMachine where
  monitor : Monitor
  heapInUse : UInt32
  words : UInt32 → UInt32

/-- `x > y ? x - y : 0` -/
def excess (x y : UInt32) : UInt32 := if x > y then x - y else 0

def heapCapacity (layout : MemoryLayout) : UInt32 :=
  let last := if layout.stackBottom < layout.heapEnd then layout.stackBottom else layout.heapEnd
  excess last layout.heapStart

/-! ## Observations -/

namespace Monitor

def observeHeap (monitor : Monitor) (used : UInt32) : Monitor :=
  if !monitor.monitoring then monitor
  else if used > monitor.heapPeak then { monitor with heapPeak := used }
  else monitor

/-- `runtime_memory_note_allocation_failure` -/
def noteAllocationFailure (monitor : Monitor) (requested : UInt32) : Monitor :=
  if !monitor.monitoring || requested = 0 || monitor.allocationFailed then monitor
  else { monitor with
    allocationFailed := true
    allocationFailureBytes := requested
    allocationFailureStage := monitor.currentStage }

/-- `runtime_memory_set_stage` -/
def setStage (monitor : Monitor) (stage : MemoryStage) (used : UInt32) : Monitor :=
  { monitor with currentStage := stage }.observeHeap used

/-- `runtime_memory_mark_tls_start` -/
def markTlsStart (layout : MemoryLayout) (monitor : Monitor) (used : UInt32) : Monitor :=
  { monitor.observeHeap used with freeBeforeTls := excess (heapCapacity layout) used }

/-- `allocation_observed`; the allocator returned `NULL` or a pointer. -/
def allocationObserved (monitor : Monitor) (requested : UInt32) (isNull : Bool) (used : UInt32) :
    Monitor :=
  if !monitor.monitoring then monitor
  else
    let counted := { monitor with
      allocationCalls := monitor.allocationCalls + 1
      maximumAllocationRequest :=
        if requested > monitor.maximumAllocationRequest then requested
        else monitor.maximumAllocationRequest }
    let noted :=
      if isNull && requested ≠ 0 then
        { counted with failedAllocations := counted.failedAllocations + 1 }.noteAllocationFailure
          requested
      else counted
    noted.observeHeap used

/-- `__wrap__free_r` after the real function. -/
def freeObserved (monitor : Monitor) (isNull : Bool) (used : UInt32) : Monitor :=
  let counted :=
    if monitor.monitoring && !isNull then { monitor with freeCalls := monitor.freeCalls + 1 }
    else monitor
  counted.observeHeap used

end Monitor

/-- What happens between `runtime_memory_begin` and `runtime_memory_end`; calls of the allocator
come with their result and the heap in use after them. -/
inductive MemoryEvent where
  | mallocR (size : UInt32) (isNull : Bool) (heap : UInt32)
  | reallocR (size : UInt32) (isNull : Bool) (heap : UInt32)
  | freeR (isNull : Bool) (heap : UInt32)
  | setStage (stage : MemoryStage)
  | markTlsStart
  | observe
  | noteAllocationFailure (requested : UInt32)
  | stackWrite (address : UInt32) (word : UInt32)
deriving DecidableEq

def memoryStep (layout : MemoryLayout) (machine : MonitoredMachine) :
    MemoryEvent → MonitoredMachine
  | .mallocR size isNull heap =>
    { machine with
      heapInUse := heap, monitor := machine.monitor.allocationObserved size isNull heap }
  | .reallocR size isNull heap =>
    { machine with
      heapInUse := heap, monitor := machine.monitor.allocationObserved size isNull heap }
  | .freeR isNull heap =>
    { machine with heapInUse := heap, monitor := machine.monitor.freeObserved isNull heap }
  | .setStage stage =>
    { machine with monitor := machine.monitor.setStage stage machine.heapInUse }
  | .markTlsStart =>
    { machine with monitor := machine.monitor.markTlsStart layout machine.heapInUse }
  | .observe => { machine with monitor := machine.monitor.observeHeap machine.heapInUse }
  | .noteAllocationFailure requested =>
    { machine with monitor := machine.monitor.noteAllocationFailure requested }
  | .stackWrite address word =>
    { machine with words := Function.update machine.words address word }

/-! ## The painted stack -/

/-- `STACK_PAINT_WORD` -/
def stackPaintWord : UInt32 := 0xA55A3CC3

/-- `STACK_GUARD_WORD` -/
def stackGuardWord : UInt32 := 0xD15EA5ED

/-- `STACK_PAINT_GUARD_BYTES` -/
def stackPaintGuardBytes : UInt32 := 128

/-- `STACK_LIMIT_GUARD_BYTES` -/
def stackLimitGuardBytes : UInt32 := 64

/-- The values of `p` in the loops `for (p = first; p < last; ++p)`. -/
def wordsBetween (first last : UInt32) : List UInt32 :=
  (List.range ((last.toNat - first.toNat + 3) / 4)).map fun index ↦ first + 4 * UInt32.ofNat index

def fillWords (word first last : UInt32) (words : UInt32 → UInt32) : UInt32 → UInt32 :=
  (wordsBetween first last).foldl (fun words address ↦ Function.update words address word) words

theorem foldl_update_apply (word : UInt32) (addresses : List UInt32) (words : UInt32 → UInt32)
    (address : UInt32) :
    addresses.foldl (fun words address ↦ Function.update words address word) words address =
      if address ∈ addresses then word else words address := by
  induction addresses generalizing words with
  | nil => rfl
  | cons first addresses ih =>
    rw [List.foldl_cons, ih]
    by_cases hrest : address ∈ addresses
    · simp [hrest]
    · rcases eq_or_ne address first with rfl | hne
      · simp
      · simp [hrest, hne]

/-- Filling leaves the words outside alone. -/
theorem fillWords_apply (word first last : UInt32) (words : UInt32 → UInt32) (address : UInt32) :
    fillWords word first last words address =
      if address ∈ wordsBetween first last then word else words address :=
  foldl_update_apply word _ words address

/-- `x & ~(uintptr_t)3u` -/
def alignDown (address : UInt32) : UInt32 := address &&& ~~~3

/-- The pointers `paint_begin`, `stack_guard_end` and `paint_end` of a window; `none` for null
pointers. -/
def paintBounds (layout : MemoryLayout) (stackMarker : UInt32) :
    Option (UInt32 × UInt32 × UInt32) :=
  let bottom := layout.stackBottom
  let safeEnd :=
    if stackMarker > stackPaintGuardBytes then stackMarker - stackPaintGuardBytes else stackMarker
  let paintBegin := alignDown (bottom + 3)
  let paintEnd := alignDown safeEnd
  let stackGuardEnd := alignDown (bottom + stackLimitGuardBytes + 3)
  if stackMarker < bottom ∨ stackMarker > layout.stackTop ∨ paintEnd < paintBegin then none
  else some (paintBegin, if stackGuardEnd > paintEnd then paintEnd else stackGuardEnd, paintEnd)

/-- `runtime_memory_begin` with its local variable at `stackMarker`. -/
def runtimeMemoryBegin (layout : MemoryLayout) (stackMarker : UInt32)
    (machine : MonitoredMachine) : MonitoredMachine :=
  let painted :=
    match paintBounds layout stackMarker with
    | none =>
      { machine with monitor := { machine.monitor with
          paintBegin := 0, paintEnd := 0, stackGuardEnd := 0 } }
    | some (paintBegin, stackGuardEnd, paintEnd) =>
      { machine with
        words := fillWords stackPaintWord stackGuardEnd paintEnd
          (fillWords stackGuardWord paintBegin stackGuardEnd machine.words)
        monitor := { machine.monitor with
          paintBegin := paintBegin, paintEnd := paintEnd, stackGuardEnd := stackGuardEnd } }
  { painted with monitor := { painted.monitor with
      currentStage := .idle
      allocationFailed := false
      allocationFailureBytes := 0
      allocationFailureStage := .idle
      heapBefore := machine.heapInUse
      heapPeak := machine.heapInUse
      freeBeforeTls := 0
      maximumAllocationRequest := 0
      allocationCalls := 0
      freeCalls := 0
      failedAllocations := 0
      monitoring := true } }

/-- `stack_high_water` and `stack_guard_corrupted`.  The pointers are aligned, so a scan that
finds the paint untouched ends at `paint_end`. -/
def stackUse (layout : MemoryLayout) (machine : MonitoredMachine) : UInt32 × Bool :=
  let monitor := machine.monitor
  if monitor.paintBegin ≠ 0 ∧ monitor.paintEnd ≠ 0 then
    let corrupted := (wordsBetween monitor.paintBegin monitor.stackGuardEnd).any fun address ↦
      machine.words address ≠ stackGuardWord
    let firstUsed := ((wordsBetween monitor.stackGuardEnd monitor.paintEnd).find? fun address ↦
      machine.words address ≠ stackPaintWord).getD monitor.paintEnd
    let highWater := layout.stackTop - firstUsed
    (if corrupted then layout.stackTop - layout.stackBottom else highWater, corrupted)
  else (0, false)

/-- `runtime_memory_end` -/
def runtimeMemoryEnd (layout : MemoryLayout) (machine : MonitoredMachine) :
    MonitoredMachine × MemoryResult :=
  let monitor := { machine.monitor.observeHeap machine.heapInUse with monitoring := false }
  let capacity := heapCapacity layout
  let before := monitor.heapBefore
  let peak := monitor.heapPeak
  let (stackHighWater, stackGuardCorrupted) := stackUse layout machine
  let after := machine.heapInUse
  let stackCapacity := layout.stackTop - layout.stackBottom
  ({ machine with monitor := monitor },
    { heapCapacityBytes := capacity
      heapInUseBeforeBytes := before
      heapPeakInUseBytes := peak
      heapPeakDeltaBytes := excess peak before
      heapInUseAfterBytes := after
      freeBeforeBytes := excess capacity before
      freeBeforeTlsBytes := monitor.freeBeforeTls
      minFreeBytes := excess capacity peak
      freeAfterBytes := excess capacity after
      maximumAllocationRequestBytes := monitor.maximumAllocationRequest
      allocationCalls := monitor.allocationCalls
      freeCalls := monitor.freeCalls
      failedAllocations := monitor.failedAllocations
      stackCapacityBytes := stackCapacity
      stackHighWaterBytes := stackHighWater
      stackUnusedBytes := excess stackCapacity stackHighWater
      stackGuardCorrupted := stackGuardCorrupted
      allocationFailed := monitor.allocationFailed
      allocationFailureBytes := monitor.allocationFailureBytes
      allocationFailureStage := monitor.allocationFailureStage })

/-- The result of a window: `runtime_memory_begin`, the events, `runtime_memory_end`. -/
def memoryWindow (layout : MemoryLayout) (stackMarker : UInt32) (machine : MonitoredMachine)
    (events : List MemoryEvent) : MemoryResult :=
  (runtimeMemoryEnd layout
    (run (memoryStep layout) (runtimeMemoryBegin layout stackMarker machine) events)).2

end PqMqtt.Firmware
