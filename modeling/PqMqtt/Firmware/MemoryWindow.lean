import Mathlib.Data.List.Find
import Mathlib.Data.List.Induction
import PqMqtt.Firmware.RuntimeMemory

/-!
# Results of a memory window

What `runtime_memory_end` reports is determined by the heap at `runtime_memory_begin` and the
events since then, not by anything that happened before, and it is what the names of its fields
say.  The counters have 32 bits.
-/

namespace PqMqtt.Firmware

open Run
open Analysis (MemoryResult MemoryStage)

/-! ## Meaning of the events -/

namespace MemoryEvent

/-- The heap in use after the event. -/
def heapAfter (used : UInt32) : MemoryEvent → UInt32
  | mallocR _ _ heap => heap
  | reallocR _ _ heap => heap
  | freeR _ heap => heap
  | _ => used

/-- The stage after the event. -/
def stageAfter (stage : MemoryStage) : MemoryEvent → MemoryStage
  | setStage next => next
  | _ => stage

/-- The size that is requested of the allocator. -/
def request : MemoryEvent → Option UInt32
  | mallocR size _ _ => some size
  | reallocR size _ _ => some size
  | _ => none

/-- A nonzero request with the result `NULL`. -/
def failedRequest : MemoryEvent → Bool
  | mallocR size isNull _ => isNull && size ≠ 0
  | reallocR size isNull _ => isNull && size ≠ 0
  | _ => false

/-- The failure that the event observes or notes, with the stage. -/
def failure (stage : MemoryStage) : MemoryEvent → List (UInt32 × MemoryStage)
  | mallocR size isNull _ => if isNull && size ≠ 0 then [(size, stage)] else []
  | reallocR size isNull _ => if isNull && size ≠ 0 then [(size, stage)] else []
  | noteAllocationFailure requested => if requested ≠ 0 then [(requested, stage)] else []
  | _ => []

end MemoryEvent

/-- The heap in use after every event. -/
def heapTrace (used : UInt32) (events : List MemoryEvent) : List UInt32 :=
  trace MemoryEvent.heapAfter (fun used event ↦ [event.heapAfter used]) used events

/-- The failures, each under the stage that is then current. -/
def failures (events : List MemoryEvent) : List (UInt32 × MemoryStage) :=
  trace MemoryEvent.stageAfter MemoryEvent.failure .idle events

/-- What a result says about the window that began with `used` bytes of the heap in use. -/
structure WindowExact (layout : MemoryLayout) (used : UInt32) (events : List MemoryEvent)
    (result : MemoryResult) : Prop where
  before : result.heapInUseBeforeBytes = used
  after : result.heapInUseAfterBytes = run MemoryEvent.heapAfter used events
  peak_mem : result.heapPeakInUseBytes ∈ used :: heapTrace used events
  le_peak : ∀ heap ∈ used :: heapTrace used events, heap ≤ result.heapPeakInUseBytes
  peak_delta : result.heapPeakDeltaBytes = result.heapPeakInUseBytes - result.heapInUseBeforeBytes
  before_le_peak : result.heapInUseBeforeBytes ≤ result.heapPeakInUseBytes
  after_le_peak : result.heapInUseAfterBytes ≤ result.heapPeakInUseBytes
  min_free_le_before : result.minFreeBytes ≤ result.freeBeforeBytes
  min_free_le_after : result.minFreeBytes ≤ result.freeAfterBytes
  min_free_le_tls : .markTlsStart ∈ events → result.minFreeBytes ≤ result.freeBeforeTlsBytes
  request_mem : result.maximumAllocationRequestBytes ∈ 0 :: events.filterMap MemoryEvent.request
  le_request : ∀ size ∈ events.filterMap MemoryEvent.request,
    size ≤ result.maximumAllocationRequestBytes
  failed_allocations :
    result.failedAllocations = UInt32.ofNat (events.countP MemoryEvent.failedRequest)
  allocation_failed : result.allocationFailed = true ↔ failures events ≠ []
  first_failure : (result.allocationFailureBytes, result.allocationFailureStage) =
    (failures events).head?.getD (0, .idle)

/-! ## What one event does -/

/-- A maximum that takes a new value into account. -/
def raise (greatest value : UInt32) : UInt32 := if value > greatest then value else greatest

theorem raise_of_le {greatest value : UInt32} (h : value ≤ greatest) :
    raise greatest value = greatest := if_neg (UInt32.not_lt.mpr h)

theorem le_raise (greatest value : UInt32) : value ≤ raise greatest value := by
  unfold raise
  split
  · exact UInt32.le_refl _
  · rename_i h
    exact UInt32.not_lt.mp h

theorem greatest_le_raise (greatest value : UInt32) : greatest ≤ raise greatest value := by
  unfold raise
  split
  · rename_i h
    exact UInt32.le_of_lt h
  · exact UInt32.le_refl _

theorem raise_eq_or (greatest value : UInt32) :
    raise greatest value = value ∨ raise greatest value = greatest := by
  unfold raise
  split
  · exact Or.inl rfl
  · exact Or.inr rfl

/-- The failure that the monitor holds. -/
def Monitor.firstFailure (monitor : Monitor) : Option (UInt32 × MemoryStage) :=
  if monitor.allocationFailed then
    some (monitor.allocationFailureBytes, monitor.allocationFailureStage)
  else none

/-- The effect of an event while the monitor is on. -/
structure StepEffect (layout : MemoryLayout) (machine : MonitoredMachine) (event : MemoryEvent)
    (next : MonitoredMachine) : Prop where
  monitoring : next.monitor.monitoring = true
  heap : next.heapInUse = event.heapAfter machine.heapInUse
  before : next.monitor.heapBefore = machine.monitor.heapBefore
  peak : next.monitor.heapPeak = raise machine.monitor.heapPeak next.heapInUse
  tls : next.monitor.freeBeforeTls =
    if event = .markTlsStart then excess (heapCapacity layout) next.heapInUse
    else machine.monitor.freeBeforeTls
  request : next.monitor.maximumAllocationRequest =
    (event.request.map (raise machine.monitor.maximumAllocationRequest)).getD
      machine.monitor.maximumAllocationRequest
  failed_allocations : next.monitor.failedAllocations =
    machine.monitor.failedAllocations + if event.failedRequest then 1 else 0
  stage : next.monitor.currentStage = event.stageAfter machine.monitor.currentStage
  first_failure : next.monitor.firstFailure =
    machine.monitor.firstFailure.or (event.failure machine.monitor.currentStage).head?
  no_failure : next.monitor.allocationFailed = false →
    next.monitor.allocationFailureBytes = machine.monitor.allocationFailureBytes ∧
      next.monitor.allocationFailureStage = machine.monitor.allocationFailureStage

section Effect

variable {monitor : Monitor}

theorem observeHeap_eq (h : monitor.monitoring = true) (used : UInt32) :
    monitor.observeHeap used = { monitor with heapPeak := raise monitor.heapPeak used } := by
  have hon : ¬(!monitor.monitoring) = true := by simp [h]
  unfold Monitor.observeHeap raise
  rw [if_neg hon]
  split
  · rfl
  · rfl

theorem noteAllocationFailure_eq (h : monitor.monitoring = true) (requested : UInt32) :
    monitor.noteAllocationFailure requested =
      { monitor with
        allocationFailed := monitor.allocationFailed || requested ≠ 0
        allocationFailureBytes :=
          if requested ≠ 0 ∧ monitor.allocationFailed = false then requested
          else monitor.allocationFailureBytes
        allocationFailureStage :=
          if requested ≠ 0 ∧ monitor.allocationFailed = false then monitor.currentStage
          else monitor.allocationFailureStage } := by
  unfold Monitor.noteAllocationFailure
  cases hfailed : monitor.allocationFailed with
  | true =>
    rw [if_pos (by simp), Bool.true_or]
    simp only [Bool.true_eq_false, and_false, if_false]
    rw [← hfailed]
  | false =>
    rcases eq_or_ne requested 0 with rfl | hne
    · rw [if_pos (by simp)]
      simp only [ne_eq, not_true_eq_false, decide_false, Bool.or_false, false_and, if_false]
      rw [← hfailed]
    · rw [if_neg (by simp [h, hne])]
      simp only [hne, ne_eq, not_false_eq_true, decide_true, Bool.or_true, and_self, if_true]

/-- The failure that is held after one more is noted. -/
theorem firstFailure_noteAllocationFailure (h : monitor.monitoring = true) (requested : UInt32) :
    (monitor.noteAllocationFailure requested).firstFailure =
      monitor.firstFailure.or
        (if requested ≠ 0 then some (requested, monitor.currentStage) else none) := by
  rw [noteAllocationFailure_eq h]
  cases hfailed : monitor.allocationFailed with
  | true => simp [Monitor.firstFailure, hfailed]
  | false =>
    rcases eq_or_ne requested 0 with rfl | hne
    · simp [Monitor.firstFailure, hfailed]
    · simp [Monitor.firstFailure, hfailed, hne]

theorem noteAllocationFailure_zero : monitor.noteAllocationFailure 0 = monitor := by
  unfold Monitor.noteAllocationFailure
  exact if_pos (by simp)

/-- An allocation is counted, its failure noted, and the heap observed. -/
theorem allocationObserved_eq (h : monitor.monitoring = true) (size : UInt32) (isNull : Bool)
    (heap : UInt32) :
    monitor.allocationObserved size isNull heap =
      ({ monitor with
        allocationCalls := monitor.allocationCalls + 1
        maximumAllocationRequest := raise monitor.maximumAllocationRequest size
        failedAllocations := monitor.failedAllocations + if isNull && size ≠ 0 then 1 else 0
        }.noteAllocationFailure (if isNull then size else 0)).observeHeap heap := by
  have hon : ¬(!monitor.monitoring) = true := by simp [h]
  unfold Monitor.allocationObserved raise
  rw [if_neg hon]
  dsimp only
  cases hfails : isNull && decide (size ≠ 0) with
  | false =>
    have hzero : (if isNull then size else 0) = 0 := by
      cases isNull with
      | false => rfl
      | true => simpa using hfails
    rw [hzero, noteAllocationFailure_zero, if_neg Bool.false_ne_true, if_neg Bool.false_ne_true,
      UInt32.add_zero]
  | true =>
    have hnull : isNull = true := (Bool.and_eq_true_iff.mp hfails).1
    rw [if_pos rfl, if_pos rfl, if_pos hnull]

theorem monitoring_noteAllocationFailure (h : monitor.monitoring = true) (requested : UInt32) :
    (monitor.noteAllocationFailure requested).monitoring = true := by
  rw [noteAllocationFailure_eq h]
  exact h

/-- Without a failure nothing about failures is written. -/
theorem unfailed_noteAllocationFailure (h : monitor.monitoring = true) {requested : UInt32}
    (hfailed : (monitor.noteAllocationFailure requested).allocationFailed = false) :
    monitor.noteAllocationFailure requested = monitor := by
  rw [noteAllocationFailure_eq h] at hfailed
  simp only [Bool.or_eq_false_iff, decide_eq_false_iff_not, ne_eq, not_not] at hfailed
  rw [hfailed.2, noteAllocationFailure_zero]

end Effect

section Steps

variable {layout : MemoryLayout} {machine : MonitoredMachine}

/-- An event that requests memory or notes a failure. -/
theorem stepEffect_of_noted (h : machine.monitor.monitoring = true) {event : MemoryEvent}
    {next : MonitoredMachine} (hheap : next.heapInUse = event.heapAfter machine.heapInUse)
    (hmark : event ≠ .markTlsStart) (hstage : ∀ stage, event.stageAfter stage = stage)
    {requested calls : UInt32}
    (hfailure : ∀ stage, (event.failure stage).head?
      = if requested ≠ 0 then some (requested, stage) else none)
    {counted : Monitor} (hcounted : counted = { machine.monitor with
      allocationCalls := calls
      maximumAllocationRequest := (event.request.map
        (raise machine.monitor.maximumAllocationRequest)).getD
          machine.monitor.maximumAllocationRequest
      failedAllocations :=
        machine.monitor.failedAllocations + if event.failedRequest then 1 else 0 })
    (hmonitor : next.monitor = { counted.noteAllocationFailure requested with
      heapPeak := raise machine.monitor.heapPeak next.heapInUse }) :
    StepEffect layout machine event next := by
  have hon : counted.monitoring = true := by rw [hcounted, h]
  have hnoted := noteAllocationFailure_eq hon requested
  have hfirst := firstFailure_noteAllocationFailure hon requested
  refine ⟨?_, hheap, ?_, ?_, ?_, ?_, ?_, ?_, ?_, ?_⟩
  · rw [hmonitor]
    exact monitoring_noteAllocationFailure hon requested
  · rw [hmonitor, hnoted, hcounted]
  · rw [hmonitor]
  · rw [hmonitor, hnoted, hcounted, if_neg hmark]
  · rw [hmonitor, hnoted, hcounted]
  · rw [hmonitor, hnoted, hcounted]
  · rw [hmonitor, hnoted, hcounted, hstage]
  · rw [hmonitor, hfailure]
    exact hfirst.trans (by rw [hcounted]; rfl)
  · rw [hmonitor]
    intro hfailed
    rw [unfailed_noteAllocationFailure hon hfailed, hcounted]
    exact ⟨rfl, rfl⟩

theorem stepEffect_mallocR (h : machine.monitor.monitoring = true) (size : UInt32) (isNull : Bool)
    (heap : UInt32) :
    StepEffect layout machine (.mallocR size isNull heap)
      (memoryStep layout machine (.mallocR size isNull heap)) := by
  let counted : Monitor := { machine.monitor with
    allocationCalls := machine.monitor.allocationCalls + 1
    maximumAllocationRequest := raise machine.monitor.maximumAllocationRequest size
    failedAllocations := machine.monitor.failedAllocations + if isNull && size ≠ 0 then 1 else 0 }
  have hon : counted.monitoring = true := h
  have hnoted := monitoring_noteAllocationFailure hon (if isNull then size else 0)
  have hpeak : (counted.noteAllocationFailure (if isNull then size else 0)).heapPeak
      = machine.monitor.heapPeak := by
    rw [noteAllocationFailure_eq hon]
  have hmonitor : (memoryStep layout machine (.mallocR size isNull heap)).monitor
      = { counted.noteAllocationFailure (if isNull then size else 0) with
          heapPeak := raise machine.monitor.heapPeak heap } := by
    rw [← hpeak]
    exact (allocationObserved_eq h size isNull heap).trans (observeHeap_eq hnoted heap)
  apply stepEffect_of_noted h rfl (by simp) (fun _ ↦ rfl) _ rfl hmonitor
  intro stage
  cases isNull with
  | false => rfl
  | true =>
    rcases eq_or_ne size 0 with rfl | hne
    · rfl
    · simp [MemoryEvent.failure, hne]

/-- `realloc` is observed like `malloc`. -/
theorem stepEffect_reallocR (h : machine.monitor.monitoring = true) (size : UInt32)
    (isNull : Bool) (heap : UInt32) :
    StepEffect layout machine (.reallocR size isNull heap)
      (memoryStep layout machine (.reallocR size isNull heap)) := by
  obtain ⟨hmonitoring, hheap, hbefore, hpeak, htls, hrequest, hfailed, hstage, hfirst, hnone⟩ :=
    (stepEffect_mallocR h size isNull heap : StepEffect layout machine _ _)
  exact ⟨hmonitoring, hheap, hbefore, hpeak, htls, hrequest, hfailed, hstage, hfirst, hnone⟩

/-- An event that neither requests memory nor notes a failure. -/
theorem stepEffect_of_quiet (h : machine.monitor.monitoring = true) {event : MemoryEvent}
    {next : MonitoredMachine} (hrequest : event.request = none)
    (hfailed : event.failedRequest = false) (hfailure : ∀ stage, event.failure stage = [])
    (hheap : next.heapInUse = event.heapAfter machine.heapInUse) {freeCalls : UInt32}
    (hmonitor : next.monitor = { machine.monitor with
      freeCalls := freeCalls
      currentStage := event.stageAfter machine.monitor.currentStage
      heapPeak := raise machine.monitor.heapPeak next.heapInUse
      freeBeforeTls :=
        if event = .markTlsStart then excess (heapCapacity layout) next.heapInUse
        else machine.monitor.freeBeforeTls }) :
    StepEffect layout machine event next := by
  refine ⟨?_, hheap, ?_, ?_, ?_, ?_, ?_, ?_, ?_, ?_⟩
  · rw [hmonitor]
    exact h
  · rw [hmonitor]
  · rw [hmonitor]
  · rw [hmonitor]
  · rw [hmonitor, hrequest]
    rfl
  · rw [hmonitor, hfailed]
    exact (UInt32.add_zero _).symm
  · rw [hmonitor]
  · rw [hmonitor, hfailure]
    exact Option.or_none.symm
  · rw [hmonitor]
    exact fun _ ↦ ⟨rfl, rfl⟩

theorem stepEffect_freeR (h : machine.monitor.monitoring = true) (isNull : Bool)
    (heap : UInt32) :
    StepEffect layout machine (.freeR isNull heap)
      (memoryStep layout machine (.freeR isNull heap)) := by
  let counted : Monitor :=
    if machine.monitor.monitoring && !isNull then
      { machine.monitor with freeCalls := machine.monitor.freeCalls + 1 }
    else machine.monitor
  have hcounted : counted = { machine.monitor with freeCalls := counted.freeCalls } := by
    dsimp only [counted]
    split
    · rfl
    · rfl
  have hon : counted.monitoring = true := by rw [hcounted, h]
  have hmonitor : (memoryStep layout machine (.freeR isNull heap)).monitor
      = { counted with heapPeak := raise counted.heapPeak heap } := observeHeap_eq hon heap
  rw [hcounted] at hmonitor
  exact stepEffect_of_quiet h rfl rfl (fun _ ↦ rfl) rfl hmonitor

theorem stepEffect_setStage (h : machine.monitor.monitoring = true) (stage : MemoryStage) :
    StepEffect layout machine (.setStage stage)
      (memoryStep layout machine (.setStage stage)) :=
  stepEffect_of_quiet h rfl rfl (fun _ ↦ rfl) rfl
    (@observeHeap_eq { machine.monitor with currentStage := stage } h _)

theorem stepEffect_markTlsStart (h : machine.monitor.monitoring = true) :
    StepEffect layout machine .markTlsStart (memoryStep layout machine .markTlsStart) := by
  have hmonitor : (memoryStep layout machine .markTlsStart).monitor
      = { machine.monitor with
          heapPeak := raise machine.monitor.heapPeak machine.heapInUse
          freeBeforeTls := excess (heapCapacity layout) machine.heapInUse } := by
    simp only [memoryStep, Monitor.markTlsStart, observeHeap_eq h]
  exact stepEffect_of_quiet h rfl rfl (fun _ ↦ rfl) rfl hmonitor

theorem stepEffect_observe (h : machine.monitor.monitoring = true) :
    StepEffect layout machine .observe (memoryStep layout machine .observe) :=
  stepEffect_of_quiet h rfl rfl (fun _ ↦ rfl) rfl (observeHeap_eq h _)

theorem stepEffect_stackWrite (h : machine.monitor.monitoring = true)
    (hpeak : machine.heapInUse ≤ machine.monitor.heapPeak) (address word : UInt32) :
    StepEffect layout machine (.stackWrite address word)
      (memoryStep layout machine (.stackWrite address word)) := by
  apply @stepEffect_of_quiet _ _ h _ _ rfl rfl (fun _ ↦ rfl) rfl machine.monitor.freeCalls
  dsimp only [memoryStep, MemoryEvent.stageAfter]
  rw [raise_of_le hpeak]
  rfl

theorem stepEffect_noteAllocationFailure (h : machine.monitor.monitoring = true)
    (hpeak : machine.heapInUse ≤ machine.monitor.heapPeak) (requested : UInt32) :
    StepEffect layout machine (.noteAllocationFailure requested)
      (memoryStep layout machine (.noteAllocationFailure requested)) := by
  have hcounted : machine.monitor = { machine.monitor with
      failedAllocations := machine.monitor.failedAllocations + 0 } := by
    rw [UInt32.add_zero]
  have hmonitor : (memoryStep layout machine (.noteAllocationFailure requested)).monitor
      = { machine.monitor.noteAllocationFailure requested with
          heapPeak := raise machine.monitor.heapPeak machine.heapInUse } := by
    rw [raise_of_le hpeak]
    dsimp only [memoryStep]
    rw [noteAllocationFailure_eq h]
  apply stepEffect_of_noted h rfl (by simp) (fun _ ↦ rfl) _ hcounted hmonitor
  intro stage
  rcases eq_or_ne requested 0 with rfl | hne
  · rfl
  · simp [MemoryEvent.failure, hne]

/-- What every event does. -/
theorem stepEffect (h : machine.monitor.monitoring = true)
    (hpeak : machine.heapInUse ≤ machine.monitor.heapPeak) (event : MemoryEvent) :
    StepEffect layout machine event (memoryStep layout machine event) := by
  cases event with
  | mallocR size isNull heap => exact stepEffect_mallocR h size isNull heap
  | reallocR size isNull heap => exact stepEffect_reallocR h size isNull heap
  | freeR isNull heap => exact stepEffect_freeR h isNull heap
  | setStage stage => exact stepEffect_setStage h stage
  | markTlsStart => exact stepEffect_markTlsStart h
  | observe => exact stepEffect_observe h
  | noteAllocationFailure requested =>
    exact stepEffect_noteAllocationFailure h hpeak requested
  | stackWrite address word => exact stepEffect_stackWrite h hpeak address word

end Steps

/-! ## The invariant of a window -/

/-- What the monitor knows after some events of a window. -/
structure Watching (layout : MemoryLayout) (used : UInt32) (events : List MemoryEvent)
    (machine : MonitoredMachine) : Prop where
  monitoring : machine.monitor.monitoring = true
  heap : machine.heapInUse = run MemoryEvent.heapAfter used events
  before : machine.monitor.heapBefore = used
  peak_mem : machine.monitor.heapPeak ∈ used :: heapTrace used events
  le_peak : ∀ heap ∈ used :: heapTrace used events, heap ≤ machine.monitor.heapPeak
  heap_le_peak : machine.heapInUse ≤ machine.monitor.heapPeak
  tls : .markTlsStart ∈ events → ∃ heap, heap ≤ machine.monitor.heapPeak ∧
    machine.monitor.freeBeforeTls = excess (heapCapacity layout) heap
  request_mem : machine.monitor.maximumAllocationRequest ∈
    0 :: events.filterMap MemoryEvent.request
  le_request : ∀ size ∈ events.filterMap MemoryEvent.request,
    size ≤ machine.monitor.maximumAllocationRequest
  failed_allocations :
    machine.monitor.failedAllocations = UInt32.ofNat (events.countP MemoryEvent.failedRequest)
  stage : machine.monitor.currentStage = run MemoryEvent.stageAfter .idle events
  first_failure : machine.monitor.firstFailure = (failures events).head?
  no_failure : machine.monitor.allocationFailed = false →
    machine.monitor.allocationFailureBytes = 0 ∧ machine.monitor.allocationFailureStage = .idle

theorem heapTrace_concat (used : UInt32) (events : List MemoryEvent) (event : MemoryEvent) :
    heapTrace used (events ++ [event]) =
      heapTrace used events ++ [event.heapAfter (run MemoryEvent.heapAfter used events)] :=
  trace_append ..

theorem failures_concat (events : List MemoryEvent) (event : MemoryEvent) :
    failures (events ++ [event]) =
      failures events ++ event.failure (run MemoryEvent.stageAfter .idle events) := by
  unfold failures
  rw [trace_append, trace, trace, List.append_nil]

/-- A window begins without anything observed. -/
theorem watching_begin (layout : MemoryLayout) (stackMarker : UInt32)
    (machine : MonitoredMachine) :
    Watching layout machine.heapInUse [] (runtimeMemoryBegin layout stackMarker machine) := by
  have hheap : (runtimeMemoryBegin layout stackMarker machine).heapInUse = machine.heapInUse := by
    unfold runtimeMemoryBegin
    cases paintBounds layout stackMarker with
    | none => rfl
    | some bounds => rfl
  refine ⟨rfl, hheap, rfl, List.mem_cons_self, ?_, ?_, by simp, List.mem_cons_self, by simp, rfl,
    rfl, rfl, fun _ ↦ ⟨rfl, rfl⟩⟩
  · intro heap hmem
    obtain rfl := List.mem_singleton.mp hmem
    exact UInt32.le_refl _
  · rw [hheap]
    exact UInt32.le_refl _

section Invariant

variable {layout : MemoryLayout} {used : UInt32} {events : List MemoryEvent}
  {machine next : MonitoredMachine} {event : MemoryEvent}

/-- The peak after one more event. -/
theorem Watching.peak_concat (h : Watching layout used events machine)
    (hstep : StepEffect layout machine event next) :
    next.monitor.heapPeak ∈ used :: heapTrace used (events ++ [event]) ∧
      ∀ heap ∈ used :: heapTrace used (events ++ [event]), heap ≤ next.monitor.heapPeak := by
  have hnext : event.heapAfter (run MemoryEvent.heapAfter used events) = next.heapInUse := by
    rw [hstep.heap, h.heap]
  rw [heapTrace_concat, hnext, ← List.cons_append]
  constructor
  · rw [hstep.peak]
    rcases raise_eq_or machine.monitor.heapPeak next.heapInUse with heq | heq
    · rw [heq]
      exact List.mem_append_right _ (List.mem_singleton_self _)
    · rw [heq]
      exact List.mem_append_left _ h.peak_mem
  · intro heap hmem
    rw [hstep.peak]
    rcases List.mem_append.mp hmem with hearlier | hlast
    · exact UInt32.le_trans (h.le_peak heap hearlier) (greatest_le_raise _ _)
    · rw [List.mem_singleton.mp hlast]
      exact le_raise _ _

theorem Watching.tls_concat (h : Watching layout used events machine)
    (hstep : StepEffect layout machine event next) (hmem : .markTlsStart ∈ events ++ [event]) :
    ∃ heap, heap ≤ next.monitor.heapPeak ∧
      next.monitor.freeBeforeTls = excess (heapCapacity layout) heap := by
  rw [hstep.tls, hstep.peak]
  split
  · exact ⟨next.heapInUse, le_raise _ _, rfl⟩
  · rename_i hother
    have hearlier : .markTlsStart ∈ events := by
      rcases List.mem_append.mp hmem with hearlier | hlast
      · exact hearlier
      · exact absurd (List.mem_singleton.mp hlast).symm hother
    obtain ⟨heap, hle, heq⟩ := h.tls hearlier
    exact ⟨heap, UInt32.le_trans hle (greatest_le_raise _ _), heq⟩

/-- The greatest request after one more event. -/
theorem Watching.request_concat (h : Watching layout used events machine)
    (hstep : StepEffect layout machine event next) :
    next.monitor.maximumAllocationRequest ∈
        0 :: (events ++ [event]).filterMap MemoryEvent.request ∧
      ∀ size ∈ (events ++ [event]).filterMap MemoryEvent.request,
        size ≤ next.monitor.maximumAllocationRequest := by
  rw [List.filterMap_append, hstep.request]
  cases hrequest : event.request with
  | none =>
    rw [List.filterMap_cons_none hrequest, List.filterMap_nil, List.append_nil]
    exact ⟨h.request_mem, h.le_request⟩
  | some size =>
    rw [List.filterMap_cons_some hrequest, List.filterMap_nil, Option.map_some, Option.getD_some,
      ← List.cons_append]
    constructor
    · rcases raise_eq_or machine.monitor.maximumAllocationRequest size with heq | heq
      · rw [heq]
        exact List.mem_append_right _ (List.mem_singleton_self _)
      · rw [heq]
        exact List.mem_append_left _ h.request_mem
    · intro other hmem
      rcases List.mem_append.mp hmem with hearlier | hlast
      · exact UInt32.le_trans (h.le_request other hearlier) (greatest_le_raise _ _)
      · rw [List.mem_singleton.mp hlast]
        exact le_raise _ _

theorem Watching.failed_concat (h : Watching layout used events machine)
    (hstep : StepEffect layout machine event next) :
    next.monitor.failedAllocations =
      UInt32.ofNat ((events ++ [event]).countP MemoryEvent.failedRequest) := by
  rw [hstep.failed_allocations, h.failed_allocations, List.countP_append, List.countP_singleton,
    UInt32.ofNat_add]
  split
  · rfl
  · rfl

theorem Watching.failure_concat (h : Watching layout used events machine)
    (hstep : StepEffect layout machine event next) :
    next.monitor.firstFailure = (failures (events ++ [event])).head? := by
  rw [hstep.first_failure, failures_concat, List.head?_append, h.first_failure, h.stage]

theorem Watching.no_failure_concat (h : Watching layout used events machine)
    (hstep : StepEffect layout machine event next)
    (hnone : next.monitor.allocationFailed = false) :
    next.monitor.allocationFailureBytes = 0 ∧ next.monitor.allocationFailureStage = .idle := by
  obtain ⟨hbytes, hstage⟩ := hstep.no_failure hnone
  have hnext : next.monitor.firstFailure = none := if_neg (by simp [hnone])
  rw [hstep.first_failure, Option.or_eq_none_iff] at hnext
  have hbefore : machine.monitor.allocationFailed = false := by
    by_contra hfailed
    rw [Monitor.firstFailure, if_pos (by simpa using hfailed)] at hnext
    cases hnext.1
  rw [hbytes, hstage]
  exact h.no_failure hbefore

theorem Watching.step (h : Watching layout used events machine) (event : MemoryEvent) :
    Watching layout used (events ++ [event]) (memoryStep layout machine event) := by
  have hstep : StepEffect layout machine event (memoryStep layout machine event) :=
    stepEffect h.monitoring h.heap_le_peak event
  obtain ⟨hpeak, hle⟩ := h.peak_concat hstep
  obtain ⟨hrequest, hrequests⟩ := h.request_concat hstep
  exact
    { monitoring := hstep.monitoring
      heap := by rw [hstep.heap, h.heap, run_append, run_cons, run_nil]
      before := hstep.before.trans h.before
      peak_mem := hpeak
      le_peak := hle
      heap_le_peak := by
        rw [hstep.peak]
        exact le_raise _ _
      tls := h.tls_concat hstep
      request_mem := hrequest
      le_request := hrequests
      failed_allocations := h.failed_concat hstep
      stage := by rw [hstep.stage, h.stage, run_append, run_cons, run_nil]
      first_failure := h.failure_concat hstep
      no_failure := h.no_failure_concat hstep }

end Invariant

/-- The invariant holds after every sequence of events. -/
theorem watching_run (layout : MemoryLayout) (stackMarker : UInt32) (machine : MonitoredMachine)
    (events : List MemoryEvent) :
    Watching layout machine.heapInUse events
      (run (memoryStep layout) (runtimeMemoryBegin layout stackMarker machine) events) := by
  induction events using List.reverseRecOn with
  | nil => exact watching_begin layout stackMarker machine
  | append_singleton events event ih =>
    rw [run_append]
    exact ih.step event

/-! ## Exact results -/

theorem excess_of_le {x y : UInt32} (h : y ≤ x) : excess x y = x - y := by
  unfold excess
  split
  · rfl
  · rename_i hnot
    obtain rfl := UInt32.le_antisymm h (UInt32.not_lt.mp hnot)
    exact (UInt32.sub_self y).symm

theorem excess_le_excess (capacity : UInt32) {x y : UInt32} (h : x ≤ y) :
    excess capacity y ≤ excess capacity x := by
  unfold excess
  split
  · rename_i hy
    have hxy := UInt32.le_iff_toNat_le.mp h
    have hcapacity := UInt32.lt_iff_toNat_lt.mp hy
    have hx : capacity > x := UInt32.lt_iff_toNat_lt.mpr (by omega)
    rw [if_pos hx, UInt32.le_iff_toNat_le, UInt32.toNat_sub_of_le _ _ (UInt32.le_of_lt hy),
      UInt32.toNat_sub_of_le _ _ (UInt32.le_of_lt hx)]
    omega
  · exact UInt32.zero_le

/-- The first failure is held exactly when there is one. -/
theorem Watching.failure_iff {layout : MemoryLayout} {used : UInt32} {events : List MemoryEvent}
    {machine : MonitoredMachine} (h : Watching layout used events machine) :
    (machine.monitor.allocationFailed = true ↔ failures events ≠ []) ∧
      (machine.monitor.allocationFailureBytes, machine.monitor.allocationFailureStage) =
        (failures events).head?.getD (0, .idle) := by
  have hfirst := h.first_failure
  unfold Monitor.firstFailure at hfirst
  cases hfailed : machine.monitor.allocationFailed with
  | true =>
    rw [if_pos hfailed] at hfirst
    have hne : failures events ≠ [] := by
      intro hempty
      rw [hempty] at hfirst
      cases hfirst
    rw [← hfirst]
    exact ⟨iff_of_true rfl hne, rfl⟩
  | false =>
    rw [if_neg (by simp [hfailed])] at hfirst
    obtain ⟨hbytes, hstage⟩ := h.no_failure hfailed
    have hempty : failures events = [] := List.head?_eq_none_iff.mp hfirst.symm
    rw [hempty, hbytes, hstage]
    exact ⟨iff_of_false Bool.false_ne_true (fun hne ↦ hne rfl), rfl⟩

/-- For every sequence of events the result of a window is exact, the counter of failures up to
multiples of `2^32`. -/
theorem window_exact (layout : MemoryLayout) (stackMarker : UInt32) (machine : MonitoredMachine)
    (events : List MemoryEvent) :
    WindowExact layout machine.heapInUse events
      (memoryWindow layout stackMarker machine events) := by
  have h := watching_run layout stackMarker machine events
  unfold memoryWindow
  generalize run (memoryStep layout) (runtimeMemoryBegin layout stackMarker machine) events
    = last at h
  have hobserved : last.monitor.observeHeap last.heapInUse = last.monitor := by
    rw [observeHeap_eq h.monitoring, raise_of_le h.heap_le_peak]
  have hbefore : last.monitor.heapBefore ≤ last.monitor.heapPeak := by
    rw [h.before]
    exact h.le_peak _ List.mem_cons_self
  obtain ⟨hfailed, hfirst⟩ := h.failure_iff
  unfold runtimeMemoryEnd
  dsimp only
  rw [hobserved]
  exact
    { before := h.before
      after := h.heap
      peak_mem := h.peak_mem
      le_peak := h.le_peak
      peak_delta := excess_of_le hbefore
      before_le_peak := hbefore
      after_le_peak := h.heap_le_peak
      min_free_le_before := excess_le_excess _ hbefore
      min_free_le_after := excess_le_excess _ h.heap_le_peak
      min_free_le_tls := by
        intro hmark
        obtain ⟨heap, hle, htls⟩ := h.tls hmark
        rw [htls]
        exact excess_le_excess _ hle
      request_mem := h.request_mem
      le_request := h.le_request
      failed_allocations := h.failed_allocations
      allocation_failed := hfailed
      first_failure := hfirst }

/-- Linker symbols of a build, with 192 KiB of heap below a stack of 8 KiB. -/
def exampleLayout : MemoryLayout := ⟨0x20010000, 0x20040000, 0x20040000, 0x20042000⟩

/-- A machine after reset. -/
def resetMachine : MonitoredMachine where
  monitor := ⟨false, .idle, 0, 0, 0, 0, 0, 0, 0, false, 0, .idle, 0, 0, 0⟩
  heapInUse := 0
  words := fun _ ↦ 0

/-- The same allocation fails `2^32` times. -/
def countlessFailures : List MemoryEvent := List.replicate (2 ^ 32) (.mallocR 1 true 0)

theorem failed_allocations_wrap :
    countlessFailures.countP MemoryEvent.failedRequest = 2 ^ 32 ∧
      (memoryWindow exampleLayout 0x20041f00 resetMachine countlessFailures).failedAllocations
        = 0 := by
  have hcount : countlessFailures.countP MemoryEvent.failedRequest = 2 ^ 32 := by
    rw [countlessFailures, List.countP_replicate]
    exact if_pos (by decide)
  refine ⟨hcount, ?_⟩
  rw [(window_exact exampleLayout 0x20041f00 resetMachine countlessFailures).failed_allocations,
    hcount]
  rfl

/-! ## Isolation of windows -/

/-- The operations of a history. -/
inductive MonitorOp where
  | memoryBegin (stackMarker : UInt32)
  | event (event : MemoryEvent)
  | memoryEnd

def monitorStep (layout : MemoryLayout) (machine : MonitoredMachine) :
    MonitorOp → MonitoredMachine
  | .memoryBegin stackMarker => runtimeMemoryBegin layout stackMarker machine
  | .event event => memoryStep layout machine event
  | .memoryEnd => (runtimeMemoryEnd layout machine).1

/-- The addresses that `runtime_memory_end` reads. -/
def Monitor.examined (monitor : Monitor) : List UInt32 :=
  wordsBetween monitor.paintBegin monitor.stackGuardEnd ++
    wordsBetween monitor.stackGuardEnd monitor.paintEnd

/-- Machines that the rest of a window does not tell apart. -/
structure Alike (first second : MonitoredMachine) : Prop where
  monitor : first.monitor = second.monitor
  heapInUse : first.heapInUse = second.heapInUse
  words : ∀ address ∈ first.monitor.examined, first.words address = second.words address

/-- `runtime_memory_begin` writes every variable and every word that is read later. -/
theorem alike_begin (layout : MemoryLayout) (stackMarker : UInt32)
    {first second : MonitoredMachine} (h : first.heapInUse = second.heapInUse) :
    Alike (runtimeMemoryBegin layout stackMarker first)
      (runtimeMemoryBegin layout stackMarker second) := by
  unfold runtimeMemoryBegin
  rw [h]
  cases paintBounds layout stackMarker with
  | none =>
    refine ⟨rfl, rfl, fun address hmem ↦ ?_⟩
    have hnone : address ∈ wordsBetween 0 0 ++ wordsBetween 0 0 := hmem
    have hempty : wordsBetween 0 0 ++ wordsBetween 0 0 = [] := by decide
    rw [hempty] at hnone
    exact absurd hnone List.not_mem_nil
  | some bounds =>
    obtain ⟨paintBegin, stackGuardEnd, paintEnd⟩ := bounds
    refine ⟨rfl, rfl, fun address hmem ↦ ?_⟩
    dsimp only
    rw [fillWords_apply, fillWords_apply, fillWords_apply, fillWords_apply]
    rcases List.mem_append.mp hmem with hguard | hpaint
    · rw [if_pos hguard, if_pos hguard]
    · rw [if_pos hpaint, if_pos hpaint]

/-- The words after an event. -/
def MemoryEvent.wordsAfter (words : UInt32 → UInt32) : MemoryEvent → UInt32 → UInt32
  | stackWrite address word => Function.update words address word
  | _ => words

/-- Events write words without reading them. -/
theorem memoryStep_with_words (layout : MemoryLayout) (machine : MonitoredMachine)
    (words : UInt32 → UInt32) (event : MemoryEvent) :
    memoryStep layout { machine with words := words } event =
      { memoryStep layout machine event with words := event.wordsAfter words } := by
  cases event with
  | mallocR size isNull heap => rfl
  | reallocR size isNull heap => rfl
  | freeR isNull heap => rfl
  | setStage stage => rfl
  | markTlsStart => rfl
  | observe => rfl
  | noteAllocationFailure requested => rfl
  | stackWrite address word => rfl

/-- `paint_begin`, `stack_guard_end` and `paint_end` -/
def Monitor.window (monitor : Monitor) : UInt32 × UInt32 × UInt32 :=
  (monitor.paintBegin, monitor.stackGuardEnd, monitor.paintEnd)

theorem window_observeHeap (monitor : Monitor) (used : UInt32) :
    (monitor.observeHeap used).window = monitor.window := by
  unfold Monitor.observeHeap
  split
  · rfl
  split
  · rfl
  · rfl

theorem window_noteAllocationFailure (monitor : Monitor) (requested : UInt32) :
    (monitor.noteAllocationFailure requested).window = monitor.window := by
  unfold Monitor.noteAllocationFailure
  split
  · rfl
  · rfl

theorem window_allocationObserved (monitor : Monitor) (size : UInt32) (isNull : Bool)
    (heap : UInt32) : (monitor.allocationObserved size isNull heap).window = monitor.window := by
  unfold Monitor.allocationObserved
  split
  · rfl
  dsimp only
  rw [window_observeHeap]
  split
  · rw [window_noteAllocationFailure]
    rfl
  · rfl

/-- The pointers are fixed during a window. -/
theorem window_memoryStep (layout : MemoryLayout) (machine : MonitoredMachine)
    (event : MemoryEvent) :
    (memoryStep layout machine event).monitor.window = machine.monitor.window := by
  cases event with
  | mallocR size isNull heap => exact window_allocationObserved _ _ _ _
  | reallocR size isNull heap => exact window_allocationObserved _ _ _ _
  | freeR isNull heap =>
    calc (machine.monitor.freeObserved isNull heap).window
        = (if machine.monitor.monitoring && !isNull then
            { machine.monitor with freeCalls := machine.monitor.freeCalls + 1 }
          else machine.monitor).window := window_observeHeap _ _
      _ = machine.monitor.window := by
        split
        · rfl
        · rfl
  | setStage stage => exact window_observeHeap _ _
  | markTlsStart => exact window_observeHeap _ _
  | observe => exact window_observeHeap _ _
  | noteAllocationFailure requested => exact window_noteAllocationFailure _ _
  | stackWrite address word => rfl

theorem window_run (layout : MemoryLayout) (machine : MonitoredMachine)
    (events : List MemoryEvent) :
    (run (memoryStep layout) machine events).monitor.window = machine.monitor.window := by
  induction events generalizing machine with
  | nil => rfl
  | cons event events ih => rw [run_cons, ih, window_memoryStep]

theorem examined_memoryStep (layout : MemoryLayout) (machine : MonitoredMachine)
    (event : MemoryEvent) :
    (memoryStep layout machine event).monitor.examined = machine.monitor.examined :=
  congrArg (fun (first, middle, last) ↦ wordsBetween first middle ++ wordsBetween middle last)
    (window_memoryStep layout machine event)

section Alike

variable {layout : MemoryLayout} {first second : MonitoredMachine}

theorem Alike.eq_with_words (h : Alike first second) :
    first = { second with words := first.words } := by
  obtain ⟨monitor, heapInUse, words⟩ := first
  obtain ⟨hmonitor, hheap, -⟩ := h
  obtain rfl : monitor = second.monitor := hmonitor
  obtain rfl : heapInUse = second.heapInUse := hheap
  rfl

/-- Alike machines stay alike. -/
theorem Alike.step (h : Alike first second) (event : MemoryEvent) :
    Alike (memoryStep layout first event) (memoryStep layout second event) := by
  have hfirst : memoryStep layout first event
      = { memoryStep layout second event with words := event.wordsAfter first.words } := by
    conv_lhs => rw [h.eq_with_words]
    exact memoryStep_with_words layout second first.words event
  have hsecond : (memoryStep layout second event).words = event.wordsAfter second.words :=
    congrArg MonitoredMachine.words (memoryStep_with_words layout second second.words event)
  have hexamined := examined_memoryStep layout first event
  refine ⟨by rw [hfirst], by rw [hfirst], fun address hmem ↦ ?_⟩
  rw [hexamined] at hmem
  have hwords := h.words address hmem
  rw [hsecond, congrArg MonitoredMachine.words hfirst]
  cases event with
  | stackWrite target word =>
    dsimp only [MemoryEvent.wordsAfter]
    rw [Function.update_apply, Function.update_apply, hwords]
  | mallocR size isNull heap => exact hwords
  | reallocR size isNull heap => exact hwords
  | freeR isNull heap => exact hwords
  | setStage stage => exact hwords
  | markTlsStart => exact hwords
  | observe => exact hwords
  | noteAllocationFailure requested => exact hwords

theorem Alike.run (h : Alike first second) (events : List MemoryEvent) :
    Alike (run (memoryStep layout) first events) (run (memoryStep layout) second events) := by
  induction events generalizing first second with
  | nil => exact h
  | cons event events ih => exact ih (h.step event)

theorem Alike.stackUse_eq (h : Alike first second) :
    stackUse layout first = stackUse layout second := by
  have hguard : ((wordsBetween second.monitor.paintBegin second.monitor.stackGuardEnd).any
        fun address ↦ first.words address ≠ stackGuardWord)
      = (wordsBetween second.monitor.paintBegin second.monitor.stackGuardEnd).any
        fun address ↦ second.words address ≠ stackGuardWord := by
    rw [Bool.eq_iff_iff, List.any_eq_true, List.any_eq_true]
    apply exists_congr
    intro address
    apply and_congr_right
    intro hmem
    rw [h.words address (by
      rw [h.monitor]
      exact List.mem_append_left _ hmem)]
  have hpaint : ((wordsBetween second.monitor.stackGuardEnd second.monitor.paintEnd).find?
        fun address ↦ first.words address ≠ stackPaintWord)
      = (wordsBetween second.monitor.stackGuardEnd second.monitor.paintEnd).find?
        fun address ↦ second.words address ≠ stackPaintWord := by
    apply List.find?_congr
    intro address hmem
    rw [h.words address (by
      rw [h.monitor]
      exact List.mem_append_right _ hmem)]
  unfold stackUse
  rw [h.monitor]
  dsimp only
  rw [hguard, hpaint]

theorem Alike.result_eq (h : Alike first second) :
    (runtimeMemoryEnd layout first).2 = (runtimeMemoryEnd layout second).2 := by
  unfold runtimeMemoryEnd
  rw [h.stackUse_eq, h.monitor, h.heapInUse]

end Alike

/-- Whatever happened before two windows, on any two machines, they have the same result when they
begin with the same heap use and stack position and run through the same events. -/
theorem windows_isolated (layout : MemoryLayout) (stackMarker : UInt32)
    (start another : MonitoredMachine) (history other : List MonitorOp)
    (events : List MemoryEvent)
    (h : (run (monitorStep layout) start history).heapInUse =
      (run (monitorStep layout) another other).heapInUse) :
    memoryWindow layout stackMarker (run (monitorStep layout) start history) events =
      memoryWindow layout stackMarker (run (monitorStep layout) another other) events :=
  ((alike_begin layout stackMarker h).run events).result_eq

/-- A window after one that failed, and a window after reset. -/
theorem windows_isolated_after_failure :
    let history : List MonitorOp :=
      [.memoryBegin 0x20041f00, .event (.setStage .certificate), .event (.mallocR 4096 true 64),
        .event .markTlsStart, .memoryEnd, .event (.stackWrite 0x20040000 7)]
    let other : List MonitorOp := [.event (.mallocR 64 false 64)]
    let events : List MemoryEvent := [.reallocR 128 false 200, .stackWrite 0x20041000 1, .observe]
    memoryWindow exampleLayout 0x20041e00
        (run (monitorStep exampleLayout) resetMachine history) events =
      memoryWindow exampleLayout 0x20041e00
        (run (monitorStep exampleLayout) resetMachine other) events :=
  windows_isolated exampleLayout 0x20041e00 resetMachine resetMachine
    [.memoryBegin 0x20041f00, .event (.setStage .certificate), .event (.mallocR 4096 true 64),
      .event .markTlsStart, .memoryEnd, .event (.stackWrite 0x20040000 7)]
    [.event (.mallocR 64 false 64)]
    [.reallocR 128 false 200, .stackWrite 0x20041000 1, .observe] rfl

end PqMqtt.Firmware
