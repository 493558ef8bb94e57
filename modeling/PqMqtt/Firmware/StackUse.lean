import Mathlib.Data.Set.Basic
import PqMqtt.Firmware.MemoryWindow
import PqMqtt.Foundation.EarlyStop

/-!
# Stack use

`runtime_memory_begin` paints the free part of the stack, a guard strip at its lower end first,
and `runtime_memory_end` looks for the lowest word that has changed.  What it reports is exact for
every layout and every run, and more changed words never give a smaller report.
-/

namespace PqMqtt.Firmware

open Run
open Analysis (MemoryResult)

/-! ## Aligned words -/

theorem toNat_alignDown (address : UInt32) :
    (alignDown address).toNat = 4 * (address.toNat / 4) := by
  have hmask : (~~~3 : UInt32).toNat = 2 ^ 2 * (2 ^ 30 - 1) := by decide
  have hfour : 4 * (address.toNat / 4) = 2 ^ 2 * (address.toNat / 2 ^ 2) := rfl
  rw [alignDown, UInt32.toNat_and, hmask, hfour]
  apply Nat.eq_of_testBit_eq
  intro bit
  rw [Nat.testBit_and, Nat.testBit_two_pow_mul, Nat.testBit_two_pow_mul,
    Nat.testBit_two_pow_sub_one, Nat.testBit_div_two_pow]
  by_cases hlow : 2 ≤ bit
  · rw [decide_eq_true hlow, Bool.true_and, Bool.true_and, Nat.sub_add_cancel hlow]
    by_cases hhigh : bit < 32
    · rw [decide_eq_true (by omega), Bool.and_true]
    · have hlt : address.toNat < 2 ^ bit :=
        address.toNat_lt.trans_le (Nat.pow_le_pow_right Nat.two_pos (Nat.not_lt.mp hhigh))
      rw [Nat.testBit_lt_two_pow hlt, Bool.false_and]
  · rw [decide_eq_false hlow, Bool.false_and, Bool.false_and, Bool.and_false]

/-- The aligned addresses between two bounds. -/
def strip (first last : UInt32) : Set UInt32 :=
  {address | first ≤ address ∧ address < last ∧ 4 ∣ address.toNat}

section Words

variable {first last : UInt32} (hfirst : 4 ∣ first.toNat) (hlast : 4 ∣ last.toNat)

include hfirst hlast

theorem toNat_wordAt {index : ℕ} (hindex : index < (last.toNat - first.toNat + 3) / 4) :
    (first + 4 * UInt32.ofNat index).toNat = first.toNat + 4 * index := by
  have hlt := last.toNat_lt
  have hofNat : (UInt32.ofNat index).toNat = index :=
    UInt32.toNat_ofNat_of_lt' (by change _ < 2 ^ 32; omega)
  rw [UInt32.toNat_add, UInt32.toNat_mul, hofNat]
  change (first.toNat + 4 * index % 2 ^ 32) % 2 ^ 32 = _
  omega

/-- The loops from an aligned pointer to another visit the aligned addresses between them. -/
theorem mem_wordsBetween_iff {address : UInt32} :
    address ∈ wordsBetween first last ↔ address ∈ strip first last := by
  rw [wordsBetween, List.mem_map]
  constructor
  · rintro ⟨index, hmem, rfl⟩
    have hindex := List.mem_range.mp hmem
    have hvalue := toNat_wordAt hfirst hlast hindex
    refine ⟨UInt32.le_iff_toNat_le.mpr ?_, UInt32.lt_iff_toNat_lt.mpr ?_, ?_⟩
    · omega
    · omega
    · omega
  · rintro ⟨hle, hlt, haligned⟩
    have hle' := UInt32.le_iff_toNat_le.mp hle
    have hlt' := UInt32.lt_iff_toNat_lt.mp hlt
    have hindex : (address.toNat - first.toNat) / 4 < (last.toNat - first.toNat + 3) / 4 := by
      omega
    refine ⟨(address.toNat - first.toNat) / 4, List.mem_range.mpr hindex, ?_⟩
    apply UInt32.toNat_inj.mp
    rw [toNat_wordAt hfirst hlast hindex]
    omega

/-- They visit them in ascending order. -/
theorem pairwise_wordsBetween : (wordsBetween first last).Pairwise (· < ·) := by
  rw [wordsBetween, List.pairwise_map]
  refine List.Pairwise.imp_of_mem ?_ List.pairwise_lt_range
  intro index next hindex hnext hlt
  apply UInt32.lt_iff_toNat_lt.mpr
  rw [toNat_wordAt hfirst hlast (List.mem_range.mp hindex),
    toNat_wordAt hfirst hlast (List.mem_range.mp hnext)]
  omega

end Words

/-! ## The painted region -/

/-- Painting is on: the pointers were set and none of them is null. -/
structure Painting (layout : MemoryLayout)
    (stackMarker paintBegin stackGuardEnd paintEnd : UInt32) : Prop where
  bounds : paintBounds layout stackMarker = some (paintBegin, stackGuardEnd, paintEnd)
  paintBegin_ne : paintBegin ≠ 0
  paintEnd_ne : paintEnd ≠ 0

/-- Where the pointers are. -/
structure Region (layout : MemoryLayout) (paintBegin stackGuardEnd paintEnd : UInt32) : Prop where
  bottom_le : layout.stackBottom.toNat ≤ paintBegin.toNat
  begin_le : paintBegin.toNat ≤ stackGuardEnd.toNat
  guard_le : stackGuardEnd.toNat ≤ paintEnd.toNat
  le_top : paintEnd.toNat ≤ layout.stackTop.toNat
  begin_aligned : 4 ∣ paintBegin.toNat
  guard_aligned : 4 ∣ stackGuardEnd.toNat
  end_aligned : 4 ∣ paintEnd.toNat

section Region

variable {layout : MemoryLayout} {stackMarker paintBegin stackGuardEnd paintEnd : UInt32}

/-- Painting keeps a distance of 128 bytes from the local variable, if there are as many. -/
theorem toNat_safeEnd (stackMarker : UInt32) {safeEnd : UInt32}
    (h : safeEnd = if stackMarker > stackPaintGuardBytes then stackMarker - stackPaintGuardBytes
      else stackMarker) :
    safeEnd.toNat = stackMarker.toNat - 128 ∧ 128 < stackMarker.toNat ∨
      safeEnd.toNat = stackMarker.toNat ∧ stackMarker.toNat ≤ 128 := by
  have hiff : stackMarker > stackPaintGuardBytes ↔ 128 < stackMarker.toNat :=
    UInt32.lt_iff_toNat_lt
  by_cases hgt : stackMarker > stackPaintGuardBytes
  · rw [h, if_pos hgt, UInt32.toNat_sub_of_le _ _ (UInt32.le_of_lt hgt)]
    exact Or.inl ⟨rfl, hiff.mp hgt⟩
  · rw [h, if_neg hgt]
    exact Or.inr ⟨rfl, Nat.not_lt.mp (mt hiff.mpr hgt)⟩

/-- Rounding up wraps only in the last bytes of the address space, and then `paint_begin` is
null or behind `paint_end`. -/
theorem Painting.region (h : Painting layout stackMarker paintBegin stackGuardEnd paintEnd) :
    Region layout paintBegin stackGuardEnd paintEnd := by
  obtain ⟨hbounds, hbegin, -⟩ := h
  have hmarker := stackMarker.toNat_lt
  have hbottom := layout.stackBottom.toNat_lt
  rw [paintBounds] at hbounds
  generalize hdistance : (if stackMarker > stackPaintGuardBytes then
    stackMarker - stackPaintGuardBytes else stackMarker) = safeEnd at hbounds
  have hsafe := toNat_safeEnd stackMarker hdistance.symm
  have hroundUp : (alignDown (layout.stackBottom + 3)).toNat
      = 4 * ((layout.stackBottom.toNat + 3) % 2 ^ 32 / 4) := by
    rw [toNat_alignDown, UInt32.toNat_add]
    rfl
  have hguardUp : (alignDown (layout.stackBottom + stackLimitGuardBytes + 3)).toNat
      = 4 * (((layout.stackBottom.toNat + 64) % 2 ^ 32 + 3) % 2 ^ 32 / 4) := by
    rw [toNat_alignDown, UInt32.toNat_add, UInt32.toNat_add]
    rfl
  have hroundDown := toNat_alignDown safeEnd
  rw [ite_eq_iff] at hbounds
  rcases hbounds with ⟨-, hnone⟩ | ⟨hinside, hsome⟩
  · exact absurd hnone (Option.some_ne_none _).symm
  obtain ⟨rfl, hrest⟩ := Prod.mk.inj (Option.some.inj hsome)
  obtain ⟨rfl, rfl⟩ := Prod.mk.inj hrest
  rw [not_or, not_or] at hinside
  obtain ⟨hbelow, habove, horder⟩ := hinside
  have hbelow' := UInt32.le_iff_toNat_le.mp (UInt32.not_lt.mp hbelow)
  have habove' := UInt32.le_iff_toNat_le.mp (UInt32.not_lt.mp habove)
  have horder' := UInt32.le_iff_toNat_le.mp (UInt32.not_lt.mp horder)
  have hne : (alignDown (layout.stackBottom + 3)).toNat ≠ 0 := fun hzero ↦
    hbegin (UInt32.toNat_inj.mp hzero)
  have hguard : (if alignDown (layout.stackBottom + stackLimitGuardBytes + 3) > alignDown safeEnd
      then alignDown safeEnd
      else alignDown (layout.stackBottom + stackLimitGuardBytes + 3)).toNat
      = min (alignDown (layout.stackBottom + stackLimitGuardBytes + 3)).toNat
          (alignDown safeEnd).toNat := by
    split
    · rename_i hclamped
      exact (Nat.min_eq_right (UInt32.lt_iff_toNat_lt.mp hclamped).le).symm
    · rename_i hclamped
      exact (Nat.min_eq_left (UInt32.le_iff_toNat_le.mp (UInt32.not_lt.mp hclamped))).symm
  constructor
  all_goals omega

/-- The guard strip and the painted region as `runtime_memory_begin` leaves them. -/
theorem Painting.words_begin (h : Painting layout stackMarker paintBegin stackGuardEnd paintEnd)
    (machine : MonitoredMachine) :
    (∀ address ∈ strip paintBegin stackGuardEnd,
        (runtimeMemoryBegin layout stackMarker machine).words address = stackGuardWord) ∧
      ∀ address ∈ strip stackGuardEnd paintEnd,
        (runtimeMemoryBegin layout stackMarker machine).words address = stackPaintWord := by
  have hregion := h.region
  have hwords : (runtimeMemoryBegin layout stackMarker machine).words
      = fillWords stackPaintWord stackGuardEnd paintEnd
          (fillWords stackGuardWord paintBegin stackGuardEnd machine.words) := by
    rw [runtimeMemoryBegin, h.bounds]
  rw [hwords]
  constructor
  · intro address hguard
    have hnot : address ∉ wordsBetween stackGuardEnd paintEnd := by
      rw [mem_wordsBetween_iff hregion.guard_aligned hregion.end_aligned]
      rintro ⟨hle, -⟩
      exact UInt32.not_lt.mpr hle hguard.2.1
    rw [fillWords_apply, if_neg hnot, fillWords_apply,
      if_pos ((mem_wordsBetween_iff hregion.begin_aligned hregion.guard_aligned).mpr hguard)]
  · intro address hpaint
    rw [fillWords_apply,
      if_pos ((mem_wordsBetween_iff hregion.guard_aligned hregion.end_aligned).mpr hpaint)]

theorem Painting.window_begin (h : Painting layout stackMarker paintBegin stackGuardEnd paintEnd)
    (machine : MonitoredMachine) :
    (runtimeMemoryBegin layout stackMarker machine).monitor.window
      = (paintBegin, stackGuardEnd, paintEnd) := by
  rw [runtimeMemoryBegin, h.bounds]
  rfl

end Region

/-! ## The scans at the end -/

/-- Some word of the guard strip is not the guard word. -/
def guardChanged (words : UInt32 → UInt32) (paintBegin stackGuardEnd : UInt32) : Bool :=
  (wordsBetween paintBegin stackGuardEnd).any fun address ↦ words address ≠ stackGuardWord

/-- Where the scan over the painted region ends. -/
def firstUsed (words : UInt32 → UInt32) (stackGuardEnd paintEnd : UInt32) : UInt32 :=
  ((wordsBetween stackGuardEnd paintEnd).find? fun address ↦
    words address ≠ stackPaintWord).getD paintEnd

/-- The words of memory that `runtime_memory_end` finds. -/
def finalWords (layout : MemoryLayout) (stackMarker : UInt32) (machine : MonitoredMachine)
    (events : List MemoryEvent) : UInt32 → UInt32 :=
  (run (memoryStep layout) (runtimeMemoryBegin layout stackMarker machine) events).words

/-- The words that were overwritten with other words since `runtime_memory_begin`. -/
def changed (layout : MemoryLayout) (stackMarker : UInt32) (machine : MonitoredMachine)
    (events : List MemoryEvent) : Set UInt32 :=
  {address | finalWords layout stackMarker machine events address
    ≠ (runtimeMemoryBegin layout stackMarker machine).words address}

section Scans

variable {layout : MemoryLayout} {stackMarker paintBegin stackGuardEnd paintEnd : UInt32}

theorem Region.guardChanged_iff (h : Region layout paintBegin stackGuardEnd paintEnd)
    (words : UInt32 → UInt32) :
    guardChanged words paintBegin stackGuardEnd = true ↔
      ∃ address ∈ strip paintBegin stackGuardEnd, words address ≠ stackGuardWord := by
  rw [guardChanged, List.any_eq_true]
  apply exists_congr
  intro address
  rw [mem_wordsBetween_iff h.begin_aligned h.guard_aligned, decide_eq_true_iff]

/-- The scan ends at the lowest word that has lost its paint, or at the end of the region. -/
theorem Region.firstUsed_spec (h : Region layout paintBegin stackGuardEnd paintEnd)
    (words : UInt32 → UInt32) :
    (firstUsed words stackGuardEnd paintEnd ∈ strip stackGuardEnd paintEnd ∧
        words (firstUsed words stackGuardEnd paintEnd) ≠ stackPaintWord ∧
        ∀ address ∈ strip stackGuardEnd paintEnd, words address ≠ stackPaintWord →
          firstUsed words stackGuardEnd paintEnd ≤ address) ∨
      (∀ address ∈ strip stackGuardEnd paintEnd, words address = stackPaintWord) ∧
        firstUsed words stackGuardEnd paintEnd = paintEnd := by
  have hmem {address : UInt32} : address ∈ wordsBetween stackGuardEnd paintEnd ↔
      address ∈ strip stackGuardEnd paintEnd :=
    mem_wordsBetween_iff h.guard_aligned h.end_aligned
  unfold firstUsed
  cases hfind : (wordsBetween stackGuardEnd paintEnd).find? fun address ↦
      words address ≠ stackPaintWord with
  | none =>
    refine Or.inr ⟨fun address haddress ↦ ?_, rfl⟩
    have hpainted := List.find?_eq_none.mp hfind address (hmem.mpr haddress)
    rwa [decide_eq_true_iff, not_not] at hpainted
  | some first =>
    obtain ⟨hfirst, hused, hleast⟩ := EarlyStop.find?_precedes
      (pairwise_wordsBetween h.guard_aligned h.end_aligned) hfind
    refine Or.inl ⟨hmem.mp hfirst, of_decide_eq_true hused, fun address haddress haddressUsed ↦ ?_⟩
    rcases hleast address (hmem.mpr haddress) (decide_eq_true haddressUsed) with rfl | hlt
    · exact UInt32.le_refl _
    · exact UInt32.le_of_lt hlt

theorem Region.firstUsed_mem (h : Region layout paintBegin stackGuardEnd paintEnd)
    (words : UInt32 → UInt32) :
    stackGuardEnd.toNat ≤ (firstUsed words stackGuardEnd paintEnd).toNat ∧
      (firstUsed words stackGuardEnd paintEnd).toNat ≤ paintEnd.toNat := by
  rcases h.firstUsed_spec words with ⟨⟨hle, hlt, -⟩, -⟩ | ⟨-, hend⟩
  · exact ⟨UInt32.le_iff_toNat_le.mp hle, (UInt32.lt_iff_toNat_lt.mp hlt).le⟩
  · rw [hend]
    exact ⟨h.guard_le, le_refl _⟩

/-- More used words are found no later. -/
theorem Region.firstUsed_le (h : Region layout paintBegin stackGuardEnd paintEnd)
    {words others : UInt32 → UInt32}
    (hused : ∀ address ∈ strip stackGuardEnd paintEnd, words address ≠ stackPaintWord →
      others address ≠ stackPaintWord) :
    (firstUsed others stackGuardEnd paintEnd).toNat
      ≤ (firstUsed words stackGuardEnd paintEnd).toNat := by
  rcases h.firstUsed_spec words with ⟨hmem, hne, -⟩ | ⟨-, hend⟩
  · rcases h.firstUsed_spec others with ⟨-, -, hleast⟩ | ⟨hpainted, -⟩
    · exact UInt32.le_iff_toNat_le.mp (hleast _ hmem (hused _ hmem hne))
    · exact absurd (hpainted _ hmem) (hused _ hmem hne)
  · rw [hend]
    exact (h.firstUsed_mem others).2

/-- What the window reports about the stack. -/
theorem Painting.report (h : Painting layout stackMarker paintBegin stackGuardEnd paintEnd)
    (machine : MonitoredMachine) (events : List MemoryEvent) :
    let words := finalWords layout stackMarker machine events
    let result := memoryWindow layout stackMarker machine events
    result.stackGuardCorrupted = guardChanged words paintBegin stackGuardEnd ∧
      result.stackHighWaterBytes =
        (if guardChanged words paintBegin stackGuardEnd then layout.stackTop - layout.stackBottom
        else layout.stackTop - firstUsed words stackGuardEnd paintEnd) ∧
      result.stackCapacityBytes = layout.stackTop - layout.stackBottom ∧
      result.stackUnusedBytes = excess (layout.stackTop - layout.stackBottom)
        result.stackHighWaterBytes := by
  have hwindow := (window_run layout (runtimeMemoryBegin layout stackMarker machine) events).trans
    (h.window_begin machine)
  unfold memoryWindow finalWords
  generalize run (memoryStep layout) (runtimeMemoryBegin layout stackMarker machine) events = last
    at hwindow
  obtain ⟨hbegin, hrest⟩ := Prod.mk.inj hwindow
  obtain ⟨hguard, hend⟩ := Prod.mk.inj hrest
  have huse : stackUse layout last =
      (if guardChanged last.words paintBegin stackGuardEnd then
          layout.stackTop - layout.stackBottom
        else layout.stackTop - firstUsed last.words stackGuardEnd paintEnd,
        guardChanged last.words paintBegin stackGuardEnd) := by
    unfold stackUse
    dsimp only
    rw [hbegin, hguard, hend, if_pos ⟨h.paintBegin_ne, h.paintEnd_ne⟩]
    rfl
  unfold runtimeMemoryEnd
  rw [huse]
  exact ⟨rfl, rfl, rfl, rfl⟩

end Scans

/-! ## Exactness -/

/-- What every window reports about the stack, for one layout and one place of the local
variable. -/
structure StackExact (layout : MemoryLayout)
    (stackMarker paintBegin stackGuardEnd paintEnd : UInt32) : Prop where
  corrupted : ∀ machine events,
    (∃ address ∈ strip paintBegin stackGuardEnd,
      address ∈ changed layout stackMarker machine events) →
    (memoryWindow layout stackMarker machine events).stackGuardCorrupted = true ∧
      layout.stackBottom.toNat
        + (memoryWindow layout stackMarker machine events).stackHighWaterBytes.toNat
        = layout.stackTop.toNat
  intact : ∀ machine events,
    (∀ address ∈ strip paintBegin stackGuardEnd,
      address ∉ changed layout stackMarker machine events) →
    (memoryWindow layout stackMarker machine events).stackGuardCorrupted = false ∧
      ∃ lowest : UInt32, lowest.toNat
          + (memoryWindow layout stackMarker machine events).stackHighWaterBytes.toNat
          = layout.stackTop.toNat ∧
        let words := finalWords layout stackMarker machine events
        (lowest ∈ strip stackGuardEnd paintEnd ∧ words lowest ≠ stackPaintWord ∧
            ∀ address ∈ strip stackGuardEnd paintEnd, words address ≠ stackPaintWord →
              lowest ≤ address) ∨
          (∀ address ∈ strip stackGuardEnd paintEnd, words address = stackPaintWord) ∧
            lowest = paintEnd
  conserved : ∀ machine events,
    let result := memoryWindow layout stackMarker machine events
    result.stackHighWaterBytes.toNat + result.stackUnusedBytes.toNat
        = result.stackCapacityBytes.toNat ∧
      layout.stackBottom.toNat + result.stackCapacityBytes.toNat = layout.stackTop.toNat
  monotone : ∀ machine events other others,
    (∀ address ∈ strip paintBegin paintEnd,
      address ∈ changed layout stackMarker machine events →
        address ∈ changed layout stackMarker other others) →
    (memoryWindow layout stackMarker machine events).stackHighWaterBytes
      ≤ (memoryWindow layout stackMarker other others).stackHighWaterBytes

section Exact

variable {layout : MemoryLayout} {stackMarker paintBegin stackGuardEnd paintEnd : UInt32}

/-- The guard strip has changed exactly when one of its words is not the guard word. -/
theorem Painting.guardChanged_iff
    (h : Painting layout stackMarker paintBegin stackGuardEnd paintEnd)
    (machine : MonitoredMachine) (events : List MemoryEvent) :
    guardChanged (finalWords layout stackMarker machine events) paintBegin stackGuardEnd = true ↔
      ∃ address ∈ strip paintBegin stackGuardEnd,
        address ∈ changed layout stackMarker machine events := by
  rw [h.region.guardChanged_iff]
  apply exists_congr
  intro address
  apply and_congr_right
  intro hmem
  rw [← (h.words_begin machine).1 address hmem]
  rfl

theorem Painting.used_iff (h : Painting layout stackMarker paintBegin stackGuardEnd paintEnd)
    (machine : MonitoredMachine) (events : List MemoryEvent) {address : UInt32}
    (hmem : address ∈ strip stackGuardEnd paintEnd) :
    finalWords layout stackMarker machine events address ≠ stackPaintWord ↔
      address ∈ changed layout stackMarker machine events := by
  rw [← (h.words_begin machine).2 address hmem]
  rfl

theorem Painting.bottom_le_top
    (h : Painting layout stackMarker paintBegin stackGuardEnd paintEnd) :
    layout.stackBottom.toNat ≤ layout.stackTop.toNat := by
  obtain ⟨hbottom, hbegin, hguard, htop, -⟩ := h.region
  omega

/-- The high water is the distance from `__StackTop` down to a place in the stack. -/
theorem Painting.highWater_of_corrupted
    (h : Painting layout stackMarker paintBegin stackGuardEnd paintEnd)
    (machine : MonitoredMachine) (events : List MemoryEvent)
    (hguard : guardChanged (finalWords layout stackMarker machine events) paintBegin stackGuardEnd
      = true) :
    layout.stackBottom.toNat
      + (memoryWindow layout stackMarker machine events).stackHighWaterBytes.toNat
      = layout.stackTop.toNat := by
  have hle := h.bottom_le_top
  obtain ⟨-, hhighWater, -⟩ := h.report machine events
  rw [hhighWater, if_pos hguard, UInt32.toNat_sub_of_le _ _ (UInt32.le_iff_toNat_le.mpr hle)]
  omega

theorem Painting.highWater_of_intact
    (h : Painting layout stackMarker paintBegin stackGuardEnd paintEnd)
    (machine : MonitoredMachine) (events : List MemoryEvent)
    (hguard : ¬guardChanged (finalWords layout stackMarker machine events) paintBegin
      stackGuardEnd = true) :
    (firstUsed (finalWords layout stackMarker machine events) stackGuardEnd paintEnd).toNat
      + (memoryWindow layout stackMarker machine events).stackHighWaterBytes.toNat
      = layout.stackTop.toNat := by
  obtain ⟨-, hhigh⟩ := h.region.firstUsed_mem (finalWords layout stackMarker machine events)
  have hle := hhigh.trans h.region.le_top
  obtain ⟨-, hhighWater, -⟩ := h.report machine events
  rw [hhighWater, if_neg hguard, UInt32.toNat_sub_of_le _ _ (UInt32.le_iff_toNat_le.mpr hle)]
  omega

/-- The high water is at most the capacity. -/
theorem Painting.bottom_add_highWater_le
    (h : Painting layout stackMarker paintBegin stackGuardEnd paintEnd)
    (machine : MonitoredMachine) (events : List MemoryEvent) :
    layout.stackBottom.toNat
      + (memoryWindow layout stackMarker machine events).stackHighWaterBytes.toNat
      ≤ layout.stackTop.toNat := by
  by_cases hguard : guardChanged (finalWords layout stackMarker machine events) paintBegin
      stackGuardEnd = true
  · exact (h.highWater_of_corrupted machine events hguard).le
  · have hhighWater := h.highWater_of_intact machine events hguard
    obtain ⟨hlow, -⟩ := h.region.firstUsed_mem (finalWords layout stackMarker machine events)
    obtain ⟨hbottom, hbegin, -⟩ := h.region
    omega

theorem toNat_excess (x y : UInt32) : (excess x y).toNat = x.toNat - y.toNat := by
  unfold excess
  split
  · rename_i hgt
    exact UInt32.toNat_sub_of_le _ _ (UInt32.le_of_lt hgt)
  · rename_i hle
    have hle' := UInt32.le_iff_toNat_le.mp (UInt32.not_lt.mp hle)
    exact (Nat.sub_eq_zero_of_le hle').symm

/-- For every layout and every run for which painting is on, the report is exact, and monotone in
the words that changed. -/
theorem stack_report_exact (h : Painting layout stackMarker paintBegin stackGuardEnd paintEnd) :
    StackExact layout stackMarker paintBegin stackGuardEnd paintEnd where
  corrupted machine events hchanged := by
    have hguard := (h.guardChanged_iff machine events).mpr hchanged
    exact ⟨(h.report machine events).1.trans hguard,
      h.highWater_of_corrupted machine events hguard⟩
  intact machine events hintact := by
    have hguard : ¬guardChanged (finalWords layout stackMarker machine events) paintBegin
        stackGuardEnd = true := by
      rw [h.guardChanged_iff machine events]
      rintro ⟨address, hmem, hchanged⟩
      exact hintact address hmem hchanged
    exact ⟨(h.report machine events).1.trans (eq_false_of_ne_true hguard), _,
      h.highWater_of_intact machine events hguard, h.region.firstUsed_spec _⟩
  conserved machine events := by
    have hle := h.bottom_le_top
    have hhighWater := h.bottom_add_highWater_le machine events
    obtain ⟨-, -, hcapacity, hunused⟩ := h.report machine events
    dsimp only
    rw [hunused, hcapacity, toNat_excess,
      UInt32.toNat_sub_of_le _ _ (UInt32.le_iff_toNat_le.mpr hle)]
    omega
  monotone machine events other others hmore := by
    have hle := h.bottom_add_highWater_le machine events
    have hregion := h.region
    apply UInt32.le_iff_toNat_le.mpr
    by_cases hother : guardChanged (finalWords layout stackMarker other others) paintBegin
        stackGuardEnd = true
    · have hhighWater := h.highWater_of_corrupted other others hother
      omega
    -- The other guard strip is intact, so this one is, and the other scan ends no higher up.
    have hguard : ¬guardChanged (finalWords layout stackMarker machine events) paintBegin
        stackGuardEnd = true := by
      rw [h.guardChanged_iff] at hother ⊢
      rintro ⟨address, hmem, hchanged⟩
      have hlt : address < paintEnd := UInt32.lt_iff_toNat_lt.mpr
        ((UInt32.lt_iff_toNat_lt.mp hmem.2.1).trans_le hregion.guard_le)
      exact hother ⟨address, hmem, hmore address ⟨hmem.1, hlt, hmem.2.2⟩ hchanged⟩
    have hfirst : (firstUsed (finalWords layout stackMarker other others) stackGuardEnd
          paintEnd).toNat
        ≤ (firstUsed (finalWords layout stackMarker machine events) stackGuardEnd
          paintEnd).toNat := by
      apply hregion.firstUsed_le
      intro address hmem hused
      have hle : paintBegin ≤ address := UInt32.le_iff_toNat_le.mpr
        (hregion.begin_le.trans (UInt32.le_iff_toNat_le.mp hmem.1))
      rw [h.used_iff _ _ hmem] at hused ⊢
      exact hmore address ⟨hle, hmem.2⟩ hused
    have hhighWater := h.highWater_of_intact machine events hguard
    have hhighWaterOther := h.highWater_of_intact other others hother
    omega

end Exact

/-- In the example layout the stack is painted from its bottom up to 128 bytes below the local
variable. -/
theorem stack_report_exact_example :
    StackExact exampleLayout 0x20041f00 0x20040000 0x20040040 0x20041e80 :=
  stack_report_exact ⟨by decide, by decide, by decide⟩

end PqMqtt.Firmware
