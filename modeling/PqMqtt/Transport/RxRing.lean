import PqMqtt.Foundation.CircularWindow

/-!
# The receive ring of both transports

`rx_push` runs in the lwIP receive callback and `rx_pop` in the foreground reader; both
transports carry the same code.  The three index fields are `uint16_t`, so every store is
reduced modulo `2 ^ 16`.  On a well-formed ring the two functions implement a queue of at most
`RX_BUF_CAP` bytes: `rx_push` appends the part of its input that fits and silently drops the
rest, `rx_pop` removes from the front.
-/

namespace PqMqtt.Transport

open CircularWindow

/-- `RX_BUF_CAP` -/
def rxBufCap : ℕ := 16384

/-- `rx_ring_t` -/
structure RxRing where
  data : ℕ → UInt8
  head : ℕ
  tail : ℕ
  avail : ℕ

namespace RxRing

/-- The ring of a connection object fresh from `calloc`. -/
def zeroed : RxRing := ⟨fun _ ↦ 0, 0, 0, 0⟩

/-- One iteration of the loop of `rx_push`. -/
def pushByte (ring : RxRing) (byte : UInt8) : RxRing where
  data := Function.update ring.data ring.head byte
  head := (ring.head + 1) % rxBufCap % 2 ^ 16
  tail := ring.tail
  avail := (ring.avail + 1) % 2 ^ 16

/-- `rx_push` -/
def rxPush (ring : RxRing) : List UInt8 → RxRing
  | [] => ring
  | byte :: src => if ring.avail < rxBufCap then rxPush (ring.pushByte byte) src else ring

/-- The index updates of one iteration of the loop of `rx_pop`. -/
def dropByte (ring : RxRing) : RxRing where
  data := ring.data
  head := ring.head
  tail := (ring.tail + 1) % rxBufCap % 2 ^ 16
  avail := (ring.avail + 2 ^ 16 - 1) % 2 ^ 16

/-- The loop of `rx_pop`, which moves `got` bytes to the destination. -/
def popBytes (ring : RxRing) : ℕ → List UInt8 × RxRing
  | 0 => ([], ring)
  | got + 1 =>
      let rest := popBytes ring.dropByte got
      (ring.data ring.tail :: rest.1, rest.2)

/-- `rx_pop` -/
def rxPop (ring : RxRing) (want : ℕ) : List UInt8 × RxRing :=
  ring.popBytes (if want < ring.avail then want else ring.avail)

/-- The queued bytes, oldest first. -/
def contents (ring : RxRing) : List UInt8 :=
  window rxBufCap ring.data ring.tail ring.avail

/-- The index invariant of the ring. -/
structure WellFormed (ring : RxRing) : Prop where
  avail_le : ring.avail ≤ rxBufCap
  head_lt : ring.head < rxBufCap
  tail_lt : ring.tail < rxBufCap
  head_eq : ring.head = (ring.tail + ring.avail) % rxBufCap

@[simp]
theorem contents_length (ring : RxRing) : ring.contents.length = ring.avail :=
  window_length ..

theorem wellFormed_zeroed : zeroed.WellFormed := by
  constructor <;> decide

theorem WellFormed.pushByte {ring : RxRing} (h : ring.WellFormed)
    (hroom : ring.avail < rxBufCap) (byte : UInt8) : (ring.pushByte byte).WellFormed := by
  obtain ⟨_, hhead, htail, heq⟩ := h
  constructor <;> simp only [RxRing.pushByte, rxBufCap] at * <;> omega

/-- Pushing one byte into a ring with room appends it to the queue. -/
theorem contents_pushByte {ring : RxRing} (h : ring.WellFormed)
    (hroom : ring.avail < rxBufCap) (byte : UInt8) :
    (ring.pushByte byte).contents = ring.contents ++ [byte] := by
  have havail : (ring.avail + 1) % 2 ^ 16 = ring.avail + 1 := by
    have := rxBufCap.eq_def
    omega
  simp only [contents, RxRing.pushByte, havail]
  rw [h.head_eq]
  exact window_write rxBufCap ring.data ring.tail ring.avail byte hroom

/-- `rx_push` keeps the index invariant and appends exactly what fits. -/
theorem rxPush_spec {ring : RxRing} (h : ring.WellFormed) (src : List UInt8) :
    (ring.rxPush src).WellFormed ∧
      (ring.rxPush src).contents = ring.contents ++ src.take (rxBufCap - ring.avail) := by
  induction src generalizing ring with
  | nil => simpa [rxPush] using h
  | cons byte src ih =>
    by_cases hroom : ring.avail < rxBufCap
    · obtain ⟨hwell, hcontents⟩ := ih (h.pushByte hroom byte)
      have hfree : rxBufCap - ring.avail = (rxBufCap - (ring.pushByte byte).avail) + 1 := by
        have := rxBufCap.eq_def
        simp only [RxRing.pushByte]
        omega
      rw [rxPush, if_pos hroom]
      refine ⟨hwell, ?_⟩
      rw [hcontents, contents_pushByte h hroom, hfree, List.take_succ_cons, List.append_assoc,
        List.singleton_append]
    · have hfree : rxBufCap - ring.avail = 0 := by omega
      rw [rxPush, if_neg hroom, hfree]
      simpa using h

theorem WellFormed.dropByte {ring : RxRing} (h : ring.WellFormed)
    (hsome : 0 < ring.avail) : ring.dropByte.WellFormed := by
  obtain ⟨havail, hhead, htail, heq⟩ := h
  constructor <;> simp only [RxRing.dropByte, rxBufCap] at * <;> omega

/-- A nonempty queue starts with the byte under `tail`. -/
theorem contents_eq_cons {ring : RxRing} (h : ring.WellFormed) (hsome : 0 < ring.avail) :
    ring.contents = ring.data ring.tail :: ring.dropByte.contents := by
  obtain ⟨count, hcount⟩ := Nat.exists_eq_add_of_lt hsome
  have hrest : (ring.avail + 2 ^ 16 - 1) % 2 ^ 16 = count := by
    have := rxBufCap.eq_def
    have := h.avail_le
    omega
  have htail : (ring.tail + 1) % rxBufCap % 2 ^ 16 = (ring.tail + 1) % rxBufCap := by
    unfold rxBufCap
    omega
  simp only [contents, RxRing.dropByte, hrest, htail, window_mod_start]
  rw [hcount, Nat.zero_add, window_succ_front, Nat.mod_eq_of_lt h.tail_lt]

theorem popBytes_spec {ring : RxRing} (h : ring.WellFormed) {got : ℕ}
    (hgot : got ≤ ring.avail) :
    (ring.popBytes got).2.WellFormed ∧
      (ring.popBytes got).1 = ring.contents.take got ∧
      (ring.popBytes got).2.contents = ring.contents.drop got := by
  induction got generalizing ring with
  | zero => simpa [popBytes] using h
  | succ got ih =>
    have hsome : 0 < ring.avail := by omega
    have hrest : got ≤ ring.dropByte.avail := by
      have := rxBufCap.eq_def
      have := h.avail_le
      simp only [RxRing.dropByte]
      omega
    obtain ⟨hwell, htaken, hleft⟩ := ih (h.dropByte hsome) hrest
    refine ⟨hwell, ?_, ?_⟩
    · rw [contents_eq_cons h hsome, List.take_succ_cons, ← htaken]
      rfl
    · rw [contents_eq_cons h hsome, List.drop_succ_cons, ← hleft]
      rfl

/-- `rx_pop` keeps the index invariant and moves the oldest bytes to the reader. -/
theorem rxPop_spec {ring : RxRing} (h : ring.WellFormed) (want : ℕ) :
    (ring.rxPop want).2.WellFormed ∧
      (ring.rxPop want).1 = ring.contents.take want ∧
      (ring.rxPop want).2.contents = ring.contents.drop want := by
  unfold rxPop
  split
  next hwant => exact popBytes_spec h hwant.le
  next hwant =>
    obtain ⟨hwell, htaken, hleft⟩ := popBytes_spec h (le_refl ring.avail)
    have hlength : ring.contents.length ≤ want := by rw [contents_length]; omega
    refine ⟨hwell, ?_, ?_⟩
    · rw [htaken, List.take_of_length_le hlength, List.take_of_length_le (by simp)]
    · rw [hleft, List.drop_of_length_le hlength, List.drop_of_length_le (by simp)]

end RxRing

end PqMqtt.Transport
