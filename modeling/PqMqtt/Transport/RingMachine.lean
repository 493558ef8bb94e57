import PqMqtt.Foundation.Accounting
import PqMqtt.Transport.RxRing

/-!
# The receive ring in 16 bits

The loops of `rx_push` and `rx_pop` with their `uint16_t` fields and counters.  A value that does
not fit into the variable it is stored to, and an index past the end of `data`, stop the machine.
From the zeroed ring it never stops, whatever the calls, and is a queue of bounded length.
-/

namespace PqMqtt.Transport

open Accounting (Memory firstBytes length_firstBytes)

/-- A value stored to a `uint16_t`. -/
def toU16 (n : ℕ) : Option UInt16 := if n < 2 ^ 16 then some (UInt16.ofNat n) else none

theorem toU16_eq {n : ℕ} (h : n < 2 ^ 16) : ∃ stored, toU16 n = some stored ∧ stored.toNat = n :=
  ⟨UInt16.ofNat n, if_pos h, UInt16.toNat_ofNat_of_lt' h⟩

/-- `rx_ring_t` -/
structure RingMachine where
  data : ℕ → UInt8
  head : UInt16
  tail : UInt16
  avail : UInt16

namespace RingMachine

def zeroed : RingMachine := ⟨fun _ ↦ 0, 0, 0, 0⟩

/-- The body of the loop of `rx_push`. -/
def storeByte (ring : RingMachine) (byte : UInt8) : Option RingMachine :=
  if ring.head.toNat < rxBufCap then do
    let head ← toU16 ((ring.head.toNat + 1) % rxBufCap)
    let avail ← toU16 (ring.avail.toNat + 1)
    some ⟨Function.update ring.data ring.head.toNat byte, head, ring.tail, avail⟩
  else none

/-- The loop of `rx_push` from `i` on, in as many rounds as the fuel allows. -/
def pushFrom (src : Memory) (n : UInt16) : ℕ → UInt16 → RingMachine → Option RingMachine
  | 0, i, ring => if i < n ∧ ring.avail.toNat < rxBufCap then none else some ring
  | fuel + 1, i, ring =>
    if i < n ∧ ring.avail.toNat < rxBufCap then do
      let ring ← ring.storeByte (src i.toNat)
      let i ← toU16 (i.toNat + 1)
      pushFrom src n fuel i ring
    else some ring

/-- `rx_push` -/
def rxPush (ring : RingMachine) (src : Memory) (n : UInt16) : Option RingMachine :=
  pushFrom src n n.toNat 0 ring

/-- The body of the loop of `rx_pop`. -/
def loadByte (ring : RingMachine) : Option (UInt8 × RingMachine) :=
  if ring.tail.toNat < rxBufCap ∧ 0 < ring.avail then do
    let tail ← toU16 ((ring.tail.toNat + 1) % rxBufCap)
    some (ring.data ring.tail.toNat, ⟨ring.data, ring.head, tail, ring.avail - 1⟩)
  else none

/-- The loop of `rx_pop` from `i` on; `dst` holds the bytes before `i`. -/
def popFrom (got : UInt16) :
    ℕ → UInt16 → List UInt8 → RingMachine → Option (List UInt8 × RingMachine)
  | 0, i, dst, ring => if i < got then none else some (dst, ring)
  | fuel + 1, i, dst, ring =>
    if i < got then do
      let (byte, ring) ← ring.loadByte
      let i ← toU16 (i.toNat + 1)
      popFrom got fuel i (dst ++ [byte]) ring
    else some (dst, ring)

/-- `rx_pop`: the return value, the bytes and the ring. -/
def rxPop (ring : RingMachine) (want : UInt16) : Option (UInt16 × List UInt8 × RingMachine) := do
  let got := if want < ring.avail then want else ring.avail
  let (dst, ring) ← popFrom got got.toNat 0 [] ring
  some (got, dst, ring)

/-! ## One round -/

/-- The ring with its fields as numbers. -/
def toRing (ring : RingMachine) : RxRing :=
  ⟨ring.data, ring.head.toNat, ring.tail.toNat, ring.avail.toNat⟩

theorem index_lt (n : ℕ) : n % rxBufCap < 2 ^ 16 :=
  (Nat.mod_lt n (by decide)).trans (by decide)

theorem storeByte_eq {ring : RingMachine} (h : ring.toRing.WellFormed)
    (hroom : ring.avail.toNat < rxBufCap) (byte : UInt8) :
    ∃ next, ring.storeByte byte = some next ∧ next.toRing = ring.toRing.pushByte byte := by
  have hcap : rxBufCap = 16384 := rfl
  have hindex := index_lt (ring.head.toNat + 1)
  have hcount : ring.avail.toNat + 1 < 2 ^ 16 := by omega
  obtain ⟨head, hhead, hheadValue⟩ := toU16_eq hindex
  obtain ⟨avail, havail, havailValue⟩ := toU16_eq hcount
  have hlt : ring.head.toNat < rxBufCap := h.head_lt
  refine ⟨⟨Function.update ring.data ring.head.toNat byte, head, ring.tail, avail⟩, ?_, ?_⟩
  · rw [storeByte, if_pos hlt, hhead, havail]
    rfl
  · rw [toRing, RxRing.pushByte]
    simp only [toRing, hheadValue, havailValue, Nat.mod_eq_of_lt hindex, Nat.mod_eq_of_lt hcount]

theorem loadByte_eq {ring : RingMachine} (h : ring.toRing.WellFormed)
    (hsome : 0 < ring.avail.toNat) :
    ∃ next, ring.loadByte = some (ring.data ring.tail.toNat, next) ∧
      next.toRing = ring.toRing.dropByte := by
  have hcap : rxBufCap = 16384 := rfl
  have hindex := index_lt (ring.tail.toNat + 1)
  have havailLt := ring.avail.toNat_lt
  obtain ⟨tail, htail, htailValue⟩ := toU16_eq hindex
  have hlt : ring.tail.toNat < rxBufCap := h.tail_lt
  have hpos : 0 < ring.avail := UInt16.lt_iff_toNat_lt.mpr hsome
  have hone : (1 : UInt16) ≤ ring.avail := UInt16.le_iff_toNat_le.mpr hsome
  have havail : (ring.avail - 1).toNat = (ring.avail.toNat + 2 ^ 16 - 1) % 2 ^ 16 := by
    rw [UInt16.toNat_sub_of_le _ _ hone]
    change ring.avail.toNat - 1 = _
    omega
  refine ⟨⟨ring.data, ring.head, tail, ring.avail - 1⟩, ?_, ?_⟩
  · rw [loadByte, if_pos ⟨hlt, hpos⟩, htail]
    rfl
  · rw [toRing, RxRing.dropByte]
    simp only [toRing, htailValue, Nat.mod_eq_of_lt hindex, havail]

/-! ## The loops -/

/-- The bytes of a buffer from one index up to another. -/
def bytesFrom (src : Memory) (first last : ℕ) : List UInt8 :=
  (List.range' first (last - first)).map src

theorem bytesFrom_eq_cons (src : Memory) {first last : ℕ} (h : first < last) :
    bytesFrom src first last = src first :: bytesFrom src (first + 1) last := by
  obtain ⟨count, rfl⟩ := Nat.exists_eq_add_of_lt h
  have hmany : first + count + 1 - first = count + 1 := by omega
  have hrest : first + count + 1 - (first + 1) = count := by omega
  rw [bytesFrom, bytesFrom, hmany, hrest, List.range'_succ, List.map_cons]

/-- The loop of `rx_push` ends at `n`, or where the ring is full. -/
theorem rxPush_of_exit (src : Memory) {ring : RingMachine} {n i : UInt16}
    (h : ¬(i < n ∧ ring.avail.toNat < rxBufCap)) :
    ring.toRing.rxPush (bytesFrom src i.toNat n.toNat) = ring.toRing := by
  by_cases hlt : i.toNat < n.toNat
  · have hfull : ¬ring.toRing.avail < rxBufCap :=
      fun hroom ↦ h ⟨UInt16.lt_iff_toNat_lt.mpr hlt, hroom⟩
    rw [bytesFrom_eq_cons src hlt, RxRing.rxPush, if_neg hfull]
  · have hnone : n.toNat - i.toNat = 0 := by omega
    rw [bytesFrom, hnone]
    rfl

theorem pushFrom_eq (src : Memory) {ring : RingMachine} (h : ring.toRing.WellFormed)
    {n i : UInt16} {fuel : ℕ} (hfuel : n.toNat ≤ i.toNat + fuel) :
    ∃ after, pushFrom src n fuel i ring = some after ∧
      after.toRing = ring.toRing.rxPush (bytesFrom src i.toNat n.toNat) := by
  induction fuel generalizing ring i with
  | zero =>
    have hexit : ¬(i < n ∧ ring.avail.toNat < rxBufCap) := by
      rw [UInt16.lt_iff_toNat_lt]
      omega
    refine ⟨ring, ?_, (rxPush_of_exit src hexit).symm⟩
    rw [pushFrom, if_neg hexit]
  | succ fuel ih =>
    by_cases hgoes : i < n ∧ ring.avail.toNat < rxBufCap
    · have hlt : i.toNat < n.toNat := UInt16.lt_iff_toNat_lt.mp hgoes.1
      have hn := n.toNat_lt
      obtain ⟨next, hstore, hnext⟩ := storeByte_eq h hgoes.2 (src i.toNat)
      obtain ⟨j, hj, hjValue⟩ := toU16_eq (n := i.toNat + 1) (by omega)
      have hwell : next.toRing.WellFormed := by
        rw [hnext]
        exact h.pushByte hgoes.2 _
      obtain ⟨after, hafter, hring⟩ := ih hwell (i := j) (by omega)
      refine ⟨after, ?_, ?_⟩
      · rw [pushFrom, if_pos hgoes]
        simp only [hstore, hj, Option.bind_eq_bind, Option.bind_some]
        exact hafter
      · have hroom : ring.toRing.avail < rxBufCap := hgoes.2
        rw [hring, hjValue, hnext, bytesFrom_eq_cons src hlt, RxRing.rxPush, if_pos hroom]
    · refine ⟨ring, ?_, (rxPush_of_exit src hgoes).symm⟩
      rw [pushFrom, if_neg hgoes]

theorem popBytes_of_exit (ring : RingMachine) {got i : UInt16} (h : ¬i < got) :
    ring.toRing.popBytes (got.toNat - i.toNat) = ([], ring.toRing) := by
  rw [UInt16.lt_iff_toNat_lt, not_lt] at h
  rw [Nat.sub_eq_zero_of_le h, RxRing.popBytes]

theorem popFrom_eq {ring : RingMachine} (h : ring.toRing.WellFormed) {got i : UInt16}
    {fuel : ℕ} (hfuel : got.toNat ≤ i.toNat + fuel)
    (hgot : got.toNat - i.toNat ≤ ring.avail.toNat) (dst : List UInt8) :
    ∃ after, popFrom got fuel i dst ring
        = some (dst ++ (ring.toRing.popBytes (got.toNat - i.toNat)).1, after) ∧
      after.toRing = (ring.toRing.popBytes (got.toNat - i.toNat)).2 := by
  induction fuel generalizing ring i dst with
  | zero =>
    have hexit : ¬i < got := by
      rw [UInt16.lt_iff_toNat_lt]
      omega
    rw [popBytes_of_exit ring hexit, List.append_nil]
    exact ⟨ring, by rw [popFrom, if_neg hexit], rfl⟩
  | succ fuel ih =>
    by_cases hgoes : i < got
    · have hlt : i.toNat < got.toNat := UInt16.lt_iff_toNat_lt.mp hgoes
      have hlast := got.toNat_lt
      have hsome : 0 < ring.avail.toNat := by omega
      have havail : ring.avail.toNat ≤ rxBufCap := h.avail_le
      have hcap : rxBufCap = 16384 := rfl
      obtain ⟨next, hload, hnext⟩ := loadByte_eq h hsome
      obtain ⟨j, hj, hjValue⟩ := toU16_eq (n := i.toNat + 1) (by omega)
      have hwell : next.toRing.WellFormed := by
        rw [hnext]
        exact h.dropByte hsome
      have hleft : next.avail.toNat = (ring.avail.toNat + 2 ^ 16 - 1) % 2 ^ 16 :=
        congrArg RxRing.avail hnext
      obtain ⟨count, hcount⟩ := Nat.exists_eq_add_of_lt hlt
      have hmany : got.toNat - i.toNat = count + 1 := by omega
      have hrest : got.toNat - j.toNat = count := by omega
      obtain ⟨after, hafter, hring⟩ := ih hwell (i := j) (by omega) (by omega)
        (dst ++ [ring.data ring.tail.toNat])
      rw [hrest, hnext] at hafter hring
      rw [hmany, RxRing.popBytes]
      refine ⟨after, ?_, hring⟩
      rw [popFrom, if_pos hgoes, hload]
      simp only [Option.bind_eq_bind, Option.bind_some, hj]
      rw [hafter, List.append_assoc]
      rfl
    · rw [popBytes_of_exit ring hgoes, List.append_nil]
      exact ⟨ring, by rw [popFrom, if_neg hgoes], rfl⟩

/-! ## Calls in sequence -/

/-- The queued bytes, oldest first. -/
def contents (ring : RingMachine) : List UInt8 := ring.toRing.contents

theorem bytesFrom_zero (src : Memory) (n : ℕ) : bytesFrom src 0 n = firstBytes src n := by
  rw [bytesFrom, firstBytes, List.range_eq_range', Nat.sub_zero]

/-- `rx_push` never stops, and appends what fits. -/
theorem rxPush_eq {ring : RingMachine} (h : ring.toRing.WellFormed) (src : Memory) (n : UInt16) :
    ∃ after, ring.rxPush src n = some after ∧ after.toRing.WellFormed ∧
      after.contents
        = ring.contents ++ (firstBytes src n.toNat).take (rxBufCap - ring.contents.length) := by
  have hfuel : n.toNat ≤ (0 : UInt16).toNat + n.toNat := Nat.le_add_left _ _
  obtain ⟨after, hafter, hring⟩ := pushFrom_eq src h hfuel
  obtain ⟨hwell, hcontents⟩ := RxRing.rxPush_spec h (firstBytes src n.toNat)
  have hbytes : bytesFrom src (0 : UInt16).toNat n.toNat = firstBytes src n.toNat :=
    bytesFrom_zero src n.toNat
  rw [hbytes] at hring
  refine ⟨after, hafter, ?_, ?_⟩
  · rwa [hring]
  · rw [contents, hring, hcontents, contents, RxRing.contents_length]

/-- `rx_pop` never stops, and removes what it returns. -/
theorem rxPop_eq {ring : RingMachine} (h : ring.toRing.WellFormed) (want : UInt16) :
    ∃ after, ring.rxPop want = some (UInt16.ofNat (ring.contents.take want.toNat).length,
        ring.contents.take want.toNat, after) ∧
      after.toRing.WellFormed ∧ after.contents = ring.contents.drop want.toNat := by
  obtain ⟨got, hgot⟩ : ∃ got, got = if want < ring.avail then want else ring.avail := ⟨_, rfl⟩
  have hgotNat : got.toNat
      = if want.toNat < ring.avail.toNat then want.toNat else ring.avail.toNat := by
    rw [hgot]
    simp only [UInt16.lt_iff_toNat_lt]
    split_ifs <;> rfl
  have hpopped : ring.toRing.rxPop want.toNat = ring.toRing.popBytes got.toNat := by
    rw [hgotNat]
    rfl
  obtain ⟨hwell, htaken, hleft⟩ := RxRing.rxPop_spec h want.toNat
  rw [hpopped] at hwell htaken hleft
  have hfuel : got.toNat ≤ (0 : UInt16).toNat + got.toNat := Nat.le_add_left _ _
  have hle : got.toNat - (0 : UInt16).toNat ≤ ring.avail.toNat := by
    rw [hgotNat]
    split_ifs <;> omega
  obtain ⟨after, hafter, hring⟩ := popFrom_eq h hfuel hle []
  have hzero : got.toNat - (0 : UInt16).toNat = got.toNat := rfl
  rw [hzero, List.nil_append] at hafter
  rw [hzero] at hring
  have hlength : UInt16.ofNat (ring.contents.take want.toNat).length = got := by
    have hcontents : ring.contents.length = ring.avail.toNat := RxRing.contents_length _
    have hshort : min want.toNat ring.avail.toNat < UInt16.size :=
      (min_le_left _ _).trans_lt want.toNat_lt
    apply UInt16.toNat.inj
    rw [List.length_take, hcontents, UInt16.toNat_ofNat_of_lt' hshort, hgotNat]
    split_ifs <;> omega
  refine ⟨after, ?_, ?_, ?_⟩
  · rw [rxPop, hlength, ← hgot]
    dsimp only
    rw [hafter, htaken]
    rfl
  · rwa [hring]
  · rw [contents, hring]
    exact hleft

end RingMachine

/-- The calls of both sides of the ring. -/
inductive RingCall where
  | push (src : Memory) (n : UInt16)
  | pop (want : UInt16)

namespace RingCall

/-- The return value of `rx_pop` and its bytes. -/
abbrev Reply := Option (UInt16 × List UInt8)

def run (ring : RingMachine) : RingCall → Option (Reply × RingMachine)
  | push src n => do
    let ring ← ring.rxPush src n
    some (none, ring)
  | pop want => do
    let (got, dst, ring) ← ring.rxPop want
    some (some (got, dst), ring)

/-- A queue of at most `RX_BUF_CAP` bytes. -/
def onQueue (queue : List UInt8) : RingCall → Reply × List UInt8
  | push src n => (none, queue ++ (firstBytes src n.toNat).take (rxBufCap - queue.length))
  | pop want =>
    let bytes := queue.take want.toNat
    (some (UInt16.ofNat bytes.length, bytes), queue.drop want.toNat)

end RingCall

/-- The replies to calls, and the ring after them. -/
def runCalls : List RingCall → RingMachine → Option (List RingCall.Reply × RingMachine)
  | [], ring => some ([], ring)
  | call :: calls, ring => do
    let (reply, ring) ← call.run ring
    let (replies, ring) ← runCalls calls ring
    some (reply :: replies, ring)

def queueCalls : List RingCall → List UInt8 → List RingCall.Reply × List UInt8
  | [], queue => ([], queue)
  | call :: calls, queue =>
    let (reply, queue) := call.onQueue queue
    let (replies, queue) := queueCalls calls queue
    (reply :: replies, queue)

/-- A call does to the ring what it does to the queue. -/
theorem RingCall.run_eq (call : RingCall) {ring : RingMachine} (h : ring.toRing.WellFormed) :
    ∃ after, call.run ring = some ((call.onQueue ring.contents).1, after) ∧
      after.toRing.WellFormed ∧ after.contents = (call.onQueue ring.contents).2 := by
  cases call with
  | push src n =>
    obtain ⟨after, hafter, hwell, hcontents⟩ := RingMachine.rxPush_eq h src n
    refine ⟨after, ?_, hwell, hcontents⟩
    rw [run, hafter]
    rfl
  | pop want =>
    obtain ⟨after, hafter, hwell, hcontents⟩ := RingMachine.rxPop_eq h want
    refine ⟨after, ?_, hwell, hcontents⟩
    rw [run, hafter]
    rfl

theorem runCalls_eq (calls : List RingCall) {ring : RingMachine} (h : ring.toRing.WellFormed) :
    ∃ after, runCalls calls ring = some ((queueCalls calls ring.contents).1, after) ∧
      after.toRing.WellFormed ∧ after.contents = (queueCalls calls ring.contents).2 := by
  induction calls generalizing ring with
  | nil => exact ⟨ring, rfl, h, rfl⟩
  | cons call calls ih =>
    obtain ⟨next, hnext, hwell, hcontents⟩ := call.run_eq h
    obtain ⟨after, hafter, hrest⟩ := ih hwell
    rw [hcontents] at hafter hrest
    refine ⟨after, ?_, hrest⟩
    rw [runCalls, hnext]
    simp only [Option.bind_eq_bind, Option.bind_some, hafter]
    rfl

/-- From the zeroed ring, no sequence of calls stores a value that does not fit or leaves the
array; the replies are those of a queue of at most `RX_BUF_CAP` bytes, and so is the ring. -/
theorem ring_refines_queue (calls : List RingCall) :
    ∃ ring, runCalls calls .zeroed = some ((queueCalls calls []).1, ring) ∧
      ring.toRing.WellFormed ∧ ring.contents = (queueCalls calls []).2 :=
  runCalls_eq calls RxRing.wellFormed_zeroed

end PqMqtt.Transport
