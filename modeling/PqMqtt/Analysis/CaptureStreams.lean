import Mathlib.Data.List.ReduceOption
import PqMqtt.Analysis.AttemptMatching
import PqMqtt.Analysis.PrimitiveRows
import PqMqtt.Foundation.Grouping

/-!
# Connections of a capture

`extract` and `summarize_capture` of `analyze_tls_pcaps.py`: the lines that tshark prints become
packets, the packets are collected under their TCP streams, and every stream that the client
opened becomes one row.  A capture interleaves the packets of different connections; the rows
depend on the packets of each connection alone, and together they account for every packet of the
connections.
-/

namespace PqMqtt.Analysis.TlsPcaps

open Binary64 Delimited Grouping

/-! ## Packets -/

/-- `FIELDS` -/
def fields : List String :=
  ["frame.number", "frame.time_epoch", "frame.len", "ip.src", "ip.dst",
    "tcp.stream", "tcp.srcport", "tcp.dstport", "tcp.len", "tcp.flags.syn",
    "tcp.flags.ack", "tcp.flags.reset", "tcp.analysis.retransmission",
    "tcp.analysis.duplicate_ack", "tcp.analysis.out_of_order",
    "tcp.analysis.ack_rtt", "tls.record.length", "tls.alert_message"]

/-- A packet has a text for every field of `fields`, and only these are read. -/
abbrev Packet := String → Text

/-- `truthy` -/
def truthy (value : Text) : Bool :=
  !(["".toList, "0".toList, "False".toList, "false".toList].contains value)

/-- `integer` -/
def integer (value : Text) : Except PyError ℤ := if value = [] then .ok 0 else pyInt value

/-- The dictionary of one line. -/
def packetOfLine (line : Text) : Packet :=
  let values := line.splitOn '\t'
  let values := values ++ List.replicate (fields.length - values.length) []
  fun field ↦ ((fields.zip values).lookup field).getD []

/-- `extract`, from the text that tshark prints. -/
def extract (stdout : Text) : List Packet :=
  (splitlines (universalNewlines stdout)).map packetOfLine

/-! ## Streams -/

/-- One round of the loop that collects the streams. -/
def appendPacket (streams : List (ℤ × List Packet)) (packet : Packet) :
    Except PyError (List (ℤ × List Packet)) :=
  if packet "tcp.stream" = [] then .ok streams
  else do
    let stream ← integer (packet "tcp.stream")
    .ok (addRow (fun _ ↦ stream) streams packet)

/-- `streams` -/
def collectStreams (packets : List Packet) : Except PyError (List (ℤ × List Packet)) :=
  packets.foldlM appendPacket []

/-- The cells of a manifest row that has all the required columns. -/
structure Target where
  scheme : Option Text
  board : Option Text
  campaign : Option Text
  clientIp : Option Text
  serverIp : Option Text
deriving DecidableEq

/-- The first segment of a connection that the client opens, or a copy of it. -/
def InitialSyn (target : Target) (packet : Packet) : Bool :=
  some (packet "ip.src") = target.clientIp && some (packet "ip.dst") = target.serverIp &&
    truthy (packet "tcp.flags.syn") && !truthy (packet "tcp.flags.ack")

/-- A stream that the client opened, with the time of its first segment. -/
structure Opened where
  time : Double
  stream : ℤ
  group : List Packet

/-- The tuple that is appended to `candidates`, if any. -/
def opened (target : Target) (entry : ℤ × List Packet) : Except PyError (Option Opened) :=
  match entry.2.filter (InitialSyn target) with
  | [] => .ok none
  | first :: _ => do
    let time ← pyFloat (first "frame.time_epoch")
    .ok (some ⟨time, entry.1, entry.2⟩)

/-- `first < second` of two tuples; no two of them have the same stream. -/
def Opened.lt (first second : Opened) : Bool :=
  if first.time = second.time ∧ first.time ≠ .nan then first.stream < second.stream
  else first.time.lt second.time

/-- `candidates.sort()`; every stable method gives the same list when no time is NaN. -/
def sortOpened (candidates : List Opened) : List Opened :=
  candidates.insertionSort fun first second ↦ second.lt first = false

/-! ## Rows -/

/-- `sum(integer(packet[column]) for packet in packets)` -/
def total (column : String) (packets : List Packet) : Except PyError ℤ := do
  let values ← packets.mapM fun packet ↦ integer (packet column)
  .ok values.sum

/-- `sum(truthy(packet[column]) for packet in packets)` -/
def count (column : String) (packets : List Packet) : ℕ :=
  packets.countP fun packet ↦ truthy (packet column)

/-- The parts of `packet[column].split("|")` that are not empty. -/
def parts (column : String) (packet : Packet) : List Text :=
  ((packet column).splitOn '|').filter (· ≠ [])

/-- `min(times)` -/
def earliest : List Double → Double
  | [] => .nan
  | time :: times => times.foldl (fun least other ↦ if other.lt least then other else least) time

/-- `max(times)` -/
def latest : List Double → Double
  | [] => .nan
  | time :: times => times.foldl (fun most other ↦ if most.lt other then other else most) time

/-- `max(lengths, default=0)` -/
def largest : List ℤ → ℤ
  | [] => 0
  | length :: lengths => lengths.foldl max length

/-- `statistics.median` of floats. -/
def median (values : List Double) : Double :=
  let data := values.insertionSort fun first second ↦ second.lt first = false
  let i := data.length / 2
  if data.length % 2 = 1 then data.getD i .nan
  else ((data.getD (i - 1) .nan).add (data.getD i .nan)).div (.fin 2)

/-- The dictionary of one connection. -/
structure ConnectionRow where
  scheme : Option Text
  board : Option Text
  campaign : Option Text
  run : ℕ
  runMatchMethod : Text
  tcpStream : ℤ
  streamStartEpochMs : Double
  durationMs : Double
  clientToServerPayloadBytes : ℤ
  serverToClientPayloadBytes : ℤ
  clientToServerWireBytes : ℤ
  serverToClientWireBytes : ℤ
  totalWireBytes : ℤ
  tcpSegmentCount : ℕ
  fullSizedTcpSegments : ℕ
  tlsRecordCount : ℕ
  largestTlsRecordBytes : ℤ
  tcpRetransmissions : ℕ
  duplicateAcks : ℕ
  outOfOrderSegments : ℕ
  estimatedRttMs : Option Double
  tcpConnectionRetries : ℕ
  connectionResets : ℕ
  tlsAlerts : Text
  hasRetransmission : ℕ
deriving DecidableEq

/-- The packets that an endpoint sent. -/
def sentBy (endpoint : Option Text) (group : List Packet) : List Packet :=
  group.filter fun packet ↦ some (packet "ip.src") = endpoint

/-- A segment that opens the connection once more. -/
def SynRetry (packet : Packet) : Bool :=
  truthy (packet "tcp.analysis.retransmission") && truthy (packet "tcp.flags.syn") &&
    !truthy (packet "tcp.flags.ack")

/-- The body of the loop over the sorted candidates. -/
def connectionRow (target : Target) (fullSegment : ℤ) (run : ℕ) (connection : Opened) :
    Except PyError ConnectionRow := do
  let group := connection.group
  let clientPackets := sentBy target.clientIp group
  let serverPackets := sentBy target.serverIp group
  let rtts ← ((group.map (· "tcp.analysis.ack_rtt")).filter (· ≠ [])).mapM pyFloat
  let rtts := rtts.map fun rtt ↦ rtt.mul (.fin 1000)
  let tlsLengths ← (group.flatMap (parts "tls.record.length")).mapM integer
  let alerts := group.flatMap (parts "tls.alert_message")
  let times ← group.mapM fun packet ↦ pyFloat (packet "frame.time_epoch")
  let retransmissions := count "tcp.analysis.retransmission" group
  let clientPayload ← total "tcp.len" clientPackets
  let serverPayload ← total "tcp.len" serverPackets
  let clientWire ← total "frame.len" clientPackets
  let serverWire ← total "frame.len" serverPackets
  let wire ← total "frame.len" group
  let lengths ← group.mapM fun packet ↦ integer (packet "tcp.len")
  .ok
    { scheme := target.scheme
      board := target.board
      campaign := target.campaign
      run := run
      runMatchMethod := "sequential".toList
      tcpStream := connection.stream
      streamStartEpochMs := (earliest times).mul (.fin 1000)
      durationMs := ((latest times).sub (earliest times)).mul (.fin 1000)
      clientToServerPayloadBytes := clientPayload
      serverToClientPayloadBytes := serverPayload
      clientToServerWireBytes := clientWire
      serverToClientWireBytes := serverWire
      totalWireBytes := wire
      tcpSegmentCount := group.length
      fullSizedTcpSegments := lengths.countP fun length ↦ fullSegment ≤ length
      tlsRecordCount := tlsLengths.length
      largestTlsRecordBytes := largest tlsLengths
      tcpRetransmissions := retransmissions
      duplicateAcks := count "tcp.analysis.duplicate_ack" group
      outOfOrderSegments := count "tcp.analysis.out_of_order" group
      estimatedRttMs := if rtts = [] then none else some (median rtts)
      tcpConnectionRetries := clientPackets.countP SynRetry
      connectionResets := count "tcp.flags.reset" group
      tlsAlerts := List.intercalate ['|'] alerts
      hasRetransmission := if 0 < retransmissions then 1 else 0 }

/-- `candidates` before and after `candidates.sort()`. -/
def openedStreams (target : Target) (streams : List (ℤ × List Packet)) :
    Except PyError (List Opened) := do
  let candidates ← streams.mapM (opened target)
  .ok (sortOpened candidates.reduceOption)

/-- `summarize_capture` -/
def summarizeCapture (target : Target) (packets : List Packet) (fullSegment : ℤ) :
    Except PyError (List ConnectionRow) := do
  let streams ← collectStreams packets
  let candidates ← openedStreams target streams
  candidates.zipIdx.mapM fun numbered ↦ connectionRow target fullSegment numbered.2 numbered.1

/-! ## Conversions that raise one exception -/

/-- Whatever is raised is a `ValueError`. -/
def OnlyValueErrors {α : Type} (result : Except PyError α) : Prop :=
  ∀ error, result = .error error → error = .valueError

theorem onlyValueErrors_ok {α : Type} (value : α) : OnlyValueErrors (.ok value) := by
  intro error h
  cases h

theorem onlyValueErrors_bind {α β : Type} {first : Except PyError α} {next : α → Except PyError β}
    (hfirst : OnlyValueErrors first) (hnext : ∀ a, OnlyValueErrors (next a)) :
    OnlyValueErrors (first >>= next) := by
  intro error h
  rcases bind_eq_error_iff.mp h with h | ⟨a, -, h⟩
  · exact hfirst error h
  · exact hnext a error h

theorem onlyValueErrors_valueError {α : Type} :
    OnlyValueErrors (.error .valueError : Except PyError α) := by
  intro error h
  exact (Except.error.inj h).symm

theorem onlyValueErrors_integer (value : Text) : OnlyValueErrors (integer value) := by
  unfold integer
  split
  · exact onlyValueErrors_ok 0
  unfold pyInt
  split
  · split
    · exact onlyValueErrors_valueError
    · exact onlyValueErrors_ok _
  · exact onlyValueErrors_valueError

theorem onlyValueErrors_pyFloat (text : Text) : OnlyValueErrors (pyFloat text) := by
  unfold pyFloat
  dsimp only
  split
  · exact onlyValueErrors_ok _
  split
  · exact onlyValueErrors_ok _
  split
  · exact onlyValueErrors_ok _
  · exact onlyValueErrors_valueError

/-- A loop of such conversions gives the values of its items, or raises that exception. -/
theorem mapM_eq_ite {α β : Type} {f : α → Except PyError β}
    (honly : ∀ item, OnlyValueErrors (f item)) (items : List α) :
    items.mapM f =
      if ∀ item ∈ items, (f item).isOk = true then
        .ok (items.filterMap fun item ↦ (f item).toOption)
      else .error .valueError := by
  induction items with
  | nil => rfl
  | cons item items ih =>
    rw [List.mapM_cons, ih]
    cases hitem : f item with
    | error error =>
      have hnot : ¬∀ other ∈ item :: items, (f other).isOk = true := by
        intro hall
        have hok := hall item (List.mem_cons_self ..)
        rw [hitem] at hok
        cases hok
      rw [if_neg hnot, honly item error hitem]
      rfl
    | ok value =>
      simp only [List.forall_mem_cons, hitem, List.filterMap_cons]
      by_cases hall : ∀ other ∈ items, (f other).isOk = true
      · rw [if_pos hall, if_pos ⟨rfl, hall⟩]
        rfl
      · rw [if_neg hall, if_neg fun h ↦ hall h.2]
        rfl

/-- The order of the items does not matter for what a loop raises; its results are permuted. -/
theorem mapM_perm {α β : Type} {f : α → Except PyError β} (honly : ∀ item, OnlyValueErrors (f item))
    {items others : List α} (h : items.Perm others) :
    (items.mapM f = .error .valueError ∧ others.mapM f = .error .valueError) ∨
      ∃ results more, items.mapM f = .ok results ∧ others.mapM f = .ok more ∧
        results.Perm more := by
  rw [mapM_eq_ite honly items, mapM_eq_ite honly others]
  have hall : (∀ item ∈ items, (f item).isOk = true) ↔ ∀ item ∈ others, (f item).isOk = true :=
    forall_congr' fun item ↦ by rw [h.mem_iff]
  by_cases hitems : ∀ item ∈ items, (f item).isOk = true
  · right
    rw [if_pos hitems, if_pos (hall.mp hitems)]
    exact ⟨_, _, rfl, rfl, h.filterMap _⟩
  · left
    rw [if_neg hitems, if_neg fun h ↦ hitems (hall.mpr h)]
    exact ⟨rfl, rfl⟩

/-! ## Reading the lines -/

theorem splitlines_unlines {lines : List Text}
    (h : ∀ line ∈ lines, ∀ c ∈ line, isLineBoundary c = false) :
    splitlines (unlines '\n' lines) = lines := by
  induction lines with
  | nil => rfl
  | cons line lines ih =>
    rw [List.forall_mem_cons] at h
    rw [unlines_cons, splitlines_line_append h.1, ih h.2]

/-- The values of a packet, in the order of the columns. -/
def Packet.values (packet : Packet) : List Text := fields.map packet

/-- The line that tshark prints for a packet. -/
def Packet.line (packet : Packet) : Text := List.intercalate ['\t'] packet.values

/-- The text that tshark prints. -/
def tsharkOutput (packets : List Packet) : Text := unlines '\n' (packets.map Packet.line)

/-- Characters of a value. -/
def InValue (c : Char) : Prop := isLineBoundary c = false ∧ c ≠ '\t'

instance : DecidablePred InValue := fun _ ↦ instDecidableAnd

/-- A packet with printable values, and nothing beyond its columns. -/
structure Packet.Printable (packet : Packet) : Prop where
  values : ∀ field ∈ fields, ∀ c ∈ packet field, InValue c
  others : ∀ field, field ∉ fields → packet field = []

theorem lookup_zip_map {names : List String} (packet : Packet) (field : String) :
    ((names.zip (names.map packet)).lookup field).getD [] =
      if field ∈ names then packet field else [] := by
  induction names with
  | nil => rfl
  | cons name names ih =>
    rw [List.map_cons, List.zip_cons_cons, List.lookup_cons]
    rcases eq_or_ne field name with rfl | hne
    · simp
    · rw [beq_false_of_ne hne, ih]
      simp [hne]

/-- Reading the line of a packet gives the packet. -/
theorem packetOfLine_line {packet : Packet} (h : packet.Printable) :
    packetOfLine packet.line = packet := by
  have hsplit : packet.line.splitOn '\t' = packet.values := by
    apply List.splitOn_intercalate
    · intro value hvalue htab
      obtain ⟨field, hfield, rfl⟩ := List.mem_map.mp hvalue
      exact (h.values field hfield '\t' htab).2 rfl
    · simp [Packet.values, fields]
  funext field
  unfold packetOfLine
  simp only [hsplit, Packet.values, List.length_map, Nat.sub_self, List.replicate_zero,
    List.append_nil]
  rw [lookup_zip_map]
  split_ifs with hfield
  · rfl
  · exact (h.others field hfield).symm

theorem exists_mem_of_mem_line {packet : Packet} {c : Char} (hc : c ∈ packet.line) :
    c = '\t' ∨ ∃ field ∈ fields, c ∈ packet field := by
  rcases mem_intercalate '\t' hc with ⟨value, hvalue, hmem⟩ | htab
  · obtain ⟨field, hfield, rfl⟩ := List.mem_map.mp hvalue
    exact Or.inr ⟨field, hfield, hmem⟩
  · exact Or.inl htab

/-- The packets are read back from the text that tshark prints. -/
theorem extract_tsharkOutput {packets : List Packet}
    (h : ∀ packet ∈ packets, packet.Printable) : extract (tsharkOutput packets) = packets := by
  have hline : ∀ line ∈ packets.map Packet.line, ∀ c ∈ line, isLineBoundary c = false := by
    intro line hline c hc
    obtain ⟨packet, hpacket, rfl⟩ := List.mem_map.mp hline
    rcases exists_mem_of_mem_line hc with rfl | ⟨field, hfield, hmem⟩
    · decide
    · exact ((h packet hpacket).values field hfield c hmem).1
  have hreturn : '\r' ∉ tsharkOutput packets := by
    intro hmem
    obtain ⟨line, hmem, hc⟩ := List.mem_flatMap.mp hmem
    rcases List.mem_append.mp hc with hc | hc
    · exact absurd (hline line hmem '\r' hc) (by decide)
    · exact absurd (List.mem_singleton.mp hc) (by decide)
  unfold extract
  rw [universalNewlines_of_notMem hreturn, tsharkOutput, splitlines_unlines hline, List.map_map]
  conv_rhs => rw [← List.map_id packets]
  apply List.map_congr_left
  intro packet hpacket
  exact packetOfLine_line (h packet hpacket)

/-! ## Collecting the streams -/

/-- The stream of a packet, if it has one. -/
def streamOf (packet : Packet) : Option ℤ :=
  if packet "tcp.stream" = [] then none else (integer (packet "tcp.stream")).toOption

def streamNumber (packet : Packet) : ℤ := (streamOf packet).getD 0

/-- The packets that have a stream. -/
def carried (packets : List Packet) : List Packet :=
  packets.filter fun packet ↦ (streamOf packet).isSome

/-- The loop reads the stream of the packet, or passes over the packet. -/
def Numbered (packet : Packet) : Bool := packet "tcp.stream" = [] || (streamOf packet).isSome

theorem appendPacket_eq (streams : List (ℤ × List Packet)) (packet : Packet) :
    appendPacket streams packet =
      if Numbered packet then
        .ok (if (streamOf packet).isSome then addRow streamNumber streams packet else streams)
      else .error .valueError := by
  unfold appendPacket
  by_cases hempty : packet "tcp.stream" = []
  · have hnone : streamOf packet = none := if_pos hempty
    simp [Numbered, hempty, hnone]
  · have hstream : streamOf packet = (integer (packet "tcp.stream")).toOption := if_neg hempty
    rw [if_neg hempty]
    cases hnumber : integer (packet "tcp.stream") with
    | ok stream =>
      have hsome : streamOf packet = some stream := by rw [hstream, hnumber]; rfl
      have hkey : streamNumber packet = stream := by rw [streamNumber, hsome]; rfl
      rw [if_pos (by simp [Numbered, hsome]), if_pos (by simp [hsome])]
      unfold addRow
      rw [hkey]
      rfl
    | error error =>
      have hnone : streamOf packet = none := by rw [hstream, hnumber]; rfl
      rw [onlyValueErrors_integer _ error hnumber, if_neg (by simp [Numbered, hempty, hnone])]
      rfl

theorem foldlM_appendPacket (packets : List Packet) (streams : List (ℤ × List Packet)) :
    packets.foldlM appendPacket streams =
      if ∀ packet ∈ packets, Numbered packet then
        .ok ((carried packets).foldl (addRow streamNumber) streams)
      else .error .valueError := by
  induction packets generalizing streams with
  | nil => rfl
  | cons packet packets ih =>
    rw [List.foldlM_cons, appendPacket_eq]
    by_cases hpacket : Numbered packet = true
    · rw [if_pos hpacket]
      change packets.foldlM appendPacket _ = _
      have hcarried : (carried (packet :: packets)).foldl (addRow streamNumber) streams =
          (carried packets).foldl (addRow streamNumber)
            (if (streamOf packet).isSome then addRow streamNumber streams packet else streams) := by
        unfold carried
        rw [List.filter_cons, apply_ite (List.foldl (addRow streamNumber) streams)]
        by_cases hstream : (streamOf packet).isSome = true
        · rw [if_pos hstream, if_pos hstream, List.foldl_cons]
        · rw [if_neg hstream, if_neg hstream]
      rw [ih, hcarried]
      simp [hpacket]
    · rw [if_neg hpacket, if_neg fun h ↦ hpacket (h packet (List.mem_cons_self ..))]
      rfl

/-- The streams are the packets grouped by their stream, unless a stream cannot be read. -/
theorem collectStreams_eq (packets : List Packet) :
    collectStreams packets =
      if ∀ packet ∈ packets, Numbered packet then .ok (groupBy streamNumber (carried packets))
      else .error .valueError :=
  foldlM_appendPacket packets []

theorem withKey_carried (packets : List Packet) (stream : ℤ) :
    withKey streamNumber (carried packets) stream = withKey streamOf packets (some stream) := by
  unfold withKey carried
  rw [List.filter_filter]
  apply List.filter_congr
  intro packet _
  unfold streamNumber
  cases streamOf packet <;> simp

/-! ## Sorting the connections -/

/-- The order of the tuples when no time is NaN. -/
def Opened.rank (connection : Opened) : (ℕ ×ₗ ℚ) ×ₗ ℤ :=
  toLex (connection.time.rank, connection.stream)

theorem Opened.lt_iff {first second : Opened} (hfirst : first.time ≠ .nan)
    (hsecond : second.time ≠ .nan) : first.lt second = true ↔ first.rank < second.rank := by
  unfold Opened.lt Opened.rank
  rw [Prod.Lex.toLex_lt_toLex]
  by_cases heq : first.time = second.time
  · rw [if_pos ⟨heq, hfirst⟩, heq, decide_eq_true_iff]
    simp
  · have hrank : first.time.rank ≠ second.time.rank := fun h ↦ heq (Double.rank_injective h)
    rw [if_neg fun h ↦ heq h.1, Double.lt_iff_rank_lt hfirst hsecond]
    simp [hrank]

theorem sortOpened_perm_self (candidates : List Opened) : (sortOpened candidates).Perm candidates :=
  List.perm_insertionSort _ _

theorem pairwise_sortOpened {candidates : List Opened}
    (hnan : ∀ connection ∈ candidates, connection.time ≠ .nan) :
    ((sortOpened candidates).map Opened.rank).Pairwise (· ≤ ·) := by
  have hmap : (sortOpened candidates).map Opened.rank
      = (candidates.map Opened.rank).insertionSort fun first second ↦ first ≤ second := by
    apply List.map_insertionSort
    intro first hfirst second hsecond
    rw [← not_lt, ← Opened.lt_iff (hnan second hsecond) (hnan first hfirst), Bool.not_eq_true]
  rw [hmap]
  exact List.pairwise_insertionSort _ _

/-- The order in which the streams were found does not matter. -/
theorem sortOpened_perm {candidates others : List Opened} (h : candidates.Perm others)
    (hnan : ∀ connection ∈ candidates, connection.time ≠ .nan)
    (hstreams : (candidates.map Opened.stream).Nodup) :
    sortOpened candidates = sortOpened others := by
  have hperm : (sortOpened candidates).Perm (sortOpened others) :=
    (sortOpened_perm_self candidates).trans (h.trans (sortOpened_perm_self others).symm)
  have hsorted := List.pairwise_map.mp (pairwise_sortOpened hnan)
  have hothers : (sortOpened others).Pairwise fun first second ↦ first.rank ≤ second.rank :=
    List.pairwise_map.mp (pairwise_sortOpened fun c hc ↦ hnan c (h.mem_iff.mpr hc))
  apply hperm.eq_of_pairwise _ hsorted hothers
  intro first second hfirst hsecond hle hge
  have hfirst' := (sortOpened_perm_self candidates).mem_iff.mp hfirst
  have hsecond' := h.mem_iff.mpr ((sortOpened_perm_self others).mem_iff.mp hsecond)
  have hrank : first.rank = second.rank := le_antisymm hle hge
  have hstream : first.stream = second.stream :=
    congrArg (fun rank : (ℕ ×ₗ ℚ) ×ₗ ℤ ↦ (ofLex rank).2) hrank
  exact List.inj_on_of_nodup_map hstreams hfirst' hsecond' hstream

theorem onlyValueErrors_opened (target : Target) (entry : ℤ × List Packet) :
    OnlyValueErrors (opened target entry) := by
  unfold opened
  split
  · exact onlyValueErrors_ok none
  · exact onlyValueErrors_bind (onlyValueErrors_pyFloat _) fun time ↦ onlyValueErrors_ok _

/-- The streams with a first segment of the client become candidates, one each. -/
theorem map_reduceOption_opened {target : Target} {streams : List (ℤ × List Packet)}
    {results : List (Option Opened)} (h : streams.mapM (opened target) = .ok results) :
    results.reduceOption.map (fun connection ↦ (connection.stream, connection.group)) =
      streams.filter fun entry ↦ entry.2.any (InitialSyn target) := by
  induction streams generalizing results with
  | nil =>
    obtain rfl : results = [] := by simpa [pure, Except.pure, eq_comm] using h
    rfl
  | cons entry streams ih =>
    simp only [List.mapM_cons, bind_eq_ok_iff] at h
    obtain ⟨result, hresult, rest, hrest, hcons⟩ := h
    obtain rfl : result :: rest = results := Except.ok.inj hcons
    unfold opened at hresult
    split at hresult
    · rename_i hnone
      obtain rfl := Except.ok.inj hresult
      have hany : entry.2.any (InitialSyn target) = false := by
        simpa [List.filter_eq_nil_iff] using hnone
      rw [List.reduceOption_cons_of_none, ih hrest, List.filter_cons_of_neg (by simp [hany])]
    · rename_i first others hsome
      obtain ⟨time, -, hvalue⟩ := bind_eq_ok_iff.mp hresult
      obtain rfl := Except.ok.inj hvalue
      have hmem : first ∈ entry.2.filter (InitialSyn target) := by
        rw [hsome]
        exact List.mem_cons_self ..
      have hany : entry.2.any (InitialSyn target) = true :=
        List.any_eq_true.mpr ⟨first, (List.mem_filter.mp hmem).1, (List.mem_filter.mp hmem).2⟩
      rw [List.reduceOption_cons_of_some, List.map_cons, ih hrest, List.filter_cons, if_pos hany]

/-- The time of a candidate is that of a first segment in its stream. -/
theorem time_of_mem_opened {target : Target} {streams : List (ℤ × List Packet)}
    {results : List (Option Opened)} (h : streams.mapM (opened target) = .ok results)
    {connection : Opened} (hmem : connection ∈ results.reduceOption) :
    ∃ entry ∈ streams, ((entry.2.find? (InitialSyn target)).map fun packet ↦
      pyFloat (packet "frame.time_epoch")) = some (.ok connection.time) ∧
        entry = (connection.stream, connection.group) := by
  obtain ⟨entry, hentry, hopened⟩ := (mem_mapM_iff h _).mp (List.reduceOption_mem_iff.mp hmem)
  unfold opened at hopened
  split at hopened
  · cases hopened
  · rename_i first others hsome
    obtain ⟨time, htime, hvalue⟩ := bind_eq_ok_iff.mp hopened
    obtain rfl := Option.some.inj (Except.ok.inj hvalue)
    refine ⟨entry, hentry, ?_, rfl⟩
    rw [← List.head?_filter, hsome]
    exact congrArg some htime

/-- No first segment of a connection carries a NaN. -/
def TimesAreNumbers (target : Target) (packets : List Packet) : Prop :=
  ∀ packet ∈ packets, InitialSyn target packet = true →
    pyFloat (packet "frame.time_epoch") ≠ .ok .nan

section Connections

variable {target : Target} {streams others : List (ℤ × List Packet)}
  {results : List (Option Opened)}

theorem streams_of_opened_nodup (hkeys : (streams.map Prod.fst).Nodup)
    (h : streams.mapM (opened target) = .ok results) :
    (results.reduceOption.map Opened.stream).Nodup := by
  have hstreams : results.reduceOption.map Opened.stream
      = (streams.filter fun entry ↦ entry.2.any (InitialSyn target)).map Prod.fst := by
    rw [← map_reduceOption_opened h, List.map_map]
    rfl
  rw [hstreams]
  exact hkeys.sublist (List.filter_sublist.map _)

theorem time_ne_nan (htimes : ∀ entry ∈ streams, TimesAreNumbers target entry.2)
    (h : streams.mapM (opened target) = .ok results) :
    ∀ connection ∈ results.reduceOption, connection.time ≠ .nan := by
  intro connection hmem hnan
  obtain ⟨entry, hentry, htime, -⟩ := time_of_mem_opened h hmem
  obtain ⟨packet, hpacket, hvalue⟩ := Option.map_eq_some_iff.mp htime
  rw [hnan] at hvalue
  exact htimes entry hentry packet (List.mem_of_find?_eq_some hpacket)
    (List.find?_some hpacket) hvalue

/-- The sorted connections do not depend on the order in which the streams are found. -/
theorem openedStreams_perm (h : streams.Perm others) (hkeys : (streams.map Prod.fst).Nodup)
    (htimes : ∀ entry ∈ streams, TimesAreNumbers target entry.2) :
    openedStreams target streams = openedStreams target others := by
  unfold openedStreams
  rcases mapM_perm (onlyValueErrors_opened target) h with
    ⟨hleft, hright⟩ | ⟨left, right, hleft, hright, hperm⟩
  · rw [hleft, hright]
  · rw [hleft, hright]
    have hsorted : sortOpened left.reduceOption = sortOpened right.reduceOption :=
      sortOpened_perm (hperm.filterMap id) (time_ne_nan htimes hleft)
        (streams_of_opened_nodup hkeys hleft)
    exact congrArg Except.ok hsorted

end Connections

/-! ## Interleaved connections -/

theorem mem_of_mem_groupBy {packets : List Packet} {entry : ℤ × List Packet}
    (h : entry ∈ groupBy streamNumber (carried packets)) :
    entry.2 = withKey streamOf packets (some entry.1) :=
  (eq_withKey_of_mem _ h).trans (withKey_carried packets entry.1)

/-- The rows of a capture depend on the packets of each connection alone: however the packets of
different connections interleave in the text that tshark prints, the rows are the same. -/
theorem interleaving_does_not_matter (target : Target) (fullSegment : ℤ)
    {packets others : List Packet} (hprintable : ∀ packet ∈ packets, packet.Printable)
    (hsame : SameWithin streamOf packets others) (htimes : TimesAreNumbers target packets) :
    summarizeCapture target (extract (tsharkOutput packets)) fullSegment =
      summarizeCapture target (extract (tsharkOutput others)) fullSegment := by
  have hothers : ∀ packet ∈ others, packet.Printable :=
    fun packet hpacket ↦ hprintable packet (hsame.perm.mem_iff.mpr hpacket)
  rw [extract_tsharkOutput hprintable, extract_tsharkOutput hothers]
  have hnumbered : (∀ packet ∈ packets, Numbered packet = true) ↔
      ∀ packet ∈ others, Numbered packet = true :=
    forall_congr' fun packet ↦ by rw [hsame.perm.mem_iff]
  have hstreams : SameWithin streamNumber (carried packets) (carried others) := by
    intro stream
    rw [withKey_carried, withKey_carried]
    exact hsame (some stream)
  unfold summarizeCapture
  rw [collectStreams_eq, collectStreams_eq]
  by_cases hall : ∀ packet ∈ packets, Numbered packet = true
  · rw [if_pos hall, if_pos (hnumbered.mp hall)]
    change (openedStreams target _ >>= _) = (openedStreams target _ >>= _)
    rw [openedStreams_perm hstreams.groupBy_perm (keys_groupBy_nodup _ _)]
    intro entry hentry packet hpacket
    rw [mem_of_mem_groupBy hentry] at hpacket
    exact htimes packet (List.mem_filter.mp hpacket).1
  · rw [if_neg hall, if_neg fun h ↦ hall (hnumbered.mpr h)]

/-! ## What the rows account for -/

/-- `frame.len` of a packet as a number. -/
def frameLength (packet : Packet) : ℤ := ((integer (packet "frame.len")).toOption).getD 0

/-- The packets of the streams that have a row. -/
def packetsOfRows (packets : List Packet) (rows : List ConnectionRow) : List Packet :=
  packets.filter fun packet ↦ rows.any fun row ↦ streamOf packet = some row.tcpStream

/-- The time at which the client opens a stream first. -/
def synTime (target : Target) (packets : List Packet) (stream : ℤ) : Double :=
  let first := (withKey streamOf packets (some stream)).find? (InitialSyn target)
  (first.bind fun packet ↦ (pyFloat (packet "frame.time_epoch")).toOption).getD .nan

/-- Every packet of the group was sent by one of two different endpoints. -/
def BetweenEndpoints (target : Target) (group : List Packet) : Prop :=
  target.clientIp ≠ target.serverIp ∧
    ∀ packet ∈ group, some (packet "ip.src") = target.clientIp ∨
      some (packet "ip.src") = target.serverIp

/-- One row agrees with the packets of its stream. -/
structure RowAccounts (target : Target) (group : List Packet) (row : ConnectionRow) : Prop where
  segments : row.tcpSegmentCount = group.length
  bytes : row.totalWireBytes = (group.map frameLength).sum
  directions : BetweenEndpoints target group →
    row.clientToServerWireBytes + row.serverToClientWireBytes = row.totalWireBytes
  retries : row.tcpConnectionRetries ≤ row.tcpRetransmissions
  flag : row.hasRetransmission = 1 ↔ ∃ packet ∈ group,
    truthy (packet "tcp.analysis.retransmission") = true
  counted : row.fullSizedTcpSegments ≤ row.tcpSegmentCount ∧
    row.tcpRetransmissions ≤ row.tcpSegmentCount ∧ row.connectionResets ≤ row.tcpSegmentCount

/-- The results of a loop stand in the order of its items. -/
theorem forall₂_of_mapM {α β : Type} {f : α → Except PyError β} {items : List α} {results : List β}
    (h : items.mapM f = .ok results) : List.Forall₂ (fun item result ↦ f item = .ok result)
      items results := by
  induction items generalizing results with
  | nil =>
    obtain rfl : results = [] := by simpa [pure, Except.pure, eq_comm] using h
    exact .nil
  | cons item items ih =>
    simp only [List.mapM_cons, bind_eq_ok_iff] at h
    obtain ⟨result, hresult, rest, hrest, hcons⟩ := h
    obtain rfl : result :: rest = results := Except.ok.inj hcons
    exact .cons hresult (ih hrest)

theorem total_eq {column : String} {packets : List Packet} {sum : ℤ}
    (h : total column packets = .ok sum) :
    sum = (packets.map fun packet ↦ ((integer (packet column)).toOption).getD 0).sum := by
  obtain ⟨values, hvalues, hsum⟩ := bind_eq_ok_iff.mp h
  rw [← Except.ok.inj hsum]
  congr 1
  have hall := forall₂_of_mapM hvalues
  clear h hvalues hsum
  induction hall with
  | nil => rfl
  | cons hvalue _ ih => rw [List.map_cons, hvalue, ← ih]; rfl

/-- What the endpoints sent adds up to what all sent. -/
theorem sum_sentBy {target : Target} {group : List Packet} (h : BetweenEndpoints target group)
    (value : Packet → ℤ) :
    ((sentBy target.clientIp group).map value).sum +
        ((sentBy target.serverIp group).map value).sum = (group.map value).sum := by
  have hserver : sentBy target.serverIp group =
      group.filter fun packet ↦ !decide (some (packet "ip.src") = target.clientIp) := by
    apply List.filter_congr
    intro packet hpacket
    rcases h.2 packet hpacket with hclient | hserver
    · have hother : some (packet "ip.src") ≠ target.serverIp := hclient ▸ h.1
      simp [hclient, h.1]
    · simp [hserver, h.1.symm]
  rw [hserver, ← List.sum_append, ← List.map_append]
  exact ((List.filter_append_perm _ group).map value).sum_eq

/-- The body of the loop accounts for its group. -/
theorem rowAccounts_of_connectionRow {target : Target} {fullSegment : ℤ} {run : ℕ}
    {connection : Opened} {row : ConnectionRow}
    (h : connectionRow target fullSegment run connection = .ok row) :
    row.run = run ∧ row.tcpStream = connection.stream ∧
      RowAccounts target connection.group row := by
  simp only [connectionRow, bind_eq_ok_iff] at h
  obtain ⟨rtts, -, tlsLengths, -, times, -, clientPayload, -, serverPayload, -, clientWire,
    hclient, serverWire, hserver, wire, hwire, lengths, hlengths, hrow⟩ := h
  obtain rfl := Except.ok.inj hrow
  have hflag (n : ℕ) : (if 0 < n then 1 else 0) = 1 ↔ 0 < n := by
    split_ifs with hn <;> simp [hn]
  refine ⟨rfl, rfl, ⟨rfl, total_eq hwire, ?_, ?_, ?_, ?_, ?_, ?_⟩⟩
  · intro hbetween
    calc clientWire + serverWire
        = ((sentBy target.clientIp connection.group).map frameLength).sum +
            ((sentBy target.serverIp connection.group).map frameLength).sum := by
          rw [total_eq hclient, total_eq hserver]
          rfl
      _ = (connection.group.map frameLength).sum := sum_sentBy hbetween frameLength
      _ = wire := (total_eq hwire).symm
  · calc (sentBy target.clientIp connection.group).countP SynRetry
        ≤ connection.group.countP SynRetry := List.filter_sublist.countP_le
      _ ≤ count "tcp.analysis.retransmission" connection.group := by
        apply List.countP_mono_left
        intro packet _ hretry
        exact (Bool.and_eq_true_iff.mp (Bool.and_eq_true_iff.mp hretry).1).1
  · exact (hflag _).trans List.countP_pos_iff
  · calc lengths.countP (fun length ↦ fullSegment ≤ length)
        ≤ lengths.length := List.countP_le_length
      _ = connection.group.length := (forall₂_of_mapM hlengths).length_eq.symm
  · exact List.countP_le_length
  · exact List.countP_le_length

/-- The rows account for the connections of a capture. -/
structure CaptureAccounts (target : Target) (packets : List Packet) (rows : List ConnectionRow) :
    Prop where
  runs : rows.map ConnectionRow.run = List.range rows.length
  streams : (rows.map ConnectionRow.tcpStream).Nodup
  opened : ∀ stream, stream ∈ rows.map ConnectionRow.tcpStream ↔
    ∃ packet ∈ packets, streamOf packet = some stream ∧ InitialSyn target packet = true
  each : ∀ row ∈ rows,
    RowAccounts target (withKey streamOf packets (some row.tcpStream)) row
  segments : (rows.map ConnectionRow.tcpSegmentCount).sum = (packetsOfRows packets rows).length
  bytes : (rows.map ConnectionRow.totalWireBytes).sum =
    ((packetsOfRows packets rows).map frameLength).sum
  ordered : TimesAreNumbers target packets →
    (rows.map fun row ↦
      toLex ((synTime target packets row.tcpStream).rank, row.tcpStream)).Pairwise (· < ·)

theorem map_eq_map_of_forall₂ {α β γ : Type} {f : α → γ} {g : β → γ} {items : List α}
    {results : List β} (h : List.Forall₂ (fun item result ↦ g result = f item) items results) :
    results.map g = items.map f := by
  induction h with
  | nil => rfl
  | cons hhead _ ih => rw [List.map_cons, List.map_cons, hhead, ih]

/-- A sum over the rows is the sum over the packets of their streams. -/
theorem sum_over_rows {M : Type} [AddCommMonoid M] {packets : List Packet}
    {rows : List ConnectionRow} (hstreams : (rows.map ConnectionRow.tcpStream).Nodup)
    (value : Packet → M) :
    (rows.map fun row ↦
        ((withKey streamOf packets (some row.tcpStream)).map value).sum).sum =
      ((packetsOfRows packets rows).map value).sum := by
  have hkeys : (rows.map fun row ↦ some row.tcpStream).Nodup := by
    have hsome := hstreams.map (Option.some_injective ℤ)
    rwa [List.map_map] at hsome
  have hselect (packet : Packet) :
      (rows.any fun row ↦ streamOf packet = some row.tcpStream) = true ↔
        streamOf packet ∈ rows.map fun row ↦ some row.tcpStream := by
    rw [List.any_eq_true, List.mem_map]
    exact exists_congr fun row ↦ and_congr_right fun _ ↦ decide_eq_true_iff.trans eq_comm
  calc (rows.map fun row ↦ ((withKey streamOf packets (some row.tcpStream)).map value).sum).sum
      = ((rows.map fun row ↦ some row.tcpStream).map fun k ↦
          ((withKey streamOf packets k).map value).sum).sum := by rw [List.map_map]; rfl
    _ = ((packetsOfRows packets rows).map value).sum :=
      sum_map_withKey streamOf hkeys hselect packets value

/-- What is known of the sorted connections of a capture. -/
structure Connections (target : Target) (packets : List Packet) (connections : List Opened) :
    Prop where
  streams : (connections.map Opened.stream).Nodup
  opened : ∀ stream, stream ∈ connections.map Opened.stream ↔
    ∃ packet ∈ packets, streamOf packet = some stream ∧ InitialSyn target packet = true
  group : ∀ connection ∈ connections,
    connection.group = withKey streamOf packets (some connection.stream)
  time : ∀ connection ∈ connections, connection.time = synTime target packets connection.stream
  sorted : TimesAreNumbers target packets → (connections.map Opened.rank).Pairwise (· ≤ ·)

theorem connections_of_streams {target : Target} {packets : List Packet}
    {results : List (Option Opened)}
    (h : (groupBy streamNumber (carried packets)).mapM (opened target) = .ok results) :
    Connections target packets (sortOpened results.reduceOption) := by
  have hperm := sortOpened_perm_self results.reduceOption
  have hentries := map_reduceOption_opened h
  constructor
  · exact (hperm.map Opened.stream).nodup_iff.mpr
      (streams_of_opened_nodup (keys_groupBy_nodup _ _) h)
  · intro stream
    rw [(hperm.map Opened.stream).mem_iff]
    constructor
    · intro hstream
      obtain ⟨connection, hconnection, rfl⟩ := List.mem_map.mp hstream
      have hentry := List.mem_map_of_mem (f := fun c : Opened ↦ (c.stream, c.group)) hconnection
      rw [hentries, List.mem_filter] at hentry
      obtain ⟨packet, hpacket, hsyn⟩ := List.any_eq_true.mp hentry.2
      rw [mem_of_mem_groupBy hentry.1, withKey, List.mem_filter, decide_eq_true_iff] at hpacket
      exact ⟨packet, hpacket.1, hpacket.2, hsyn⟩
    · rintro ⟨packet, hpacket, hstream, hsyn⟩
      have hcarried : packet ∈ carried packets :=
        List.mem_filter.mpr ⟨hpacket, by rw [hstream]; rfl⟩
      have hnumber : streamNumber packet = stream := by rw [streamNumber, hstream]; rfl
      obtain ⟨entry, hentry, hkey⟩ := List.mem_map.mp
        ((mem_keys_groupBy streamNumber).mpr ⟨packet, hcarried, hnumber⟩)
      have hmem : packet ∈ entry.2 := by
        rw [mem_of_mem_groupBy hentry, hkey]
        exact List.mem_filter.mpr ⟨hpacket, decide_eq_true hstream⟩
      have hselected : entry ∈ results.reduceOption.map fun c : Opened ↦ (c.stream, c.group) := by
        rw [hentries]
        exact List.mem_filter.mpr ⟨hentry, List.any_eq_true.mpr ⟨packet, hmem, hsyn⟩⟩
      obtain ⟨connection, hconnection, rfl⟩ := List.mem_map.mp hselected
      exact List.mem_map.mpr ⟨connection, hconnection, hkey⟩
  · intro connection hconnection
    obtain ⟨entry, hentry, -, rfl⟩ := time_of_mem_opened h (hperm.mem_iff.mp hconnection)
    exact mem_of_mem_groupBy hentry
  · intro connection hconnection
    obtain ⟨entry, hentry, htime, rfl⟩ := time_of_mem_opened h (hperm.mem_iff.mp hconnection)
    obtain ⟨packet, hfind, hvalue⟩ := Option.map_eq_some_iff.mp htime
    have hgroup : connection.group = withKey streamOf packets (some connection.stream) :=
      mem_of_mem_groupBy hentry
    unfold synTime
    dsimp only at hfind ⊢
    rw [← hgroup, hfind, Option.bind_some, hvalue]
    rfl
  · intro htimes
    apply pairwise_sortOpened (time_ne_nan _ h)
    intro entry hentry packet hpacket
    rw [mem_of_mem_groupBy hentry] at hpacket
    exact htimes packet (List.mem_filter.mp hpacket).1

/-- Run numbers count the client's connections in the order of their first segments, every
connection has one row, and the rows together account for all packets of the connections. -/
theorem rows_account_for_the_capture {target : Target} {packets : List Packet} {fullSegment : ℤ}
    {rows : List ConnectionRow} (h : summarizeCapture target packets fullSegment = .ok rows) :
    CaptureAccounts target packets rows := by
  obtain ⟨streams, hstreams, h⟩ := bind_eq_ok_iff.mp h
  obtain ⟨connections, hconnections, hrows⟩ := bind_eq_ok_iff.mp h
  obtain ⟨results, hresults, hsorted⟩ := bind_eq_ok_iff.mp hconnections
  rw [collectStreams_eq] at hstreams
  split at hstreams
  swap
  · cases hstreams
  rename_i hnumbered
  obtain rfl := Except.ok.inj hstreams
  have hknown : Connections target packets connections :=
    Except.ok.inj hsorted ▸ connections_of_streams hresults
  have hbody : List.Forall₂ (fun numbered row ↦ row.run = numbered.2 ∧
      row.tcpStream = numbered.1.stream ∧ RowAccounts target numbered.1.group row)
      connections.zipIdx rows :=
    (forall₂_of_mapM hrows).imp fun numbered row hrow ↦ rowAccounts_of_connectionRow hrow
  have hruns : rows.map ConnectionRow.run = List.range rows.length := by
    rw [map_eq_map_of_forall₂ (f := Prod.snd) (hbody.imp fun _ _ hrow ↦ hrow.1),
      List.zipIdx_map_snd, ← hbody.length_eq, List.length_zipIdx, List.range_eq_range']
  have htcp : rows.map ConnectionRow.tcpStream = connections.map Opened.stream := by
    rw [map_eq_map_of_forall₂ (f := fun numbered ↦ numbered.1.stream)
      (hbody.imp fun _ _ hrow ↦ hrow.2.1)]
    conv_rhs => rw [← List.zipIdx_map_fst 0 connections, List.map_map]
    rfl
  have hnodup : (rows.map ConnectionRow.tcpStream).Nodup := htcp ▸ hknown.streams
  have heach : ∀ row ∈ rows,
      RowAccounts target (withKey streamOf packets (some row.tcpStream)) row := by
    intro row hrow
    obtain ⟨numbered, hmem, hrow⟩ := (mem_mapM_iff hrows row).mp hrow
    obtain ⟨-, hstream, haccounts⟩ := rowAccounts_of_connectionRow hrow
    rw [hstream, ← hknown.group numbered.1 (List.fst_mem_of_mem_zipIdx hmem)]
    exact haccounts
  constructor
  · exact hruns
  · exact hnodup
  · intro stream
    rw [htcp]
    exact hknown.opened stream
  · exact heach
  · calc (rows.map ConnectionRow.tcpSegmentCount).sum
        = (rows.map fun row ↦
            ((withKey streamOf packets (some row.tcpStream)).map fun _ ↦ 1).sum).sum := by
          apply congrArg List.sum (List.map_congr_left _)
          intro row hrow
          rw [(heach row hrow).segments]
          simp
      _ = ((packetsOfRows packets rows).map fun _ ↦ 1).sum := sum_over_rows hnodup _
      _ = (packetsOfRows packets rows).length := by
          simp
  · rw [← sum_over_rows hnodup frameLength]
    apply congrArg List.sum (List.map_congr_left _)
    intro row hrow
    exact (heach row hrow).bytes
  · intro htimes
    have hranks : (rows.map fun row ↦
        toLex ((synTime target packets row.tcpStream).rank, row.tcpStream)) =
          connections.map Opened.rank := by
      calc _ = (rows.map ConnectionRow.tcpStream).map
            (fun stream ↦ toLex ((synTime target packets stream).rank, stream)) := by
            rw [List.map_map]; rfl
        _ = connections.map Opened.rank := by
            rw [htcp, List.map_map]
            apply List.map_congr_left
            intro connection hconnection
            unfold Opened.rank
            rw [hknown.time connection hconnection]
            rfl
    have hdistinct : (connections.map Opened.rank).Pairwise (· ≠ ·) := by
      rw [List.pairwise_map]
      apply (List.pairwise_map.mp hknown.streams).imp
      intro first second hne heq
      exact hne (congrArg (fun rank : (ℕ ×ₗ ℚ) ×ₗ ℤ ↦ (ofLex rank).2) heq)
    rw [hranks]
    exact (hknown.sorted htimes).imp₂ (fun _ _ hle hne ↦ lt_of_le_of_ne hle hne) hdistinct

/-! ## Two connections of a client -/

/-- A packet with some values. -/
def packetWith (values : List (String × String)) : Packet :=
  fun field ↦ ((values.lookup field).getD "").toList

def picoTarget : Target where
  scheme := some "HAWK-512".toList
  board := some "pico_w".toList
  campaign := some "1".toList
  clientIp := some "10.0.0.2".toList
  serverIp := some "10.0.0.1".toList

/-- A segment from the client. -/
def fromClient (stream time syn retransmission : String) : List (String × String) :=
  [("tcp.stream", stream), ("frame.time_epoch", time), ("frame.len", "60"),
    ("ip.src", "10.0.0.2"), ("ip.dst", "10.0.0.1"), ("tcp.len", "6"), ("tcp.flags.syn", syn),
    ("tcp.flags.ack", "0"), ("tcp.analysis.retransmission", retransmission)]

/-- An answer of the server. -/
def fromServer (stream time : String) : List (String × String) :=
  [("tcp.stream", stream), ("frame.time_epoch", time), ("frame.len", "1500"),
    ("ip.src", "10.0.0.1"), ("ip.dst", "10.0.0.2"), ("tcp.len", "1446"), ("tcp.flags.syn", "0"),
    ("tcp.flags.ack", "1"), ("tls.record.length", "90|1300")]

/-- The packets after the first segments of the two connections. -/
def laterSegments : List (List (String × String)) :=
  [fromClient "0" "11.5" "1" "1", fromServer "1" "21", fromServer "0" "12"]

/-- The connection that opens later is seen first. -/
def twoConnections : List Packet :=
  (fromClient "1" "20.5" "1" "" :: fromClient "0" "10.5" "1" "" :: laterSegments).map packetWith

/-- The same packets with the first segments in the other order. -/
def swappedConnections : List Packet :=
  (fromClient "0" "10.5" "1" "" :: fromClient "1" "20.5" "1" "" :: laterSegments).map packetWith

theorem printable_packetWith {values : List (String × String)}
    (hknown : ∀ value ∈ values, value.1 ∈ fields)
    (hvalues : ∀ field ∈ fields, (packetWith values field).Forall InValue) :
    (packetWith values).Printable where
  values := fun field hfield ↦ List.forall_iff_forall_mem.mp (hvalues field hfield)
  others := by
    intro field hfield
    have hnone : values.lookup field = none := by
      rw [List.lookup_eq_none_iff]
      intro value hvalue
      apply bne_iff_ne.mpr
      rintro rfl
      exact hfield (hknown value hvalue)
    unfold packetWith
    rw [hnone]
    rfl

theorem printable_twoConnections : ∀ packet ∈ twoConnections, packet.Printable := by
  intro packet hpacket
  obtain ⟨values, hvalues, rfl⟩ := List.mem_map.mp hpacket
  apply printable_packetWith
  · clear hpacket
    revert values
    decide +kernel
  · clear hpacket
    revert values
    decide +kernel

theorem swapped_connections :
    summarizeCapture picoTarget (extract (tsharkOutput twoConnections)) 1446 =
      summarizeCapture picoTarget (extract (tsharkOutput swappedConnections)) 1446 :=
  interleaving_does_not_matter picoTarget 1446 printable_twoConnections
    (sameWithin_swap (by decide +kernel) [] _) (by unfold TimesAreNumbers; decide +kernel)

theorem two_connections_accounted :
    ∃ rows, summarizeCapture picoTarget twoConnections 1446 = .ok rows ∧
      CaptureAccounts picoTarget twoConnections rows := by
  obtain ⟨rows, hrows⟩ := exists_of_isOk
    (show (summarizeCapture picoTarget twoConnections 1446).isOk = true by decide +kernel)
  exact ⟨rows, hrows, rows_account_for_the_capture hrows⟩

/-- The runs, the streams, the bytes of both directions and the repeated SYNs of the rows. -/
example : (summarizeCapture picoTarget twoConnections 1446).toOption.map
    (fun rows ↦ rows.map fun row : ConnectionRow ↦
      (row.run, row.tcpStream, row.clientToServerWireBytes, row.serverToClientWireBytes,
        row.tcpConnectionRetries)) =
    some [(0, 0, 120, 1500, 1), (1, 1, 60, 1500, 0)] := by decide +kernel

end PqMqtt.Analysis.TlsPcaps
