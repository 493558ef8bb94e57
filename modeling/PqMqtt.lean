import PqMqtt.Foundation.Run
import PqMqtt.Foundation.BoundedChannel
import PqMqtt.Foundation.Framing
import PqMqtt.Foundation.Base128
import PqMqtt.Foundation.Delimited
import PqMqtt.Foundation.Binary64
import PqMqtt.Foundation.CheckThenLock
import PqMqtt.Foundation.Intervals
import PqMqtt.Foundation.Lifecycle
import PqMqtt.Foundation.Grouping
import PqMqtt.Foundation.DoubleArithmetic
import PqMqtt.Foundation.KeyedJoin
import PqMqtt.Foundation.Der
import PqMqtt.Foundation.Interaction
import PqMqtt.Foundation.PolledWait
import PqMqtt.Foundation.PolledCall
import PqMqtt.Foundation.EarlyStop
import PqMqtt.Foundation.Interpolation
import PqMqtt.Transport.Receive
import PqMqtt.Transport.PcbAccess
import PqMqtt.Transport.Resolve
import PqMqtt.Transport.Handshake
import PqMqtt.Transport.Measurements
import PqMqtt.Transport.ConnectCall
import PqMqtt.Transport.Deadlines
import PqMqtt.Transport.Draining
import PqMqtt.Mqtt.Publish
import PqMqtt.Mqtt.Connect
import PqMqtt.Mqtt.Oversized
import PqMqtt.Mqtt.Fragmentation
import PqMqtt.Mqtt.Session
import PqMqtt.Mqtt.RemainingLength
import PqMqtt.Mqtt.PlainConnack
import PqMqtt.Firmware.Attempt
import PqMqtt.Firmware.CampaignReadBack
import PqMqtt.Firmware.Ownership
import PqMqtt.Firmware.PrimitiveReadBack
import PqMqtt.Firmware.Startup
import PqMqtt.Firmware.MemoryWindow
import PqMqtt.Firmware.StackUse
import PqMqtt.Signature.PeerAuth
import PqMqtt.Signature.HawkKeyFile
import PqMqtt.Signature.HonestPeer
import PqMqtt.Signature.HawkPki
import PqMqtt.Signature.Signing
import PqMqtt.Signature.KeyObject
import PqMqtt.Signature.Unwrap
import PqMqtt.Campaign.FlashingOrder
import PqMqtt.Analysis.EpochMatching
import PqMqtt.Analysis.Truncation
import PqMqtt.Analysis.FieldAgreement
import PqMqtt.Analysis.RepeatedCampaign
import PqMqtt.Analysis.DamagedLines
import PqMqtt.Analysis.MissingColumns
import PqMqtt.Analysis.SummaryOrder
import PqMqtt.Analysis.CaptureJoin
import PqMqtt.Analysis.CaptureStreams
import PqMqtt.Analysis.CsvTable
import PqMqtt.Analysis.PrimitiveRows
import PqMqtt.Statistics.MedianInterval
import PqMqtt.Analysis.StatisticsRange
import PqMqtt.Analysis.ParetoLabels
import PqMqtt.Statistics.PooledDeviation
import PqMqtt.Analysis.RationalTimes
import PqMqtt.Firmware.CycleCounter
import PqMqtt.Signature.PemFile
import PqMqtt.Signature.SerialNumber
import PqMqtt.Signature.DerMemory
import PqMqtt.Transport.Transmit
import PqMqtt.Transport.RingMachine
import PqMqtt.Foundation.Backtracking
import PqMqtt.Foundation.CArray
import PqMqtt.Signature.StaticKeys
