import Softmodem.Lib.Transition
import Softmodem.Serial.Channel
import Softmodem.AudioSocket.Wire
import Softmodem.V22bis.Transmitter
import Softmodem.V22bis.Receiver
import Softmodem.Lib.DelayLine
import Softmodem.V22bis.Link
import Softmodem.V22bis.SlowSide
import Softmodem.V22bis.RateAgreement
import Softmodem.Call.Audio
import Softmodem.Call.Ppp
import Softmodem.Call.Run
import Softmodem.Call.Steps
import Softmodem.Call.AudioBounds
import Softmodem.Call.DataMode
import Softmodem.AudioSocket.Prompt
import Softmodem.V22bis.Idle
import Softmodem.Call.PlainCall
import Softmodem.Call.NormalOperation
import Softmodem.Call.ToLine
import Softmodem.Call.FromLine
import Softmodem.Call.Delivery
import Softmodem.Lib.CString
import Softmodem.Sip.Message
import Softmodem.Sip.Media
import Softmodem.Sip.Run
import Softmodem.Lib.Ledger
import Softmodem.Sip.Lifecycle
import Softmodem.Sip.Isolation
import Softmodem.Sip.ByeDialog
import Softmodem.Sip.Answering
import Softmodem.Sip.Outcome
import Softmodem.Lib.Mealy
import Softmodem.V22bis.Scrambling
import Softmodem.Lib.Rounding
import Softmodem.V22bis.Symbols
import Softmodem.Lib.Memory
import Softmodem.Ppp.Shim
import Softmodem.Lib.CText
import Softmodem.Sip.Lines
import Softmodem.Sip.SelfContained
import Softmodem.Sip.Rendered
import Softmodem.Sip.Requests
import Softmodem.Sip.Transaction
import Softmodem.Bbs.Cuts
import Softmodem.Bbs.Gate
import Softmodem.V22bis.CarrierLoss
import Softmodem.Call.EndOfV8
import Softmodem.Call.DeadPppd
import Softmodem.Call.Sequencing
import Softmodem.Call.Link
import Softmodem.Serial.Assembly
import Softmodem.Call.Periods
import Softmodem.Call.AllowedEvents
import Softmodem.Call.Retrain
import Softmodem.Lib.Printing
import Softmodem.Sip.ResponseBuffer
import Softmodem.Sip.Rtp
import Softmodem.Sip.RtpStream
import Softmodem.Sip.PeerBinding
import Softmodem.Lib.Pacer
import Softmodem.Sip.Pacing
import Softmodem.Sip.ReplyPairing
import Softmodem.Sip.Offer
import Softmodem.Ppp.Drain
import Softmodem.Serial.Recovery
import Softmodem.AudioSocket.Stream
import Softmodem.Sip.FailedWrite
import Softmodem.Call.Capture
import Softmodem.Bbs.Geometry
import Softmodem.Bbs.Connection
import Softmodem.Lib.Beat
import Softmodem.V22bis.SymbolTiming
import Softmodem.Audio.Ring
import Softmodem.Audio.Queue
import Softmodem.Audio.Capacity
import Softmodem.Bbs.Away
import Softmodem.Bbs.Buffers
import Softmodem.Bbs.SharedTable
import Softmodem.Serial.Conservation
import Softmodem.V22bis.Acquisition
import Softmodem.Lib.LogCell
import Softmodem.Sip.Companding
