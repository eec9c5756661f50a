import Vender.PollCredit
import Vender.Till
import Vender.Refund
import Vender.Arrivals
import Vender.EventLoop
import Vender.DryRun
import Vender.FileUart
import Vender.PacketReader
import Vender.PacketStore
import Vender.OwnRequest
import Vender.IodinUart
import Vender.Firmware.Success
import Vender.BillValidator
import Vender.PollSafety
import Vender.Firmware.Calls
import Vender.Firmware.CommandLoop
import Vender.Lib.PrefixCode
import Vender.Mega.Protocol
import Vender.Mega.RoundTrip
import Vender.Firmware.Engine
import Vender.Firmware.Armed
import Vender.Firmware.Quiescent
import Vender.Firmware.Started
import Vender.Firmware.Transmit
import Vender.Firmware.Slave
import Vender.Firmware.Writes
import Vender.Firmware.Readout
import Vender.Sequence
import Vender.WakeUp
import Vender.Resume
import Vender.IodinClient
import Vender.IodinServer
import Vender.ExactChange
import Vender.Lib.Change
import Vender.OnePass
import Vender.LeastCount
import Vender.Mega.Client
import Vender.SerialWords
import Vender.SerialLine
import Vender.Mega.Dispatch
import Vender.GpioAnswers
import Vender.SameReplies
import Vender.MdbTx
import Vender.Setup
import Vender.BillPoll
import Vender.PollReady
import Vender.Crc
import Vender.CrcBursts
import Vender.ServerSafety
import Vender.SendWait
import Vender.ReceiveBound
import Vender.Mega.Reads
import Vender.Firmware.BreakTime
import Vender.Firmware.Accesses
import Vender.Firmware.Represented
import Vender.Firmware.Spared
import Vender.Firmware.Exchange
import Vender.Mega.Transactions
import Vender.MultiWait
import Vender.ActionList
import Vender.MdbCli
import Vender.DeviceInit
import Vender.MdbBus
import Vender.IodinPipe
import Vender.NinthBit
import Vender.Lcd
import Vender.PacketText
import Vender.PollLoops
import Vender.DeviceResets
