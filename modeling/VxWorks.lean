import VxWorks.Lib.Buffer
import VxWorks.Lib.Chains
import VxWorks.Lib.Countdown
import VxWorks.Lib.Delta
import VxWorks.Lib.Octets
import VxWorks.Lib.Ring
import VxWorks.Lib.Run
import VxWorks.Netinet.Igmp
import VxWorks.Netinet.IgmpTimers
import VxWorks.Netinet.InPcb
import VxWorks.Netinet.InPcbLookup
import VxWorks.Netinet.InPcbTable
import VxWorks.Netinet.Membership
import VxWorks.Lib.Pieces
import VxWorks.Netinet.IpInput
import VxWorks.Netinet.IpOutput
import VxWorks.Netinet.IpReassembly
import VxWorks.Netinet.IpRoundTrip
import VxWorks.Netinet.SlCompress
import VxWorks.Netinet.SlHeaders
import VxWorks.Netinet.SlReceiver
import VxWorks.Netinet.SlRoundTrip
import VxWorks.Netinet.SlSlots
import VxWorks.Ppp.Callout
import VxWorks.Ppp.CalloutTimes
import VxWorks.Ppp.Chap
import VxWorks.Ppp.ChapRun
import VxWorks.Ppp.ChapTimers
import VxWorks.Ppp.Fsm
import VxWorks.Ppp.FsmHandshake
import VxWorks.Ppp.FsmLife
import VxWorks.Ppp.FsmRun
import VxWorks.Ppp.FsmTable
import VxWorks.Ppp.FsmRetry
import VxWorks.Ppp.IfPpp
import VxWorks.Ppp.Transmit
import VxWorks.Ppp.Framing
import VxWorks.Ppp.Mru
import VxWorks.Ppp.PktIn
import VxWorks.Lib.Codec
import VxWorks.Lib.Cursor
import VxWorks.Ppp.Lcp
import VxWorks.Ppp.Ipcp
import VxWorks.Ppp.ReqOptions
import VxWorks.Ppp.ReqBuffer
import VxWorks.Ppp.ReqRecorded
import VxWorks.Ppp.ReqJudged
import VxWorks.Ppp.ReqReply
import VxWorks.Ppp.NakBuffer
import VxWorks.Ppp.NakReads
import VxWorks.Ppp.Session
import VxWorks.Ppp.EchoTimer
import VxWorks.Ppp.AckExact
import VxWorks.Ppp.Layers
import VxWorks.Ppp.Output
import VxWorks.Ppp.EchoReply
import VxWorks.Ppp.Fallback
import VxWorks.Ppp.NakOptions
import VxWorks.Ppp.NakAccepted
import VxWorks.Ppp.NakLimit
import VxWorks.Ppp.LcpTurn
import VxWorks.Ppp.LcpLink
import VxWorks.Ppp.LcpAgree
import VxWorks.Ppp.LinkDown
import VxWorks.Ppp.NetworkPhase
import VxWorks.Ppp.RejExact
import VxWorks.Ppp.Getword
import VxWorks.Ppp.GetwordBounds
import VxWorks.Ppp.Secrets
import VxWorks.Netinet.IpMroute
import VxWorks.Netinet.IpOptions
import VxWorks.Lib.Traced
import VxWorks.Netinet.SourceRoute
import VxWorks.Netinet.OptionBounds
import VxWorks.Netinet.OptionCopy
import VxWorks.Netinet.RoutePath
import VxWorks.Ppp.Receive
import VxWorks.Ppp.PppOutput
import VxWorks.Ppp.Crossing
import VxWorks.Ppp.PppLink
import VxWorks.Netinet.IpSend
import VxWorks.Netinet.VifTable
import VxWorks.Netinet.CopyFromMbufs
import VxWorks.Netinet.EphemeralPort
import VxWorks.Lib.OnesSum
import VxWorks.Netinet.InCksum
import VxWorks.Netinet.IpTunnel
import VxWorks.Netinet.IcmpError
import VxWorks.Netinet.IcmpReflect
import VxWorks.Netinet.IfEther
import VxWorks.Netinet.ArpDelivery
import VxWorks.Netinet.ArpRate
import VxWorks.Fs.DosPart
import VxWorks.Fs.DosPartPlaced
import VxWorks.Lib.Descent
import VxWorks.Fs.DosPartReturns
import VxWorks.Fs.DosPartRdLba
import VxWorks.Usb.HandleLib
import VxWorks.Usb.TargControl
import VxWorks.Usb.TargExclusive
import VxWorks.Usb.TargPipes
import VxWorks.Usb.TargToggle
import VxWorks.Usb.TargReset
import VxWorks.Usb.TargTeardown
import VxWorks.Lib.Scan
import VxWorks.Lib.Circular
import VxWorks.Usb.QueueLib
import VxWorks.Usb.DescrCopyLib
import VxWorks.Usb.CmdParser
import VxWorks.Lib.RingMem
import VxWorks.Drv.Ax88796
import VxWorks.Drv.Ax88796Ring
import VxWorks.Lib.Inevitable
import VxWorks.Drv.Ax88796RxLoop
import VxWorks.Drv.Ax88796Tx
import VxWorks.Drv.Ax88796TxRing
import VxWorks.Drv.BackplaneRun
import VxWorks.Drv.Ax88796Send
import VxWorks.Drv.Ax88796Padding
import VxWorks.Lib.Qsort
import VxWorks.Lib.TableWalk
import VxWorks.Snmp.TaskWalk
import VxWorks.Snmp.TaskSet
import VxWorks.Snmp.TaskUndo
import VxWorks.Snmp.TaskRequest
import VxWorks.Lib.Maximal
import VxWorks.Netinet.IfList
import VxWorks.Netinet.Ifconf
import VxWorks.Netinet.ArpInput
import VxWorks.Netinet.InControl
import VxWorks.Netinet.JoinLeave
import VxWorks.Netinet.IgmpLan
import VxWorks.Lib.Flood
import VxWorks.Netinet.IpMforward
import VxWorks.Netinet.MulticastCopy
import VxWorks.Netinet.Mbone
import VxWorks.Lib.Crc
import VxWorks.Ppp.Fcs
import VxWorks.Lib.Links
import VxWorks.Usb.ListLib
import VxWorks.Fs.Mkboot
import VxWorks.Bsp.Dec2155x
import VxWorks.Lib.Gather
import VxWorks.Lib.Feistel
import VxWorks.Ppp.Crypt
import VxWorks.Ppp.CryptPerm
import VxWorks.Ppp.Des
import VxWorks.Ppp.DesRound
import VxWorks.Ppp.DesKeys
import VxWorks.Ppp.DesBlock
