import DnsBlast.WrappingIntegers
import DnsBlast.LabelledRuns
import DnsBlast.ByteStores
import DnsBlast.PrefixCodes
import DnsBlast.WeightedDraws
import DnsBlast.DecimalText
import DnsBlast.PeriodicActions
import DnsBlast.CStrings
import DnsBlast.DnsReader
import DnsBlast.GetoptLong
import DnsBlast.BlastHeader
import DnsBlast.BlastEncodeName
import DnsBlast.BlastEncodeOverrun
import DnsBlast.BlastReadableNames
import DnsBlast.BlastTypeChoice
import DnsBlast.BlastQuery
import DnsBlast.BlastQuestionBounds
import DnsBlast.BlastSyscalls
import DnsBlast.BlastReceive
import DnsBlast.BlastMain
import DnsBlast.BlastTraffic
import DnsBlast.BlastOptions
import DnsBlast.BlastCommandLine
import DnsBlast.BlastFailedEncoding
import DnsBlast.BlastReceiveBuffer
import DnsBlast.BlastWellFormed
import DnsBlast.BlastQuestions
import DnsBlast.BlastDatagram
import DnsBlast.BlastRealization
import DnsBlast.BlastFuzzing
import DnsBlast.BlastReplies
import DnsBlast.BlastTable
import DnsBlast.BlastLatency
import DnsBlast.RateSchedules
import DnsBlast.BinaryFloats
import DnsBlast.BlastActivity
import DnsBlast.BlastLayout
import DnsBlast.BlastRate
import DnsBlast.BlastDoubles
import DnsBlast.BlastDrain
import DnsBlast.BlastDrainTimeout
import DnsBlast.BlastConsole
import DnsBlast.BlastWireLog
import DnsBlast.BlastStatusLines
import DnsBlast.DatagramChannels
import DnsBlast.BlastNetwork
import DnsBlast.BlastRoundTrips
import DnsBlast.BlastDrainDeadline
import DnsBlast.AmortizedRuns
import DnsBlast.BlastTermination
import DnsBlast.MattblastTermination
import DnsBlast.BlastSchedule
import DnsBlast.BlastAccounting
import DnsBlast.MattblastMain
import DnsBlast.MattblastNetwork
import DnsBlast.MattblastFuncs
import DnsBlast.MattblastArguments
import DnsBlast.MattblastTraffic
import DnsBlast.CommonTraffic
import DnsBlast.MattblastFirstPoll
import DnsBlast.MattblastDrain
import DnsBlast.MattblastRate
import DnsBlast.MattblastBudget
import DnsBlast.MattblastDivision
import DnsBlast.StatusPeriod
