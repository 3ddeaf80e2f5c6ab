import InternetProgramming.Interaction.Trace
import InternetProgramming.Interaction.Ledger
import InternetProgramming.Interaction.Buffer
import InternetProgramming.Interaction.Fifo
import InternetProgramming.Interaction.Registry
import InternetProgramming.Interaction.Settings
import InternetProgramming.Interaction.Pool
import InternetProgramming.Interaction.Compose
import InternetProgramming.Posix
import InternetProgramming.Socket
import InternetProgramming.SocketSpec
import InternetProgramming.Select
import InternetProgramming.Readiness
import InternetProgramming.Ownership
import InternetProgramming.Rollback
import InternetProgramming.EchoServer
import InternetProgramming.UdpIdentity
import InternetProgramming.SelectServer
import InternetProgramming.ReceivePaths
import InternetProgramming.ServerLimits
import InternetProgramming.ClientTable
import InternetProgramming.ClientEcho
import InternetProgramming.Transfer
import InternetProgramming.Endpoints
import InternetProgramming.SocketOptions
import InternetProgramming.UdpReply
import InternetProgramming.WatchedFds
import InternetProgramming.ReadyCalls
import InternetProgramming.LineClient
import InternetProgramming.TimerListSpec
import InternetProgramming.IdleServerSpec
import InternetProgramming.HttpGrammar
import InternetProgramming.EpollServerSpec
import InternetProgramming.ChatRoom
