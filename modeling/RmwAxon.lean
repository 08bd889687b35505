import RmwAxon.QueueRun
import RmwAxon.PeekReceive
import RmwAxon.KeepAll
import RmwAxon.SourceMix
import RmwAxon.LateHistory
import RmwAxon.RmwTake
import RmwAxon.StartupHistory
import RmwAxon.EndpointTables
import RmwAxon.CreateFailure
import RmwAxon.UniqueMatches
import RmwAxon.MergeEquivalence
import RmwAxon.SlotRun
import RmwAxon.ChannelRun
import RmwAxon.PeerExpiry
import RmwAxon.TopologyRun
import RmwAxon.GraphAuth
import RmwAxon.ServiceResponse
import RmwAxon.RequestRun
import RmwAxon.PendingRun
import RmwAxon.RequestRetry
import RmwAxon.SyncCanonical
import RmwAxon.SyncImage
import RmwAxon.MessageKeyRun
import RmwAxon.ReplayRun
import RmwAxon.KeyAgreement
import RmwAxon.KeyCopy
import RmwAxon.TopicPublication
import RmwAxon.AdvertisedQos
import RmwAxon.FilterMeaning
import RmwAxon.WaitReturn
import RmwAxon.EventCounts
import RmwAxon.DeadlineReceive
import RmwAxon.CreationRace
import RmwAxon.LoanedPublish
import RmwAxon.EventFds
import RmwAxon.RemoteForward
import RmwAxon.TopicFixpoint
import RmwAxon.MatchCells
import RmwAxon.MergeAgain
import RmwAxon.Onward
import RmwAxon.HistoryFirst
import RmwAxon.ServiceCount
import RmwAxon.ProcStat
import RmwAxon.RmwDuration
import RmwAxon.DeadlineCount
import RmwAxon.LivelinessLapse
import RmwAxon.TakeRace
import RmwAxon.ServicePeek
import RmwAxon.WireHeader
import RmwAxon.Budget
import RmwAxon.Reservation
import RmwAxon.RingRefinement
