import Astrologer.BinaryHeap.History
import Astrologer.Server.Reference
import Astrologer.Server.Store
import Astrologer.Server.Conversation
import Astrologer.Server.Expiry
import Astrologer.Server.Isolation
import Astrologer.Server.Discipline
import Astrologer.Server.BufferSafety
import Astrologer.Server.Commutation
import Astrologer.Server.Timeout
import Astrologer.Proxy.Survival
import Astrologer.Proxy.Failure
import Astrologer.Proxy.Denial
import Astrologer.Boost.AccessControl
import Astrologer.Boost.Denial
import Astrologer.Boost.Deadline
import Astrologer.Boost.Accepting
import Astrologer.Boost.Multiclient
import Astrologer.Boost.Convert
import Astrologer.BinaryHeap.Validate
import Astrologer.BinaryHeap.Bytes
import Astrologer.Generic.BufferedRecv
import Astrologer.Server.DeadlinePolicy
import Astrologer.Proxy.Agreement
import Astrologer.Proxy.Main
import Astrologer.Clients.Completion
import Astrologer.BinaryHeap.Selftest
import Astrologer.BinaryHeap.Cost
import Astrologer.Boost.Deployment
import Astrologer.Boost.Confinement
import Astrologer.Boost.ClientOperations
import Astrologer.Boost.MulticlientMain
import Astrologer.OneProtocol
