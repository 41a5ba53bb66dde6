import MatchingEngine.DurableEngine.Batching
import MatchingEngine.DurableEngine.Flips
import MatchingEngine.DurableEngine.Lifetime
import MatchingEngine.ExchangeServer.Deployment
import MatchingEngine.ExchangeServer.Exceptions
import MatchingEngine.ExchangeServer.Histogram
import MatchingEngine.ExchangeServer.Notices
import MatchingEngine.Framing
import MatchingEngine.Gateway.Client
import MatchingEngine.Gateway.Create
import MatchingEngine.Gateway.Drained
import MatchingEngine.Gateway.Limits
import MatchingEngine.Gateway.OutputHistory
import MatchingEngine.Gateway.Reservations
import MatchingEngine.Gateway.Service
import MatchingEngine.Gateway.SharedQueue
import MatchingEngine.Journal.Checksum
import MatchingEngine.OrderBook.Acceptance
import MatchingEngine.OrderBook.Allocation
import MatchingEngine.OrderBook.Cancellation
import MatchingEngine.OrderBook.Commute
import MatchingEngine.OrderBook.History
import MatchingEngine.OrderBook.Plan
import MatchingEngine.OrderBook.Priority
import MatchingEngine.OrderBook.Split
import MatchingEngine.OrderBook.Symmetry
import MatchingEngine.OrderBook.Valid
import MatchingEngine.ReferenceBook.Agreement
import MatchingEngine.Storage.Repair
import MatchingEngine.Storage.Returned
import MatchingEngine.WireProtocol.Moments
