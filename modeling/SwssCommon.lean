import SwssCommon.ConfigDb.ListenConverges
import SwssCommon.ConfigDb.ModConfig
import SwssCommon.ConfigDb.TypedEntries
import SwssCommon.Consumer.WakeUp
import SwssCommon.Counters.Union
import SwssCommon.DbConfig.FailedLoad
import SwssCommon.DbConfig.Separators
import SwssCommon.DbInterface.Blocking
import SwssCommon.Defaults.Lookup
import SwssCommon.Events.Overlap
import SwssCommon.Events.Receive
import SwssCommon.Events.Tracking
import SwssCommon.Fdb.Flush
import SwssCommon.Net.MacAddress
import SwssCommon.Net.Orders
import SwssCommon.Net.PrefixTexts
import SwssCommon.Notification.SubscribeRetry
import SwssCommon.Pipeline.ChunkedDelete
import SwssCommon.Pipeline.Writers
import SwssCommon.Profile.Views
import SwssCommon.Redis.TransactionSessions
import SwssCommon.Select.Scheduling
import SwssCommon.StateTable.Batches
import SwssCommon.StateTable.Confinement
import SwssCommon.StateTable.MinimalSwitch
import SwssCommon.StateTable.Reports
import SwssCommon.Subscriber.Decorator
import SwssCommon.Subscriber.Expiry
import SwssCommon.Subscriber.FreshSelect
import SwssCommon.Table.SameNames
import SwssCommon.Table.UpdaterThread
import SwssCommon.Text.Printable
import SwssCommon.Text.Tokenize
import SwssCommon.Waiter.TableWaiter
import SwssCommon.WarmStart.History
import SwssCommon.Zmq.ConcurrentSend
import SwssCommon.Zmq.Lifetimes
import SwssCommon.Zmq.MemorySafety
import SwssCommon.Zmq.Persistence
import SwssCommon.Zmq.Wait
import SwssCommon.Zmq.WakeUp
