import IasClient.Framework.Run
import IasClient.Framework.OrdMap
import IasClient.Model.Globals
import IasClient.Model.Worker
import IasClient.Model.Aggregate
import IasClient.Model.Download
import IasClient.Model.Ip
import IasClient.Model.Ping
import IasClient.Model.Callback
import IasClient.Model.Measurement
import IasClient.Control.WorkerEffect
import IasClient.Control.Joined
import IasClient.Control.NoStuck
import IasClient.Control.Exclusive
import IasClient.Control.Order
import IasClient.Control.Lifetime
import IasClient.Control.Window
import IasClient.Control.Dropped
import IasClient.Accounting.Segmentation
import IasClient.Accounting.Origin
import IasClient.Accounting.Bins
import IasClient.Accounting.DownloadWindow
import IasClient.Accounting.PingQueue
import IasClient.Control.Barrier
import IasClient.Control.Pace
import IasClient.Control.Series
import IasClient.Accounting.History
import IasClient.Control.FailedStart
import IasClient.Control.Polled
import IasClient.Control.TlsParameters
import IasClient.Accounting.PingReplies
import IasClient.Accounting.Malformed
import IasClient.Accounting.Aggregation
import IasClient.Accounting.StampWrap
import IasClient.Accounting.Overhead
import IasClient.Accounting.SenderRange
import IasClient.Control.RelativeTimes
import IasClient.Accounting.WindowClose
import IasClient.Accounting.IpSegments
import IasClient.Control.Independence
import IasClient.Control.Restart
import IasClient.Accounting.HandedBins
import IasClient.Control.UploadFirst
import IasClient.Control.BadParameters
import IasClient.Control.LastSettings
import IasClient.Framework.Ranking
import IasClient.Control.Progress
import IasClient.Control.StopEnds
import IasClient.Framework.Simulation
import IasClient.Control.Protocol
import IasClient.Control.Completion
import IasClient.Framework.Climb
import IasClient.Accounting.RttHistory
import IasClient.Control.FinalResults
import IasClient.Model.TimeInfo
import IasClient.Control.Timeline
import IasClient.Model.Senders
import IasClient.Control.SendersJoined
import IasClient.Framework.Grouped
import IasClient.Model.BandwidthResult
import IasClient.Accounting.RawData
import IasClient.Model.CommandLine
import IasClient.Control.CommandLine
