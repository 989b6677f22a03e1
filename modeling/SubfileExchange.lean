import SubfileExchange.Basic
import SubfileExchange.Manifest
import SubfileExchange.Path
import SubfileExchange.Http
import SubfileExchange.ChunkLoop
import SubfileExchange.Server.Handler
import SubfileExchange.Server.Init
import SubfileExchange.Server.Cli
import SubfileExchange.Client.Request
import SubfileExchange.Client.Retry
import SubfileExchange.Client.Probe
import SubfileExchange.Client.Downloader
import SubfileExchange.Client.Safety
import SubfileExchange.Client.Content
import SubfileExchange.Client.Progress
import SubfileExchange.Client.Pending
import SubfileExchange.Client.Budget
import SubfileExchange.Client.Passes
import SubfileExchange.Wire
import SubfileExchange.Exchange
import SubfileExchange.Publisher
import SubfileExchange.Pipeline
