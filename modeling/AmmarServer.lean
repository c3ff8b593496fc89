import AmmarServer.Threads.UringGenerations
import AmmarServer.Threads.ApiSegments
import AmmarServer.HeaderAnalysis.RequestedRange
import AmmarServer.Network.SliceTransmission
import AmmarServer.Network.DeclaredLength
import AmmarServer.Threads.UringPosted
import AmmarServer.UserAccounts.Registrations
import AmmarServer.Threads.ClientThreads
import AmmarServer.Network.EntityTags
import AmmarServer.Network.SharedPages
import AmmarServer.UserAccounts.LoginRequests
import AmmarServer.ASVIO.LifeCycle
import AmmarServer.SuperMarket.CartWrites
import AmmarServer.MyURL.LinkRuns
import AmmarServer.HabChan.ThreadRuns
import AmmarServer.HabChan.SiteRuns
import AmmarServer.Threads.UringSubmission
import AmmarServer.Threads.UringQueues
import AmmarServer.HeaderAnalysis.HeaderGrowth
import AmmarServer.AmmMessages.Replies
import AmmarServer.HeaderAnalysis.RequestEnd
import AmmarServer.Social.PostRuns
import AmmarServer.HeaderAnalysis.CookieData
import AmmarServer.Threads.ApiKeepAlive
import AmmarServer.Threads.ApiResponses
import AmmarServer.Threads.ApiPaths
import AmmarServer.AString.DynamicRequests
import AmmarServer.Cache.SessionMap
import AmmarServer.Threads.ApiWriter
import AmmarServer.Cache.FailedInsertions
import AmmarServer.Cache.CacheIndices
import AmmarServer.Cache.RemovedResources
import AmmarServer.Cache.MemoryAccounting
import AmmarServer.Tools.Base64
import AmmarServer.Tools.PathSlashes
import AmmarServer.Tools.HttpDates
import AmmarServer.CSVParser.CurrentLine
import AmmarServer.BasicImaging.TiffBlocks
import AmmarServer.BasicImaging.PnmRoundTrips
import AmmarServer.SuperMarket.ProductKeys
import AmmarServer.Tools.EscapedTexts
import AmmarServer.AmmClient.Downloads
import AmmarServer.AmmClient.FileRequests
import AmmarServer.Services.Identifiers
import AmmarServer.BasicImaging.PzpBlobs
import AmmarServer.BasicImaging.PzpLimits
import AmmarServer.UserAccounts.Sha256Messages
import AmmarServer.ServerConfiguration.ValidLines
import AmmarServer.BasicImaging.ResizePaths
import AmmarServer.HeaderAnalysis.ChunkedArrival
import AmmarServer.Threads.EpollAPIServer
