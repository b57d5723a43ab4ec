import TorrentFs.Cache.Deletions
import TorrentFs.Cache.Paths
import TorrentFs.Cache.StartupIndex
import TorrentFs.Config.Applied
import TorrentFs.Db.ContentSplit
import TorrentFs.Db.DirectoryMoves
import TorrentFs.Db.FileTree
import TorrentFs.Download.AlertConsumer
import TorrentFs.Download.Discovery
import TorrentFs.Download.ReadAhead
import TorrentFs.Download.Retained
import TorrentFs.Download.TimedOut
import TorrentFs.Download.Trackers
import TorrentFs.Download.WaitBudget
import TorrentFs.Fuse.Backpressure
import TorrentFs.Fuse.Buffers
import TorrentFs.Fuse.LastRelease
import TorrentFs.Fuse.OpenFileRuns
import TorrentFs.Fuse.RangeCache
import TorrentFs.Fuse.Readdir
import TorrentFs.Fuse.Stats
import TorrentFs.Fuse.WorkerPool
import TorrentFs.Main.Mountinfo
import TorrentFs.Wrapper.DeclaredPieces
import TorrentFs.Wrapper.PieceHashes
