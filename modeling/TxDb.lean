import TxDb.Bytes
import TxDb.Serialize
import TxDb.Engine
import TxDb.Coins
import TxDb.Reference
import TxDb.BatchWrite
import TxDb.Recovery
import TxDb.Upgrade
import TxDb.Lookup
import TxDb.Cursor
import TxDb.LoadedCoinFile
import TxDb.WriteFailure
import TxDb.BlockTree
import TxDb.MemPoolTable
import TxDb.UpgradeComplete
import TxDb.KeyOrder
import TxDb.NewsType
import TxDb.Transaction
import TxDb.BlockTreeStore
import TxDb.OPReturnDB
import TxDb.ChainstateView
import TxDb.SnapshotImport
import TxDb.SidechainTreeDB
import TxDb.UpgradeResume
import TxDb.MigratedChainstate
