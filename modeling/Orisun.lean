import Orisun.Proofs.Admin.AuthProjector
import Orisun.Proofs.Admin.Authorization
import Orisun.Proofs.Admin.BoundaryProvisioning
import Orisun.Proofs.Admin.CatalogQuery
import Orisun.Proofs.Admin.UserCalls
import Orisun.Proofs.Admin.UserCount
import Orisun.Proofs.LockNames
import Orisun.Proofs.NormalForms
import Orisun.Proofs.NumberComparison
import Orisun.Proofs.PositionDiscipline
import Orisun.Proofs.Postgres.GroupCommit
import Orisun.Proofs.Postgres.Input
import Orisun.Proofs.Postgres.SchemaIndexes
import Orisun.Proofs.Postgres.Subscribers
import Orisun.Proofs.Postgres.UserCache
import Orisun.Proofs.Sqlite.BoundaryStorage
import Orisun.Proofs.Sqlite.Enqueue
import Orisun.Proofs.Sqlite.EventCount
import Orisun.Proofs.Sqlite.EventDocument
import Orisun.Proofs.Sqlite.EventSignal
import Orisun.Proofs.Sqlite.Indexes
import Orisun.Proofs.Sqlite.LatestLookup
import Orisun.Proofs.Sqlite.Migration
import Orisun.Proofs.Sqlite.UserCache
import Orisun.Proofs.Wakeups
import Orisun.Proofs.WriteProvenance
