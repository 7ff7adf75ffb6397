import Scriva.Engine.Candidates
import Scriva.Engine.Deadlines
import Scriva.Engine.FailClosed
import Scriva.Engine.Gate
import Scriva.Engine.Groups
import Scriva.Engine.IndexFiles
import Scriva.Engine.Integers
import Scriva.Engine.KeyedReads
import Scriva.Engine.MetaWrites
import Scriva.Engine.Passphrase
import Scriva.Engine.PlainQueries
import Scriva.Engine.Positions
import Scriva.Engine.Quotas
import Scriva.Engine.Reaping
import Scriva.Engine.Splitting
import Scriva.Engine.TopK
import Scriva.Engine.TornBatches
import Scriva.Replication.Promotion
import Scriva.Replication.Restarts
import Scriva.Replication.Watermark
import Scriva.Replication.Wire
import Scriva.Server.Confinement
import Scriva.Server.Watching
