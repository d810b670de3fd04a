import LaserDB.Cluster.AnsibleOperation
import LaserDB.Cluster.BaseSwap
import LaserDB.Cluster.ControlPlane
import LaserDB.Cluster.DatabaseManager
import LaserDB.Cluster.FollowerProgress
import LaserDB.Cluster.ReportedMetrics
import LaserDB.Cluster.SingleTransfer
import LaserDB.Cluster.SourceShard
import LaserDB.Concurrency.KeyLocks
import LaserDB.Ingest.DeltaSst
import LaserDB.Ingest.IngestFile
import LaserDB.Ingest.InputLine
import LaserDB.Proxy.CommandMeaning
import LaserDB.Proxy.Recovery
import LaserDB.Proxy.RedisKey
import LaserDB.Refinement.ExpiredWrite
import LaserDB.Refinement.Hash
import LaserDB.Refinement.ListRange
import LaserDB.Refinement.Orphans
import LaserDB.Refinement.Set
import LaserDB.Refinement.Strings
import LaserDB.Refinement.ZSet
import LaserDB.Replication.Checkpoint
import LaserDB.Replication.PullLoop
import LaserDB.Routing.ConnGroup
import LaserDB.Routing.ConnectionPool
import LaserDB.Routing.GoClient
import LaserDB.Routing.Nearby
import LaserDB.Routing.Registry
import LaserDB.Service.Counters
import LaserDB.Service.TrafficRestriction
import LaserDB.Service.AutoExpire
