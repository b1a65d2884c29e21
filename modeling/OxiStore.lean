import OxiStore.Blob.LocalMap
import OxiStore.Blob.LocalPuts
import OxiStore.Blob.Pages
import OxiStore.Blob.Quota
import OxiStore.Blob.Races
import OxiStore.Blob.Rename
import OxiStore.Cache.ArcLists
import OxiStore.Cache.BlobCache
import OxiStore.Cache.Bounded
import OxiStore.Cache.Coherence
import OxiStore.Cache.Doorkeeper
import OxiStore.Cache.Inclusion
import OxiStore.Cache.Panics
import OxiStore.Cache.RowGroups
import OxiStore.Cache.Segments
import OxiStore.Cache.Sharded
import OxiStore.Cache.SketchRuns
import OxiStore.Cache.WriteBackFailures
import OxiStore.Cloud.Addressing
import OxiStore.Cloud.AzureDate
import OxiStore.Cloud.Multipart
import OxiStore.Cloud.Presign
import OxiStore.Cloud.Retry
import OxiStore.Columnar.Disjunction
import OxiStore.Columnar.FloatPruning
import OxiStore.Columnar.Nested
import OxiStore.Columnar.PartitionPruning
import OxiStore.Encrypt.Rotation
import OxiStore.Encrypt.Transplant
import OxiStore.Kv.Eviction
import OxiStore.Kv.Expired
import OxiStore.Kv.FjallCas
import OxiStore.Kv.Interchange
import OxiStore.Kv.Lifetimes
import OxiStore.Kv.Orphans
import OxiStore.Kv.RedbIter
import OxiStore.Kv.RedbLocks
import OxiStore.Kv.SledSnapshots
import OxiStore.Kv.Tables
import OxiStore.Kv.WritePaths
