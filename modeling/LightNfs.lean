import LightNfs.Lock.Wire
import LightNfs.Lock.Canonical
import LightNfs.State.Share
import LightNfs.State.Registry
import LightNfs.State.Owners
import LightNfs.State.Sessions
import LightNfs.State.Issued
import LightNfs.State.GraceReference
import LightNfs.State.Details
import LightNfs.State.DelegCount
import LightNfs.State.DelegShare
import LightNfs.State.Leases
import LightNfs.State.ReclaimList
import LightNfs.State.Seqids
import LightNfs.State.Paths
import LightNfs.State.Recalls
import LightNfs.Lib.Linearize
import LightNfs.State.OpenObject
import LightNfs.State.OpenCalls
import LightNfs.State.OpenLinear
import LightNfs.State.ForeignIds
import LightNfs.Lib.System
import LightNfs.Rpc.Dispatch
import LightNfs.Transport.Connection
import LightNfs.Lib.Projection
import LightNfs.State.Native
import LightNfs.State.Mirror
import LightNfs.Backend.Api
import LightNfs.Core.Errmap
import LightNfs.Core.Exports
import LightNfs.Core.Names
import LightNfs.Core.PseudoFs
import LightNfs.Core.FileHandle
import LightNfs.Nfs4.Attrs
import LightNfs.Lib.Buffer
import LightNfs.Transport.Tls
import LightNfs.Cluster.Lock
import LightNfs.Cluster.Files
import LightNfs.Cluster.Fence
import LightNfs.Cluster.Names
import LightNfs.Cluster.Clients
import LightNfs.Lib.SortedMap
import LightNfs.Core.Catalog
import LightNfs.Core.CatalogText
import LightNfs.Core.CatalogRoundtrip
import LightNfs.Cluster.Catalog
import LightNfs.Core.ExportTable
import LightNfs.Server.CatalogApplier
import LightNfs.Server.CatalogConvergence
import LightNfs.Xdr.Encoder
import LightNfs.Xdr.Decoder
import LightNfs.Transport.RecordMarking
import LightNfs.Rpc.Drc
import LightNfs.Lib.Threads
import LightNfs.Server.ClusterController
import LightNfs.Nfs3.Dispatch
import LightNfs.Core.Utf8
import LightNfs.Nfs3.TryLater
import LightNfs.Backend.LustreLocks
import LightNfs.Core.CatalogDiff
import LightNfs.Core.Settings
import LightNfs.Core.PseudoPaths
import LightNfs.Xdr.Exact
import LightNfs.Nfs4.SetAttrs
import LightNfs.Nfs4.AttrList
