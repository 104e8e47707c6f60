import PolyORB.Giop.Emission
import PolyORB.Giop.ReassemblyRun
import PolyORB.Giop.ClientRun
import PolyORB.Giop.Conversions
import PolyORB.Giop.ListeningRun
import PolyORB.Giop.ServerRun
import PolyORB.Naming.NameRoundTrip
import PolyORB.Poa.HoldingRun
import PolyORB.Requests.Unspecified
import PolyORB.Tasking.LanesRun
import PolyORB.Buffers.Sending
import PolyORB.Giop.Framing
import PolyORB.Any.StructuralEquality
import PolyORB.Any.UnionTables
import PolyORB.Giop.LocateReply
import PolyORB.Giop.ServerArguments
import PolyORB.Miop.Loss
import PolyORB.Initialization.Order
import PolyORB.Poa.ActivationRun
import PolyORB.Poa.FailedOperations
import PolyORB.Poa.Dispatch
import PolyORB.Poa.RelativeUriRoundTrip
import PolyORB.Moma.Routers
import PolyORB.Interceptors.ClientInvoke
import PolyORB.Interceptors.ServerInvoke
import PolyORB.Dns.SessionRun
import PolyORB.Security.Publication
import PolyORB.Dns.MessageRoundTrip
import PolyORB.Events.ChannelRun
import PolyORB.Orb.BindingObjectsRun
import PolyORB.Dsa.StoragesRun
import PolyORB.Dsa.SharedMemory
import PolyORB.Groups.ServantsRun
import PolyORB.Iac.ConstantExpressions
import PolyORB.Tasking.RavenscarRun
import PolyORB.Naming.ListingRun
import PolyORB.Orb.BookkeepingRun
import PolyORB.Orb.ThreadPoolRun
import PolyORB.Gnatdist.Reordering
import PolyORB.Gnatdist.ClosureRun
import PolyORB.Giop.Negotiation
import PolyORB.Tasking.RwLocks
import PolyORB.Events.PullEngines
import PolyORB.Cdr.FixedPoint
import PolyORB.Cdr.SequenceLengths
import PolyORB.Http.ReadBack
import PolyORB.Buffers.StorageRun
import PolyORB.References.Profiles
import PolyORB.Qos.ServiceContexts
import PolyORB.Security.ExportedNames
import PolyORB.Security.SasContexts
import PolyORB.Iac.FixedPoint
import PolyORB.Tasking.AdvancedMutexes
import PolyORB.Cos.TimeService
import PolyORB.Utils.DynamicTables
