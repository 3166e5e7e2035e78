import QvPlugin.Common.CommonTypes
import QvPlugin.Common.ConnectionRoundTrip
import QvPlugin.Common.ProfileNormalise
import QvPlugin.Common.ProfileRoundTrip
import QvPlugin.Common.ReloadTarget
import QvPlugin.Common.SafeType
import QvPlugin.Common.TimestampCodec
import QvPlugin.Common.WellFormed
import QvPlugin.Lib.Carry
import QvPlugin.Lib.Cells
import QvPlugin.Lib.Family
import QvPlugin.Lib.Forest
import QvPlugin.Lib.History
import QvPlugin.Lib.KeyMap
import QvPlugin.Lib.Lens
import QvPlugin.Lib.ModifyAll
import QvPlugin.Lib.Periodic
import QvPlugin.Lib.Reorder
import QvPlugin.Lib.Run
import QvPlugin.Lib.Shared
import QvPlugin.Qt.Bytes
import QvPlugin.Qt.Json
import QvPlugin.Qt.Path
import QvPlugin.Qt.PathWrite
import QvPlugin.Qt.PathOrder
import QvPlugin.Qt.Socket
import QvPlugin.Utils.ArrayCalls
import QvPlugin.Utils.IndexAlias
import QvPlugin.Utils.IntegerCodec
import QvPlugin.Utils.JsonConversion
import QvPlugin.Utils.MergeJson
import QvPlugin.Utils.MergeAssoc
import QvPlugin.Utils.MergePaths
import QvPlugin.Utils.MergeLoad
import QvPlugin.Utils.ClauseSpec
import QvPlugin.Utils.FreshTarget
import QvPlugin.Utils.GetValue
import QvPlugin.Utils.Leaves
import QvPlugin.Utils.LoadJson
import QvPlugin.Utils.MapDecode
import QvPlugin.Utils.QJsonIO
import QvPlugin.Utils.Normalise
import QvPlugin.Utils.ParentTypes
import QvPlugin.Utils.Patch
import QvPlugin.Utils.PathDefault
import QvPlugin.Utils.PathLaws
import QvPlugin.Utils.PathOrder
import QvPlugin.Utils.PathConcat
import QvPlugin.Utils.Bindable
import QvPlugin.Utils.Propagation
import QvPlugin.Utils.Reach
import QvPlugin.Utils.Observers
import QvPlugin.Utils.ConnectionOrder
import QvPlugin.Utils.ReadWriteBind
import QvPlugin.Utils.PropertyBind
import QvPlugin.Utils.PropertyRuns
import QvPlugin.Utils.PropertyPair
import QvPlugin.Utils.Reload
import QvPlugin.Utils.RoundTrip
import QvPlugin.Utils.LinkedMembers
import QvPlugin.Utils.MemberEdits
import QvPlugin.Utils.RoundTripIff
import QvPlugin.Utils.ToJson
import QvPlugin.Utils.SetValue
import QvPlugin.Socksify.SocketStream
import QvPlugin.Socksify.HttpRequest
import QvPlugin.Socksify.HttpProxy
import QvPlugin.Socksify.ClientInvariant
import QvPlugin.Socksify.Requests
import QvPlugin.Socksify.Failure
import QvPlugin.Socksify.Answers
import QvPlugin.Socksify.Tunnel
import QvPlugin.Socksify.ObjectTree
import QvPlugin.Socksify.TreeInvariant
import QvPlugin.Socksify.TreeParts
import QvPlugin.Socksify.TreeView
import QvPlugin.Socksify.TreeRefinement
import QvPlugin.Socksify.Isolation
