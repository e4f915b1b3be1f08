import Ykern.Foundation.Bytes
import Ykern.Foundation.Traced
import Ykern.Foundation.Ownership
import Ykern.Foundation.Arena
import Ykern.Foundation.Memory
import Ykern.Foundation.Framing
import Ykern.Foundation.MemoryWalk
import Ykern.Foundation.Loops
import Ykern.Foundation.ReadLoop
import Ykern.Foundation.GrowArray
import Ykern.Foundation.IntLoop
import Ykern.Foundation.Keyed
import Ykern.Foundation.Reorder
import Ykern.Foundation.Numerals
import Ykern.Foundation.Preorder
import Ykern.Foundation.Outline
import Ykern.Overlay.Records
import Ykern.Overlay.Document
import Ykern.Overlay.Loader
import Ykern.Overlay.LoaderRefinement
import Ykern.Overlay.Grammar
import Ykern.Overlay.Capacity
import Ykern.Overlay.Merge
import Ykern.Overlay.Load
import Ykern.Overlay.Nodes
import Ykern.Overlay.KeyOrder
import Ykern.Overlay.Flatten
import Ykern.Overlay.LoaderMemory
import Ykern.Overlay.LoaderSteps
import Ykern.Overlay.LoaderSections
import Ykern.Overlay.LoaderBalance
import Ykern.Genl.Nodes
import Ykern.Genl.OpNames
import Ykern.Netlink.Wire
import Ykern.Netlink.Receive
import Ykern.Netlink.Reading
import Ykern.Netlink.TextBuffer
import Ykern.Netlink.AttrTree
import Ykern.Genl.Request
import Ykern.Genl.RequestEncoding
import Ykern.Genl.AttrNames
import Ykern.Genl.Render
import Ykern.Genl.RenderBounds
import Ykern.Genl.RenderMeaning
import Ykern.Genl.RenderStream
import Ykern.Genl.RenderScalars
import Ykern.Genl.RenderTree
import Ykern.Genl.Bitset
import Ykern.Genl.FamilyMessage
import Ykern.Genl.NestParsing
import Ykern.Genl.FamilyDescription
import Ykern.Genl.KeyOrder
import Ykern.Genl.Namespace
import Ykern.Genl.Invoke
import Ykern.Genl.HeaderSize
import Ykern.Genl.Transport
import Ykern.Genl.ReadOps
import Ykern.Genl.EthtoolRequest
import Ykern.Genl.Numbers
import Ykern.Genl.Arguments
import Ykern.Genl.Browse
import Ykern.Genl.Exchange
import Ykern.Rtnl.Tables
import Ykern.Rtnl.Render
import Ykern.Rtnl.BinaryValues
import Ykern.Rtnl.Invoke
import Ykern.Invocation.Loops
import Ykern.Invocation.Truncation
import Ykern.Invocation.Dump
import Ykern.Invocation.Nodes
import Ykern.Invocation.Outlines
import Ykern.Invocation.Results
import Ykern.Invocation.Waiting
import Ykern.Invocation.IntArithmetic
import Ykern.Genl.Enumeration
import Ykern.Tree.Ownership
import Ykern.Tree.Path
import Ykern.Tree.PathJoin
import Ykern.Tree.Calls
import Ykern.Tree.Nodes
import Ykern.Tree.Retry
import Ykern.Tree.Refresh
import Ykern.Tree.Listing
import Ykern.Tree.FsPaths
import Ykern.Tree.Resolve
import Ykern.Tree.OperationPaths
import Ykern.Tree.Files
import Ykern.Tree.Recurse
import Ykern.Tree.Unfolding
