import DistributedAvl.Foundation.Tally
import DistributedAvl.Foundation.SearchTree
import DistributedAvl.Foundation.Runs
import DistributedAvl.Foundation.OrderedMap
import DistributedAvl.Foundation.HeapOrder
import DistributedAvl.Foundation.Streams
import DistributedAvl.Foundation.Calls
import DistributedAvl.Foundation.Pool
import DistributedAvl.Tree.Word
import DistributedAvl.Tree.NodeData
import DistributedAvl.Tree.Codec
import DistributedAvl.Tree.Subtree
import DistributedAvl.Tree.Operations
import DistributedAvl.Tree.Local
import DistributedAvl.Tree.View
import DistributedAvl.Tree.Valid
import DistributedAvl.Insertion.Pivot
import DistributedAvl.Insertion.Path
import DistributedAvl.Insertion.Rebalance
import DistributedAvl.Insertion.Low
import DistributedAvl.Insertion.Order
import DistributedAvl.Insertion.Words
import DistributedAvl.Insertion.Heights
import DistributedAvl.Insertion.Total
import DistributedAvl.Insertion.Counts
import DistributedAvl.Insertion.Unrotated
import DistributedAvl.Insertion.Blanks
import DistributedAvl.Removal.Found
import DistributedAvl.Removal.Remove
import DistributedAvl.Removal.Absent
import DistributedAvl.Removal.NullSafety
import DistributedAvl.Removal.Balance
import DistributedAvl.Remote.Carried
import DistributedAvl.Remote.Rotation
import DistributedAvl.Rotation.Textbook
import DistributedAvl.Rotation.PushPull
import DistributedAvl.Rotation.SetSubtree
import DistributedAvl.Remote.TreeManager
import DistributedAvl.Remote.Client
import DistributedAvl.Remote.Agreement
import DistributedAvl.Remote.RoundTrip
import DistributedAvl.Remote.Fetch
import DistributedAvl.Remote.Totals
import DistributedAvl.Remote.Distributed
import DistributedAvl.Remote.Preorder
import DistributedAvl.Remote.Gathered
import DistributedAvl.Remote.Traffic
import DistributedAvl.Remote.Sides
import DistributedAvl.Remote.Links
import DistributedAvl.Worker.AVLTree
import DistributedAvl.Worker.Pairing
import DistributedAvl.Worker.Conservation
import DistributedAvl.Worker.Totals
import DistributedAvl.Startup.Endpoints
import DistributedAvl.Startup.Links
import DistributedAvl.Startup.OwnEndpoint
import DistributedAvl.Startup.Server
import DistributedAvl.Startup.Roles
import DistributedAvl.Startup.Registration
import DistributedAvl.Startup.Dummy
import DistributedAvl.Startup.Serving
import DistributedAvl.Startup.Addresses
import DistributedAvl.Startup.Threads
import DistributedAvl.Wire.Connection
import DistributedAvl.Wire.Frames
import DistributedAvl.Wire.Delivery
import DistributedAvl.Wire.Packing
import DistributedAvl.Wire.Line
import DistributedAvl.Remote.Session
import DistributedAvl.Requests.FileManager
import DistributedAvl.Requests.RootDutiesManager
import DistributedAvl.Requests.Delivery
import DistributedAvl.Requests.Completion
import DistributedAvl.Requests.Totals
