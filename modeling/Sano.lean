import Sano.Base.Binary64
import Sano.Base.Encoding
import Sano.Base.FileTree
import Sano.Base.JsonNumber
import Sano.Base.JsonText
import Sano.Base.Ledger
import Sano.Base.LinkedMap
import Sano.Base.Matched
import Sano.Base.Numeral
import Sano.Base.Outcome
import Sano.Base.Reach
import Sano.Base.Recursion
import Sano.Base.Run
import Sano.Base.Scientific
import Sano.Base.Split
import Sano.Base.Utf8
import Sano.Framework.Assets
import Sano.Framework.Bridge
import Sano.Framework.Bundle
import Sano.Framework.Cache
import Sano.Framework.Channel
import Sano.Framework.Closing
import Sano.Framework.Extraction
import Sano.Framework.Instance
import Sano.Framework.Paths
import Sano.Framework.Script
import Sano.Framework.Views
import Sano.Framework.Written
import Sano.Render.Attributes
import Sano.Render.Batch
import Sano.Render.Construction
import Sano.Render.Document
import Sano.Render.Element
import Sano.Render.Evolution
import Sano.Render.Frame
import Sano.Render.Json
import Sano.Render.Kinds
import Sano.Render.Notifier
import Sano.Render.Parse
import Sano.Render.Placement
import Sano.Render.Refinement
import Sano.Render.Reflection
import Sano.Render.Registry
import Sano.Render.Repaint
import Sano.Render.Routing
import Sano.Render.Schedule
import Sano.Render.Screen
import Sano.Render.Slot
import Sano.Render.Stale
import Sano.Render.Update
import Sano.Render.View
import Sano.Render.Visible
import Sano.Render.Widget
import Sano.Runtime.Array
import Sano.Runtime.Capability
import Sano.Runtime.Cleanup
import Sano.Runtime.Clocks
import Sano.Runtime.Collector
import Sano.Runtime.Cycles
import Sano.Runtime.Delivery
import Sano.Runtime.Digits
import Sano.Runtime.Heap
import Sano.Runtime.Host
import Sano.Runtime.Independence
import Sano.Runtime.Jobs
import Sano.Runtime.Layout
import Sano.Runtime.Marshal
import Sano.Runtime.Memory
import Sano.Runtime.Message
import Sano.Runtime.Number
import Sano.Runtime.Observer
import Sano.Runtime.Promise
import Sano.Runtime.Property
import Sano.Runtime.Reactions
import Sano.Runtime.StringBuffer
import Sano.Runtime.Text
import Sano.Runtime.Timer
import Sano.Runtime.Value
