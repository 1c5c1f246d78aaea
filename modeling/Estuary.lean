import Estuary.Engine.Exec
import Estuary.Engine.Retry
import Estuary.Engine.Loop
import Estuary.Engine.Relate
import Estuary.Engine.Run
import Estuary.Engine.Threads
import Estuary.Engine.Patch
import Estuary.Engine.Ring
import Estuary.Engine.Interleave
import Estuary.Engine.Channel
import Estuary.Engine.Stretch
import Estuary.Engine.Dir
import Estuary.Engine.Spool
import Estuary.Spec.Platform
import Estuary.Spec.Event
import Estuary.Spec.Store
import Estuary.Spec.Growbuffer
import Estuary.Growbuffer
import Estuary.Spec.Ring
import Estuary.Spec.Coordinator
import Estuary.Spec.Target
import Estuary.Spec.Archive
import Estuary.Spec.Restore
import Estuary.Spec.Item
import Estuary.Target
import Estuary.Spec.Options
import Estuary.Options
import Estuary.Spec.ActionList
import Estuary.Walk
import Estuary.Spec.Dispatcher
import Estuary.Dispatch
import Estuary.Permits
import Estuary.Spec.Crew
import Estuary.Attempts
import Estuary.Chunk
import Estuary.Transfer
import Estuary.Report
import Estuary.Handle
import Estuary.Verbosity
import Estuary.MajorErrors
import Estuary.Spec.Quota
import Estuary.Quota
import Estuary.Download
import Estuary.Restored
import Estuary.Extent
import Estuary.Requests
import Estuary.Upload
import Estuary.Replay
import Estuary.Survive
import Estuary.Progress
import Estuary.Document
import Estuary.Queue
import Estuary.Ring
import Estuary.Listing
import Estuary.Commit
import Estuary.Assembly
import Estuary.Archived
import Estuary.RoundTrip
import Estuary.Rename
import Estuary.Spec.Service
import Estuary.Service
import Estuary.Atomic
import Estuary.Spec.LogLine
import Estuary.LogLine
import Estuary.Spec.Log
import Estuary.LogMove
import Estuary.Log
import Estuary.LogRuns
import Estuary.Printers
import Estuary.LogLag
import Estuary.Spec.LogFile
import Estuary.LogFile
import Estuary.Rotation
import Estuary.Spec.Logging
import Estuary.Logging
