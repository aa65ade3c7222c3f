import Eggwork.Runner.Accounting
import Eggwork.Runner.Isolation
import Eggwork.Runner.Targets
import Eggwork.Store.Recovery
import Eggwork.Server.Normalize
import Eggwork.Server.Telemetry
import Eggwork.Server.Routes
import Eggwork.Server.Roots
import Eggwork.Server.Reads
import Eggwork.Server.Services
import Eggwork.Server.Fencing
import Eggwork.Server.Leases
import Eggwork.Server.Draining
import Eggwork.Server.Resubmission
import Eggwork.Server.Shutdown
import Eggwork.Server.Standing
import Eggwork.Server.Streams
import Eggwork.Server.Listing
import Eggwork.Blob.Counts
import Eggwork.Blob.Verification
import Eggwork.Blob.Abandoned
import Eggwork.Workspace.Quota
import Eggwork.Workspace.Activation
import Eggwork.Artifact.Availability
import Eggwork.Client.Framing
