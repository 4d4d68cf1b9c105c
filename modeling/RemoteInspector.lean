import RemoteInspector.Channel.Service
import RemoteInspector.Main
import RemoteInspector.Proofs.Channel.Locking
import RemoteInspector.Proofs.Channel.Reception
import RemoteInspector.Proofs.Channel.Responses
import RemoteInspector.Proofs.Remote.Identity
import RemoteInspector.Proofs.Session.Absorbed
import RemoteInspector.Proofs.Session.Confluence
import RemoteInspector.Proofs.Session.Failing
import RemoteInspector.Proofs.Session.Indices
import RemoteInspector.Proofs.Session.Interrupted
import RemoteInspector.Proofs.Session.Late
import RemoteInspector.Proofs.Session.Rendering
import RemoteInspector.Proofs.Session.Requested
import RemoteInspector.Proofs.Session.Retained
import RemoteInspector.Proofs.Session.Schedule
import RemoteInspector.Proofs.Session.Suspension
import RemoteInspector.Proofs.Session.Typing
import RemoteInspector.Proofs.Session.Unfolding
import RemoteInspector.Proofs.Session.Untouched
import RemoteInspector.Proofs.Settings.Disclosure
import RemoteInspector.Proofs.Value.Kinds
import RemoteInspector.Proofs.Wire.Disclosure
import RemoteInspector.Proofs.Wire.Header
import RemoteInspector.Proofs.Wire.Leftover
import RemoteInspector.Proofs.Wire.Truncation
import RemoteInspector.Proofs.Log.Filter
import RemoteInspector.Proofs.Remote.Alignment
import RemoteInspector.Proofs.Remote.Thrown
import RemoteInspector.Proofs.Settings.Environment
