import ACGlass.Session.Lock
import ACGlass.Session.Idle
import ACGlass.Daemon.ScreenAgreement
import ACGlass.Daemon.Batch
import ACGlass.Consumer.Generations
import ACGlass.Producer.Solicited
import ACGlass.Producer.Recovery
import ACGlass.Anland.Ownership
import ACGlass.Anland.Refusal
import ACGlass.Daemon.ScreenSync
import ACGlass.Daemon.Descriptors
import ACGlass.Daemon.Pickups
import ACGlass.Daemon.Decoding
import ACGlass.Producer.Descriptors
import ACGlass.Android.Dmabufs
import ACGlass.Android.OpenWindows
import ACGlass.Android.RenderThread
import ACGlass.Channel.TwoSenders
import ACGlass.Channel.Announcement
import ACGlass.Channel.Mixed
import ACGlass.Android.DisplayRequests
import ACGlass.Android.LaunchThreads
import ACGlass.Kiosk.Minimised
import ACGlass.Kiosk.RoundTrip
import ACGlass.Android.PublishedApps
import ACGlass.Session.Rewritten
import ACGlass.Android.RootCommand
import ACGlass.Android.MouseButtons
import ACGlass.Android.OverlayLayout
import ACGlass.Android.RestoreRequests
import ACGlass.Anland.Seat
import ACGlass.Anland.Damage
import ACGlass.Consumer.Descriptors
import ACGlass.Android.DesktopEntries
import ACGlass.System.Agreement
import ACGlass.Consumer.Recovery
import ACGlass.Anland.Prompt
import ACGlass.System.Mirrored
import ACGlass.System.OpenWindows
import ACGlass.Android.Launching
import ACGlass.Session.Prepare
import ACGlass.Session.Environment
