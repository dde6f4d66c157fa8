import Patchbay.Atom.Words
import Patchbay.Atom.Inspect
import Patchbay.Dico.Reader
import Patchbay.Attribute.Watch
import Patchbay.Beacon.Registry
import Patchbay.Beacon.Broadcast
import Patchbay.Timeline.Basic
import Patchbay.Timeline.Agenda
import Patchbay.Wiring
import Patchbay.Signal.Chain
import Patchbay.Box.Control
import Patchbay.Box.Wireless
import Patchbay.Box.Timing
import Patchbay.Box.Audio
import Patchbay.Box.Bench
import Patchbay.Box.Catalog
import Patchbay.Patch.Running
import Patchbay.Studio.Rack
import Patchbay.Sound.Wav.Writer
import Patchbay.Sound.Wav.Reader
import Patchbay.Sound.Wav.Channels
import Patchbay.Storage.Disk
import Patchbay.Storage.PatchFile
import Patchbay.Storage.SettingsFile
import Patchbay.Main
import Patchbay.Proofs.Box.Laws
import Patchbay.Proofs.Studio.Running
import Patchbay.Proofs.Studio.Relay
import Patchbay.Proofs.Atom.Words
import Patchbay.Proofs.Dico.Alike
import Patchbay.Proofs.Studio.Loading
import Patchbay.Proofs.Studio.Nesting
import Patchbay.Proofs.Attribute.Reading
import Patchbay.Proofs.Sound.Rendering
import Patchbay.Proofs.Beacon.Delivery
import Patchbay.Proofs.Attribute.Telling
import Patchbay.Proofs.Studio.LiveEdits
import Patchbay.Proofs.Studio.Reloading
import Patchbay.Proofs.Studio.Wireless
import Patchbay.Proofs.Studio.Pacing
import Patchbay.Proofs.Timeline.Bookings
import Patchbay.Proofs.Console.Errors
import Patchbay.Proofs.Studio.Stopping
import Patchbay.Proofs.Signal.Leftovers
import Patchbay.Proofs.Studio.Topology
import Patchbay.Proofs.Studio.Lingering
import Patchbay.Proofs.Atom.Reprinting
import Patchbay.Proofs.Number.Places
import Patchbay.Proofs.Atom.Numerals
import Patchbay.Proofs.Atom.Equality
import Patchbay.Proofs.Attribute.Setting
import Patchbay.Proofs.Attribute.Limits
import Patchbay.Proofs.Attribute.Overwriting
import Patchbay.Proofs.Dico.Strays
import Patchbay.Proofs.Dico.Truncation
import Patchbay.Proofs.Studio.Counting
import Patchbay.Proofs.Studio.Describing
import Patchbay.Proofs.Dico.Merging
import Patchbay.Proofs.Box.Naming
import Patchbay.Proofs.Sound.Channels
import Patchbay.Proofs.Console.Typing
