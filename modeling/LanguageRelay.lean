import LanguageRelay.Child.Keeper
import LanguageRelay.Engine.Request
import LanguageRelay.Engine.Turns
import LanguageRelay.Main
import LanguageRelay.Proofs.Checks.Publication
import LanguageRelay.Proofs.Engine.Correlation
import LanguageRelay.Proofs.Relay.Mirror
import LanguageRelay.Proofs.Checks.Flight
import LanguageRelay.Proofs.Checks.Regular
import LanguageRelay.Proofs.Checks.Freshness
import LanguageRelay.Proofs.Checks.Progress
import LanguageRelay.Proofs.Editing.Sequence
import LanguageRelay.Proofs.Desk.Arrival
import LanguageRelay.Proofs.Desk.Custody
import LanguageRelay.Proofs.Editing.Closing
import LanguageRelay.Proofs.Editing.Silence
import LanguageRelay.Proofs.Editing.Window
import LanguageRelay.Proofs.Child.Operations
import LanguageRelay.Proofs.Editor.Substitution
import LanguageRelay.Proofs.Service.Strays
import LanguageRelay.Proofs.Editing.Tallies
import LanguageRelay.Proofs.Editor.Ordering
import LanguageRelay.Proofs.Service.RoundTrip
import LanguageRelay.Proofs.Editing.Formatting
import LanguageRelay.Proofs.Checks.Counts
import LanguageRelay.Proofs.Config.Faults
import LanguageRelay.Proofs.Uri.Documents
import LanguageRelay.Proofs.Checks.Isolation
import LanguageRelay.Proofs.Service.Locations
import LanguageRelay.Proofs.Service.Pieces
import LanguageRelay.Proofs.Timing.Debounce
import LanguageRelay.Proofs.Editing.Resolving
import LanguageRelay.Proofs.Feature.Renaming
import LanguageRelay.Proofs.Feature.Symbols
import LanguageRelay.Proofs.Feature.Words
