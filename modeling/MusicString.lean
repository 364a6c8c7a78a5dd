import MusicString.Environment.Describe
import MusicString.Listener.Probe
import MusicString.Main
import MusicString.Reader
import MusicString.Proofs.Read.Frame
import MusicString.Proofs.Read.Locality
import MusicString.Proofs.Read.Failure
import MusicString.Proofs.Grammar.Locality
import MusicString.Proofs.Grammar.Element
import MusicString.Proofs.Grammar.Failure
import MusicString.Proofs.Environment.Firing
import MusicString.Proofs.Environment.FanOut
import MusicString.Proofs.Pattern.Firing
import MusicString.Proofs.Pattern.Tokens
import MusicString.Proofs.Pattern.Streaming
import MusicString.Proofs.Pattern.Failure
import MusicString.Proofs.Element.Evaluate
import MusicString.Proofs.Environment.Replay
import MusicString.Proofs.Event.WellFormed
import MusicString.Proofs.Environment.Operation
import MusicString.Proofs.Pattern.FanOut
import MusicString.Proofs.Grammar.NoteText
import MusicString.Proofs.Grammar.NoteLanguage
import MusicString.Proofs.Read.Literal
import MusicString.Proofs.Grammar.OpenField
import MusicString.Proofs.Element.Field
import MusicString.Proofs.Pattern.Spellings
import MusicString.Proofs.Grammar.RoundTrip
import MusicString.Proofs.Element.Names
import MusicString.Proofs.Grammar.Names
import MusicString.Proofs.Environment.Accepting
import MusicString.Proofs.Pattern.Names
import MusicString.Proofs.Environment.History
import MusicString.Proofs.Pattern.Restart
import MusicString.Proofs.Read.Restore
import MusicString.Proofs.Rule.Cursor
import MusicString.Proofs.Element.Inversion
import MusicString.Proofs.Pattern.Definition
import MusicString.Proofs.Value.Coercion
import MusicString.Proofs.Element.Chord
import MusicString.Proofs.Grammar.Joined
import MusicString.Proofs.Environment.Controller
import MusicString.Proofs.Pattern.Velocity
import MusicString.Proofs.Pattern.SystemExclusive
import MusicString.Proofs.Grammar.KeySignature
import MusicString.Proofs.Dictionary.Definition
import MusicString.Proofs.Listener.Routing
import MusicString.Proofs.Environment.Handles
import MusicString.Proofs.Reader.Cursor
import MusicString.Proofs.Read.Fitting
import MusicString.Proofs.Read.Scanning
import MusicString.Proofs.Grammar.Accidentals
import MusicString.Proofs.Grammar.ChordName
import MusicString.Proofs.Grammar.RuleOrder
import MusicString.Proofs.Pattern.Progress
