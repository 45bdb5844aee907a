import Retouch.EntryPoint
import Retouch.Forest.Describe
import Retouch.Script.Call
import Retouch.Settings.Load
import Retouch.Proofs.Descent
import Retouch.Proofs.PristineMap
import Retouch.Proofs.Slicing
import Retouch.Proofs.CodePoints
import Retouch.Proofs.Rendering
import Retouch.Proofs.Spelling
import Retouch.Proofs.Planting
import Retouch.Proofs.RoundTrip
import Retouch.Proofs.Attached
import Retouch.Proofs.Reseating
import Retouch.Proofs.Editing
import Retouch.Proofs.Grafting
import Retouch.Proofs.LiveSlots
import Retouch.Proofs.Patching
import Retouch.Proofs.Rebuilding
import Retouch.Proofs.Standing
import Retouch.Proofs.Transcription
import Retouch.Proofs.Changes
import Retouch.Proofs.LocalEdits
import Retouch.Proofs.Cuts
import Retouch.Proofs.Pruning
import Retouch.Proofs.Histories
import Retouch.Proofs.Sameness
import Retouch.Proofs.Lookups
import Retouch.Proofs.Unfailing
import Retouch.Proofs.Coverage
import Retouch.Proofs.Insertions
import Retouch.Proofs.Keyed
import Retouch.Proofs.Replacing
import Retouch.Proofs.Links
import Retouch.Proofs.Identity
import Retouch.Proofs.Siblings
import Retouch.Proofs.BuiltPaths
import Retouch.Proofs.PathCalls
import Retouch.Proofs.Ancestors
import Retouch.Proofs.PathWalks
import Retouch.Proofs.Serializing
import Retouch.Proofs.SyntaxErrors
import Retouch.Proofs.Registrations
import Retouch.Proofs.AllOrNothing
import Retouch.Proofs.Setups
import Retouch.Proofs.Merging
import Retouch.Proofs.DistinctKeys
import Retouch.Proofs.LowerCase
import Retouch.Proofs.Overriding
import Retouch.Proofs.Revalidation
import Retouch.Proofs.Precedence
import Retouch.Proofs.SecondCheck
import Retouch.Proofs.JsonReading
import Retouch.Proofs.LogLines
import Retouch.Proofs.Handlers
import Retouch.Proofs.Deliveries
import Retouch.Proofs.Seats
import Retouch.Proofs.Kinds
