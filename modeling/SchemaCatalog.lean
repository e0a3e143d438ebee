import SchemaCatalog.Session
import SchemaCatalog.Proofs.Wire.Lawful
import SchemaCatalog.Proofs.Wire.RoundTrip
import SchemaCatalog.Proofs.Wire.Cut
import SchemaCatalog.Proofs.Wire.Sound
import SchemaCatalog.Proofs.Wire.Grammar
import SchemaCatalog.Proofs.Fleet.Core
import SchemaCatalog.Proofs.Fleet.Effect
import SchemaCatalog.Proofs.Fleet.Run
import SchemaCatalog.Proofs.NatMap
import SchemaCatalog.Proofs.Storage
import SchemaCatalog.Proofs.History
import SchemaCatalog.Proofs.Watermark
import SchemaCatalog.Proofs.Fleet.Frame
import SchemaCatalog.Proofs.Fleet.Replay
import SchemaCatalog.Proofs.Run.Basic
import SchemaCatalog.Proofs.Run.Snapshots
import SchemaCatalog.Proofs.Fleet.Turn
import SchemaCatalog.Proofs.Fleet.Origin
import SchemaCatalog.Proofs.Run.Statements
import SchemaCatalog.Proofs.Fleet.Failure
import SchemaCatalog.Proofs.Run.Serial
import SchemaCatalog.Proofs.Fleet.Waiting
import SchemaCatalog.Proofs.Fleet.Dispatch
import SchemaCatalog.Proofs.Run.Success
import SchemaCatalog.Proofs.Catalog.WellFormed
import SchemaCatalog.Proofs.Catalog.Schema
import SchemaCatalog.Proofs.Catalog.Apply
import SchemaCatalog.Proofs.Catalog.Checks
import SchemaCatalog.Proofs.Catalog.Inversion
import SchemaCatalog.Proofs.Catalog.Statements
import SchemaCatalog.Proofs.Run.WellFormed
import SchemaCatalog.Proofs.Catalog.Numbers
import SchemaCatalog.Proofs.Run.Handing
import SchemaCatalog.Proofs.Run.Exhaustion
import SchemaCatalog.Proofs.Run.Halt
import SchemaCatalog.Proofs.Run.Delivery
import SchemaCatalog.Proofs.Run.Quiescence
import SchemaCatalog.Proofs.Run.Appends
import SchemaCatalog.Proofs.Run.Stopping
import SchemaCatalog.Proofs.Run.Reading
import SchemaCatalog.Proofs.Run.Once
import SchemaCatalog.Proofs.Catalog.Refusals
import SchemaCatalog.Proofs.Run.Contention
import SchemaCatalog.Proofs.Fleet.Happening
import SchemaCatalog.Proofs.Fleet.Stride
import SchemaCatalog.Proofs.Chronicle.Basic
import SchemaCatalog.Proofs.Chronicle.Attempts
import SchemaCatalog.Proofs.Chronicle.Verdicts
import SchemaCatalog.Proofs.Chronicle.Pace
import SchemaCatalog.Proofs.Chronicle.Saving
import SchemaCatalog.Proofs.Activation
import SchemaCatalog.Proofs.Run.Activation
import SchemaCatalog.Proofs.Catalog.Objects
import SchemaCatalog.Proofs.Catalog.Evolution
import SchemaCatalog.Proofs.Run.Ids
import SchemaCatalog.Proofs.Run.Evolution
import SchemaCatalog.Proofs.Run.Rebuilding
import SchemaCatalog.Proofs.Run.Finality
import SchemaCatalog.Proofs.Run.Overlap
import SchemaCatalog.Proofs.Run.Cutting
import SchemaCatalog.Proofs.Watch.Height
import SchemaCatalog.Proofs.Watch.Ends
import SchemaCatalog.Proofs.Fleet.Redelivery
import SchemaCatalog.Proofs.Contest.Batch
import SchemaCatalog.Proofs.Catalog.Lookup
import SchemaCatalog.Proofs.Catalog.Coherent
import SchemaCatalog.Proofs.Catalog.Stated
import SchemaCatalog.Proofs.Catalog.Alters
import SchemaCatalog.Proofs.Catalog.Undo
import SchemaCatalog.Proofs.Catalog.Exactness
import SchemaCatalog.Proofs.Catalog.References
import SchemaCatalog.Proofs.Catalog.Reasons
import SchemaCatalog.Proofs.Catalog.InPlace
import SchemaCatalog.Proofs.Catalog.Independence
import SchemaCatalog.Proofs.Run.Reads
import SchemaCatalog.Proofs.Publishing.Publication
import SchemaCatalog.Proofs.Publishing.Repetition
import SchemaCatalog.Proofs.Timestamp
import SchemaCatalog.Proofs.Catalog.Mirrors
import SchemaCatalog.Proofs.Config.Json
import SchemaCatalog.Proofs.Config.RoundTrip
import SchemaCatalog.Proofs.Vigil
