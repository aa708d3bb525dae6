import DocIndex.Exchange.Files
import DocIndex.Exchange.Settings
import DocIndex.Exchange.Writing
import DocIndex.OpenIndex
import DocIndex.Proofs.Document.Saturation
import DocIndex.Proofs.Document.SpanFields
import DocIndex.Proofs.Index.Ascending
import DocIndex.Proofs.Index.Choices
import DocIndex.Proofs.Index.Separation
import DocIndex.Proofs.Index.Sorting
import DocIndex.Proofs.Ledger.Episodes
import DocIndex.Proofs.Ledger.Runs
import DocIndex.Proofs.Ledger.Sources
import DocIndex.Proofs.Query.Backslashes
import DocIndex.Proofs.Query.EqualValues
import DocIndex.Proofs.Query.Exclusions
import DocIndex.Proofs.Query.Failures
import DocIndex.Proofs.Query.Integers
import DocIndex.Proofs.Query.ListPlaces
import DocIndex.Proofs.Query.Meaning
import DocIndex.Proofs.Query.MixedNumbers
import DocIndex.Proofs.Query.NormalForm
import DocIndex.Proofs.Query.NumberTexts
import DocIndex.Proofs.Query.Offsets
import DocIndex.Proofs.Query.OwnWords
import DocIndex.Proofs.Query.Pieces
import DocIndex.Proofs.Query.Polarity
import DocIndex.Proofs.Query.Presence
import DocIndex.Proofs.Query.Scoping
import DocIndex.Proofs.Query.WholeDays
import DocIndex.Proofs.Storage.Damage
import DocIndex.Proofs.Storage.Outcomes
import DocIndex.Proofs.Storage.Restoring
import DocIndex.Proofs.Storage.Trials
import DocIndex.Proofs.Work.Batches
import DocIndex.Proofs.Work.Conservation
import DocIndex.Proofs.Work.Delivery
import DocIndex.Proofs.Work.Overshoot
import DocIndex.Proofs.Work.QueueOrder
import DocIndex.Proofs.Writing.Alone
import DocIndex.Proofs.Writing.AnyOrder
import DocIndex.Proofs.Writing.Identities
import DocIndex.Proofs.Writing.Leftovers
import DocIndex.Proofs.Writing.Refusals
import DocIndex.Proofs.Writing.Shutdown
