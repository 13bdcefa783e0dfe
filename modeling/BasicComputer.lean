import BasicComputer.Main
import BasicComputer.Proofs.InstructionSet
import BasicComputer.Proofs.Acceptance
import BasicComputer.Proofs.Literals
import BasicComputer.Proofs.LeadingOrigin
import BasicComputer.Proofs.RoundTrip
import BasicComputer.Proofs.Trajectory
import BasicComputer.Proofs.Coherence
import BasicComputer.Proofs.ByteStreams
import BasicComputer.Proofs.Loading
import BasicComputer.Proofs.Capacity
import BasicComputer.Proofs.LineGrammar
import BasicComputer.Proofs.StatedOperations
import BasicComputer.Proofs.Subscriptions
import BasicComputer.Proofs.TracedRuns
import BasicComputer.Proofs.Reports
import BasicComputer.Proofs.SnapshotText
import BasicComputer.Proofs.LineRuns
import BasicComputer.Proofs.Segmentation
import BasicComputer.Proofs.Moving
import BasicComputer.Proofs.WordLines
import BasicComputer.Proofs.ExitCodes
import BasicComputer.Proofs.SecondPass
import BasicComputer.Proofs.Overflow
import BasicComputer.Proofs.Relocation
import BasicComputer.Proofs.Spelling
import BasicComputer.Proofs.LabelNames
import BasicComputer.Proofs.LastWrite
import BasicComputer.Proofs.DecimalLiterals
import BasicComputer.Proofs.ErrorPositions
import BasicComputer.Proofs.Counters
import BasicComputer.Proofs.EarlyInput
import BasicComputer.Proofs.Circulation
import BasicComputer.Proofs.Listings
import BasicComputer.Proofs.Multiplication
import BasicComputer.Proofs.Echo
import BasicComputer.Proofs.DecimalAddresses
import BasicComputer.Proofs.MemoryListing
import BasicComputer.Proofs.Widths
