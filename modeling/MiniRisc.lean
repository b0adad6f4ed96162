import MiniRisc.Main
import MiniRisc.Proofs.LabelTarget
import MiniRisc.Proofs.Relisting
import MiniRisc.Proofs.Stopping
import MiniRisc.Tool.Store
import MiniRisc.Proofs.Reachability
import MiniRisc.Proofs.Runs
import MiniRisc.Proofs.Coverage
import MiniRisc.Proofs.LatestStore
import MiniRisc.Proofs.VirtualHalt
import MiniRisc.Proofs.Arithmetic
import MiniRisc.Proofs.Budget
import MiniRisc.Proofs.Joining
import MiniRisc.Proofs.ReachableSet
import MiniRisc.Proofs.ProgramText
import MiniRisc.Proofs.LostOffsets
import MiniRisc.Proofs.LabelNames
import MiniRisc.Proofs.DumpedMemory
import MiniRisc.Proofs.Touched
import MiniRisc.Proofs.Reports
import MiniRisc.Proofs.TargetNames
import MiniRisc.Proofs.LeftBehind
import MiniRisc.Proofs.BitRows
import MiniRisc.Proofs.RoundTrips
import MiniRisc.Proofs.ShorterWalks
import MiniRisc.Proofs.Grammar
import MiniRisc.Proofs.RewrittenLines
import MiniRisc.Proofs.TraceText
import MiniRisc.Proofs.LiveValues
import MiniRisc.Proofs.SignedWords
