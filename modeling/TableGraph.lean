import TableGraph.Decimal
import TableGraph.Dump.Progress
import TableGraph.Extraction.Run
import TableGraph.Main
import TableGraph.Proofs.CommandLine.EntryPoints
import TableGraph.Proofs.Definition.Keywords
import TableGraph.Proofs.Definition.Value
import TableGraph.Proofs.Diagram.Reading
import TableGraph.Proofs.Dump.Append
import TableGraph.Proofs.Dump.Descent
import TableGraph.Proofs.Dump.Layout
import TableGraph.Proofs.Dump.NumberWord
import TableGraph.Proofs.Dump.Spelling
import TableGraph.Proofs.Extraction.Alike
import TableGraph.Proofs.Extraction.Complete
import TableGraph.Proofs.Extraction.Invariant
import TableGraph.Proofs.Extraction.Replay
import TableGraph.Proofs.Extraction.Respelled
import TableGraph.Proofs.Source.RoundTrip
import TableGraph.Text
import TableGraph.Tree.Printer
