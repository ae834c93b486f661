import RegexCorpus.Digest
import RegexCorpus.Main
import RegexCorpus.Pattern.Flag
import RegexCorpus.Pom.Data
import RegexCorpus.Record.Slot
import RegexCorpus.SyntaxTree.Program
import RegexCorpus.Proofs.Record.Reports
import RegexCorpus.Proofs.SyntaxTree.Instrument
import RegexCorpus.Proofs.Extract.TypeScript
import RegexCorpus.Proofs.Extract.ProjectDir
import RegexCorpus.Proofs.Extract.Projects
import RegexCorpus.Proofs.Automaton.Report
import RegexCorpus.Proofs.Pattern.Quote
import RegexCorpus.Proofs.Measure.UnknownCount
import RegexCorpus.Proofs.Pattern.CSharp
import RegexCorpus.Proofs.SyntaxTree.FlagGrammar
import RegexCorpus.Proofs.SuperLinear.OpinionLine
import RegexCorpus.Proofs.SuperLinear.Performance
import RegexCorpus.Proofs.Measure.Selection
import RegexCorpus.Proofs.Measure.SharedCounts
import RegexCorpus.Proofs.SuperLinear.Unread
import RegexCorpus.Proofs.Extract.MalformedLog
import RegexCorpus.Proofs.Project.Placement
import RegexCorpus.Proofs.Pattern.Recognise
import RegexCorpus.Proofs.Publish.Addresses
import RegexCorpus.Proofs.Pom.Update
import RegexCorpus.Proofs.Survey.Outlier
import RegexCorpus.Proofs.Extract.Instrument
import RegexCorpus.Proofs.Build.Maven
import RegexCorpus.Proofs.Host.Shallowest
