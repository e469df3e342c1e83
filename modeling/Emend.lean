import Emend.Plan
import Emend.Json.Reader
import Emend.Json.Printer
import Emend.Schema
import Emend.Schema.Traversal
import Emend.Preset.Catalogue
import Emend.Encoding.Basic
import Emend.Source
import Emend.Duration
import Emend.Corpus.Collect
import Emend.Corpus.Run
import Emend.Path.Relative
import Emend.Command.Program
import Emend.Corpus.Event
import Emend.Tree.Edit
import Emend.Main
import Emend.Proofs.PatternInstances
import Emend.Proofs.PatternParse
import Emend.Proofs.RunOrder
import Emend.Proofs.LosslessCoding
import Emend.Proofs.ConstraintMeaning
import Emend.Proofs.MessageSettled
import Emend.Proofs.RunContainment
import Emend.Proofs.SourceContainment
import Emend.Proofs.PhraseSettled
import Emend.Proofs.PlanSettles
import Emend.Proofs.ReplacementFaults
import Emend.Proofs.ReplacementRaces
import Emend.Proofs.FileModes
import Emend.Proofs.CheckMode
import Emend.Proofs.TreeShape
import Emend.Proofs.RunFailures
import Emend.Proofs.PlanSkips
import Emend.Proofs.AbsentScope
import Emend.Proofs.RunReport
import Emend.Proofs.RunAgain
import Emend.Proofs.LiteralRules
import Emend.Proofs.SourceLookups
import Emend.Proofs.PatternSplits
import Emend.Proofs.PatternAnchors
import Emend.Proofs.LineKeys
import Emend.Proofs.Reentrances
import Emend.Proofs.PhraseWellFormed
import Emend.Proofs.RuleWellFormed
import Emend.Proofs.CorpusExact
import Emend.Proofs.ShownFiles
import Emend.Proofs.TreeSetup
import Emend.Proofs.ColoredOutput
import Emend.Proofs.DocumentForm
import Emend.Proofs.GatheredPhrases
import Emend.Proofs.ConcurrencyValues
