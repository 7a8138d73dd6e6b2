import Sentences.CommandLine.Run
import Sentences.Grammar.Origin
import Sentences.Main
import Sentences.Proofs.Derivation
import Sentences.Proofs.Graded
import Sentences.Proofs.GrammarJson
import Sentences.Proofs.Language
import Sentences.Proofs.Listing
import Sentences.Proofs.RuleText
import Sentences.Proofs.Starter
import Sentences.Proofs.WriteLog
import Sentences.Proofs.StarterSentences
import Sentences.Proofs.BareNames
import Sentences.Proofs.FileLines
import Sentences.Proofs.Loading
import Sentences.Grammar.InPlace
import Sentences.Proofs.FileAppend
import Sentences.Proofs.WrittenLines
import Sentences.Proofs.GrammarFile
import Sentences.Proofs.Handles
import Sentences.Proofs.StoredStart
import Sentences.Proofs.RuleForms
import Sentences.Proofs.References
import Sentences.Proofs.DepthLimit
import Sentences.Proofs.SentenceStream
import Sentences.Proofs.BracketedNames
import Sentences.Proofs.AssignmentForm
import Sentences.Proofs.FileLayout
import Sentences.Proofs.LoneLine
import Sentences.Proofs.Trace
import Sentences.Proofs.Ending
import Sentences.Proofs.LimitedRun
import Sentences.Proofs.FailureChains
import Sentences.Proofs.Acyclic
import Sentences.Generation.InPlace
import Sentences.Proofs.Rendering
import Sentences.Proofs.OrderRepair
import Sentences.Proofs.UnorderedRules
import Sentences.Proofs.Vocabularies
import Sentences.Proofs.Alias
import Sentences.Proofs.DrawsTaken
import Sentences.Proofs.StoredNames
