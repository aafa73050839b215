import FieldRules.Configuration.Loading
import FieldRules.FileSystem.Change
import FieldRules.Proofs.Comparison.Coherence
import FieldRules.Proofs.Comparison.Numbers
import FieldRules.Proofs.Configuration.Decoding
import FieldRules.Proofs.Configuration.Loading
import FieldRules.Proofs.Evaluation.Composition
import FieldRules.Proofs.Evaluation.Conjunction
import FieldRules.Proofs.Evaluation.Contents
import FieldRules.Proofs.Evaluation.FirstFault
import FieldRules.Proofs.Evaluation.Ignoring
import FieldRules.Proofs.Evaluation.IgnoringCase
import FieldRules.Proofs.Evaluation.LabelCounts
import FieldRules.Proofs.Evaluation.MissingPolicy
import FieldRules.Proofs.Evaluation.Relevance
import FieldRules.Proofs.Options.Acceptance
import FieldRules.Proofs.Overflow
import FieldRules.Proofs.Padding
import FieldRules.Proofs.Rule.Classification
import FieldRules.Proofs.Rule.IntegerLiteral
import FieldRules.Proofs.Rule.RoundTrip
import FieldRules.Proofs.Rule.Uniqueness
import FieldRules.Proofs.Rule.Verbatim
import FieldRules.Proofs.Text.Calls
import FieldRules.Proofs.Tree.Independence
import FieldRules.Proofs.Tree.Subdirectory
import FieldRules.Proofs.Validator.Agreement
import FieldRules.Proofs.Validator.Evidence
import FieldRules.Proofs.Validator.Filtering
import FieldRules.Proofs.Validator.Messages
import FieldRules.Proofs.Validator.Projection
import FieldRules.Proofs.Validator.Refusal
import FieldRules.Proofs.Validator.Streaming
import FieldRules.Tree.Basic
