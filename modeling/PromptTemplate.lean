import PromptTemplate.Engine
import PromptTemplate.Json.Reader
import PromptTemplate.Proofs.Condition.RoundTrip
import PromptTemplate.Proofs.Expression.Presence
import PromptTemplate.Proofs.Template.Frame
import PromptTemplate.Proofs.Template.Grammar
import PromptTemplate.Proofs.Template.Iteration
import PromptTemplate.Proofs.Template.Lexing
import PromptTemplate.Proofs.Template.Noninterference
import PromptTemplate.Tool
import PromptTemplate.Proofs.Template.Trimming
import PromptTemplate.Proofs.Template.Chain
import PromptTemplate.Proofs.Expression.Literal
import PromptTemplate.Proofs.Template.Substitution
import PromptTemplate.Proofs.Template.Embedding
import PromptTemplate.Proofs.Template.Continuation
import PromptTemplate.Proofs.Expression.PathText
import PromptTemplate.Proofs.Template.LoopPath
import PromptTemplate.Proofs.Json.Strings
import PromptTemplate.Proofs.Value.Writers
import PromptTemplate.Proofs.Json.Tokens
import PromptTemplate.Proofs.Number.Exact
import PromptTemplate.Proofs.Value.Decoding
import PromptTemplate.Proofs.Expression.Pipe
import PromptTemplate.Proofs.Expression.Joining
import PromptTemplate.Proofs.Expression.WrittenCall
import PromptTemplate.Proofs.Tool.Agreement
import PromptTemplate.Proofs.Template.LiteralText
import PromptTemplate.Proofs.Template.Sequence
import PromptTemplate.Proofs.Condition.Membership
import PromptTemplate.Proofs.Expression.Subscript
import PromptTemplate.Proofs.Registry.Runs
import PromptTemplate.Proofs.Template.Unclosed
import PromptTemplate.Proofs.Template.NamedCondition
import PromptTemplate.Proofs.Condition.Grouping
import PromptTemplate.Proofs.Nesting.Splitting
import PromptTemplate.Proofs.Nesting.Balance
import PromptTemplate.Proofs.Template.Slices
import PromptTemplate.Proofs.Tool.Declarations
