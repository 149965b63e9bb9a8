import LlmGraph.Executor.Completeness
import LlmGraph.Executor.Resume
import LlmGraph.Superstep.Atomic
import LlmGraph.Superstep.MapRuns
import LlmGraph.Superstep.Yields
import LlmGraph.Superstep.Honest
import LlmGraph.Superstep.Resume
import LlmGraph.Contract.Cancel.Tree
import LlmGraph.Contract.Channel
import LlmGraph.Agentic.Instances
import LlmGraph.Flow.Reduced
import LlmGraph.Flow.Window
import LlmGraph.Agentic.Inbox
import LlmGraph.Agentic.Reading
import LlmGraph.Agentic.Slot
import LlmGraph.Agentic.Worker
import LlmGraph.Agentic.Untouched
import LlmGraph.React.Rounds
import LlmGraph.React.ToolRound
import LlmGraph.React.Turns
import LlmGraph.React.Partition
import LlmGraph.Contract.Legal
import LlmGraph.React.SharedGates
import LlmGraph.Superstep.Session
import LlmGraph.Agentic.Additions
import LlmGraph.Contract.RoundTrip
import LlmGraph.Executor.Resumable
import LlmGraph.Executor.Outcomes
import LlmGraph.Executor.Lifetimes
import LlmGraph.Executor.Stopping
import LlmGraph.Executor.Draining
import LlmGraph.Flow.Merger
import LlmGraph.Executor.Join
import LlmGraph.Contract.Wakeups
import LlmGraph.Executor.Targets
import LlmGraph.Executor.Orders
import LlmGraph.Superstep.Batches
import LlmGraph.Superstep.Occurrences
import LlmGraph.Agentic.Fallback
import LlmGraph.Agentic.Passes
import LlmGraph.Agentic.Through
import LlmGraph.Agentic.GeneratorCritic
import LlmGraph.Agentic.CriticRounds
import LlmGraph.Agentic.Sandbox
import LlmGraph.Agentic.MailText
import LlmGraph.React.LimitMarks
import LlmGraph.React.RoundAgrees
import LlmGraph.React.LoopBounds
import LlmGraph.React.DuoBounds
import LlmGraph.Agentic.Finality
import LlmGraph.Agentic.Conclude
import LlmGraph.Agentic.ToolRound
import LlmGraph.Lib.Ranked
import LlmGraph.React.AnswersAgain
